import Lookahead.Proofs.Causality
import Lookahead.Proofs.Lockstep

/-!
What is left where a run is drained.

Partitions find together that nothing is left to do when the least of all that they publish in an
epoch is `Time.never`. Everything has been handed over by then. But a partition also publishes
`Time.never` while something is due at that very instant, and so what is left may be pending there
(`Simulation.drained`, `Simulation.drained_pending`).
-/

namespace Lookahead

variable {M : Model}

/-! ## Empty outboxes -/

def Partition.HandedOver (p : Partition M) : Prop := ∀ box ∈ p.member.outbound, box.isEmpty = true

theorem Partition.handedOver_of_map {p : Partition M} {boxes : List (Outbox M.Payload)}
    (h : p.member.outbound = boxes.map fun _ => {}) : p.HandedOver := by
  intro box hbox
  rw [h] at hbox
  obtain ⟨_, _, rfl⟩ := List.mem_map.mp hbox
  rfl

namespace Thread

theorem handedOver_finishTimed {p : Partition M} (h : p.HandedOver) (stop : StopReason) :
    (finishTimed stop p).partition.HandedOver := by
  unfold finishTimed
  split
  · exact Partition.handedOver_of_map (p := p.prepareComplete) rfl
  · exact h

/-- Nobody finds out alone that nothing is left. -/
theorem stance_workOn_ne (work : Work) (p q : Partition M) :
    (workOn work p).stance ≠ .ended .drained q := by
  have hphase : ∀ stage phase, (runPhase work stage phase p).stance ≠ .ended .drained q := by
    intro stage phase
    have hphases := phases_runPhase work stage phase p
    generalize runPhase work stage phase p = t at hphases
    cases hphases <;> exact nofun
  have hfinish : ∀ {stop : StopReason} {r : Partition M}, stop ≠ .drained →
      (finishTimed stop r).stance ≠ .ended .drained q := by
    intro stop r hstop
    unfold finishTimed
    split
    · exact nofun
    · intro hended
      cases hended
      exact hstop rfl
  cases work with
  | init phase => exact hphase .init phase
  | complete phase stop => exact hphase .complete phase
  | timed =>
    have hworks := works_workOn p
    generalize workOn .timed p = t at hworks
    cases hworks with
    | idle hnext => exact hfinish (by decide)
    | stop d hnext hstop => exact hfinish (by decide)
    | _ => exact nofun

end Thread

/-- Whatever follows an exchange, everything has been handed over. -/
theorem Party.handedOver_conclude (q : Party M) (incoming : List (Scheduled M.Payload))
    (least : Time) : (q.conclude incoming least).partition.HandedOver := by
  have htaken : (q.taken incoming).HandedOver :=
    Partition.handedOver_of_map (outbound_taken q incoming)
  unfold conclude
  cases q.kind with
  | epoch =>
    dsimp only
    split
    · refine Thread.handedOver_finishTimed ?_ .drained
      exact htaken
    · exact htaken
  | untimed own =>
    unfold Thread.afterRound
    dsimp only
    split <;> exact htaken

/-- Whoever has ended because nothing was left has handed everything over. -/
def Cohort.Emptied (cohort : Cohort M) : Prop := ∀ (i : Nat) (p : Partition M),
  cohort[i]? = some (.ended .drained p) → p.HandedOver

theorem Cohort.Emptied.step {cohort next : Cohort M} {label : Option PartitionId}
    (h : cohort.Emptied) (hstep : cohort.step? label = some next) : next.Emptied := by
  cases label with
  | some i =>
    obtain ⟨work, p, _, rfl⟩ := step?_some_iff.mp hstep
    have hset : ∀ (j : Nat) (s : Stance M),
        (cohort.set i (Thread.workOn work p).stance)[j]? = some s →
          ∀ q, s = .ended .drained q → q.HandedOver := by
      refine forall_set (fun j s _ hs q hended => h j q (hended ▸ hs)) fun q hended => ?_
      exact absurd hended (Thread.stance_workOn_ne work p q)
    exact fun j q hs => hset j _ hs q rfl
  | none =>
    obtain ⟨parties, _, rfl, rfl⟩ := exchange?_eq_some_iff.mp hstep
    intro j p hs
    obtain ⟨q, _, hstance⟩ := getElem?_exchanged hs
    have hover := q.handedOver_conclude (Party.incoming parties j) (Party.least parties)
    cases hthread : q.conclude (Party.incoming parties j) (Party.least parties) with
    | ended result r =>
      rw [hthread] at hstance hover
      cases result with
      | ok stop =>
        cases hstance
        exact hover
      | error e => cases hstance
    | _ =>
      rw [hthread] at hstance
      cases hstance

/-! ## What a drained run leaves -/

/-- Whoever has ended because nothing was left has nothing to do before the end of time. -/
theorem Fits.time_eq_never {S : Setting} {m : Moment} {p : Partition M}
    (h : Fits S m (.ended .drained p)) : ∀ a ∈ p.timeline.pending, a.time = Time.never := by
  have hrest : S.Allows p.timeline.agenda .drained := by
    cases h with
    | gone least stop p hleaves h => exact h.rest
    | finished stop p h => exact h.rest
  intro a ha
  exact hrest a.unnumbered (List.mem_map_of_mem ha)

namespace Simulation

variable {b : Builder M} {log : List (Planned M.Payload)} {simulation : Simulation M}
  {trace : List (PartitionId × Dispatch M)} {machine : Machine M}

theorem emptied_run {labels : List (Option PartitionId)} {cohort : Cohort M}
    (hrun : (Cohort.system M).Run simulation.cohort labels trace cohort) : cohort.Emptied := by
  refine hrun.invariant (P := Cohort.Emptied) ?_ fun _ _ _ hx hstep => hx.step hstep
  intro i p hs
  obtain ⟨_, _, hended⟩ := exists_stance_start hs
  cases hended

/-- If one of several partitions reports that nothing was left then all of them do. Everything has
been handed over then, and whatever is still pending is due at `Time.never`. -/
theorem drained (hb : b.Made log) (hbuild : b.build = .ok simulation)
    (hmany : 1 < simulation.partitions.length) (h : simulation.Reaches trace machine)
    {report : RunReport} (hreport : machine.outcome? simulation.window = some (.ok report))
    (hdrained : ∃ r ∈ report.partitions, r.stop = .drained) :
    (∀ r ∈ report.partitions, r.stop = .drained) ∧
    ∀ t ∈ machine.threads, ∃ p, t = .ended (.ok .drained) p ∧ p.HandedOver ∧
      ∀ a ∈ p.timeline.pending, a.time = Time.never := by
  obtain ⟨labels, cohort, hrun, htracks, _⟩ := h.cohort hb hbuild
  obtain ⟨_, m, hagrees⟩ := agrees_run hb hbuild hrun
  have hdeparts := departs_run hb hbuild hrun
  obtain ⟨hsucceeded, rfl⟩ := Machine.outcome?_eq_ok_iff.mp hreport
  -- All partitions leave the timed run for one reason.
  obtain ⟨r, hr, hstop⟩ := hdrained
  obtain ⟨u, hu, hur⟩ := List.mem_filterMap.mp hr
  obtain ⟨i, stop, q, rfl, hi⟩ := htracks.ended_of_succeeded hsucceeded hu
  cases hur
  cases hstop
  have hall : ∀ t ∈ machine.threads, ∃ (j : Nat) (p : Partition M),
      t = .ended (.ok .drained) p ∧ cohort[j]? = some (.ended .drained p) := by
    intro t ht
    obtain ⟨j, stop, p, rfl, hj⟩ := htracks.ended_of_succeeded hsucceeded ht
    obtain ⟨rfl, _⟩ := hdeparts.exit_unique hmany hi hj rfl rfl
    exact ⟨j, p, rfl, hj⟩
  refine ⟨fun r hr => ?_, fun t ht => ?_⟩
  · obtain ⟨t, ht, hreport⟩ := List.mem_filterMap.mp hr
    obtain ⟨_, p, rfl, _⟩ := hall t ht
    cases hreport
    rfl
  · obtain ⟨j, p, rfl, hj⟩ := hall t ht
    exact ⟨p, rfl, emptied_run hrun j p hj, (hagrees j _ hj).time_eq_never⟩

/-- Both partitions of a relay whose token makes two hops report that nothing was left. -/
theorem drained_relay : ∃ trace machine report,
    (Relay.simulation 1 2 2).Reaches trace machine ∧
    1 < (Relay.simulation 1 2 2).partitions.length ∧
    machine.outcome? 2 = some (.ok report) ∧
    (∃ r ∈ report.partitions, r.stop = .drained) ∧
    (∀ r ∈ report.partitions, r.stop = .drained) ∧
    ∀ t ∈ machine.threads, ∃ p, t = .ended (.ok .drained) p ∧ p.HandedOver ∧
      ∀ a ∈ p.timeline.pending, a.time = Time.never := by
  have h := Relay.reaches_run (Relay.simulation 1 2 2) (Relay.turns 0)
  obtain ⟨report, hreport, hdrained⟩ : ∃ report,
      (Relay.run (Relay.simulation 1 2 2) (Relay.turns 0)).2.outcome? 2 = some (.ok report) ∧
        ∃ r ∈ report.partitions, r.stop = .drained :=
    ⟨_, rfl, _, List.mem_cons_self .., rfl⟩
  have hmany : 1 < (Relay.simulation 1 2 2).partitions.length := by decide
  exact ⟨_, _, report, h, hmany, hreport, hdrained,
    drained (Relay.made 1 2) (Relay.build_eq 1 2) hmany h hreport hdrained⟩

/-- A token that is sent with the greatest delay is due at `Time.never`. Both partitions of the
relay report that nothing was left, and it is pending. -/
theorem drained_pending :
    (Relay.crew 1 1 (some ⟨lastTick, fun _ => lastTick, 0⟩) none).Made (Relay.log 1) ∧
    (Relay.crew 1 1 (some ⟨lastTick, fun _ => lastTick, 0⟩) none).build =
      .ok (Relay.crewed 1 1 (some ⟨lastTick, fun _ => lastTick, 0⟩) none) ∧
    1 < (Relay.crewed 1 1 (some ⟨lastTick, fun _ => lastTick, 0⟩) none).partitions.length ∧
    (∀ p ∈ (Relay.crewed 1 1 (some ⟨lastTick, fun _ => lastTick, 0⟩) none).partitions,
      p.lifecycle = false) ∧
    ∃ trace machine report,
      (Relay.crewed 1 1 (some ⟨lastTick, fun _ => lastTick, 0⟩) none).Reaches trace machine ∧
      machine.outcome? 2 = some (.ok report) ∧
      (∀ r ∈ report.partitions, r.stop = .drained) ∧ ∃ r ∈ report.partitions, r.pending = 1 := by
  have h := Relay.reaches_run (Relay.crewed 1 1 (some ⟨lastTick, fun _ => lastTick, 0⟩) none)
    (Relay.turns 0)
  obtain ⟨report, hreport, hdrained, hpending⟩ : ∃ report,
      (Relay.run (Relay.crewed 1 1 (some ⟨lastTick, fun _ => lastTick, 0⟩) none)
        (Relay.turns 0)).2.outcome? 2 = some (.ok report) ∧
      (∀ r ∈ report.partitions, r.stop = .drained) ∧ ∃ r ∈ report.partitions, r.pending = 1 := by
    refine ⟨_, rfl, ?_, _, List.mem_cons_of_mem _ (List.mem_cons_self ..), rfl⟩
    decide
  refine ⟨Relay.made_crew .., Relay.build_crew .., by decide, ?_, _, _, report, h, hreport,
    hdrained, hpending⟩
  decide

end Simulation

end Lookahead
