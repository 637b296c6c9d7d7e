import Lookahead.Proofs.Handshake
import Lookahead.Proofs.Record

/-!
Untimed stages.

Every run that succeeds goes through both stages in the same way in all partitions: everyone goes on
to another phase until nobody has sent anything. Link ends are queues from one phase to the next,
and what is sent in a stage stays in that stage: it is read there or dropped, and never comes among
the events that have a time.
-/

namespace Lookahead

variable {M : Model}

namespace Simulation

variable {b : Builder M} {log : List (Planned M.Payload)} {simulation : Simulation M}
  {machine : Machine M} {schedule : List PartitionId} {deeds : List (PartitionId × Deed M)}

theorem place_lt (hrun : (Machine.deeds M).Run simulation.machine schedule deeds machine) :
    ∀ entry ∈ deeds, entry.1 < simulation.partitions.length := by
  induction hrun with
  | refl => exact fun _ hentry => by cases hentry
  | @step _ _ x _ i hrun hstep ih =>
    intro entry hentry
    rcases List.mem_append.mp hentry with hentry | hentry
    · exact ih entry hentry
    · obtain ⟨d, hd, rfl⟩ := List.mem_map.mp hentry
      obtain ⟨t, ht, _⟩ := Option.bind_eq_some_iff.mp (Option.mem_toList.mp hd)
      rw [← Reaches.length_threads ⟨_, Machine.run_timedOf hrun⟩]
      exact (List.getElem?_eq_some_iff.mp ht).1

/-- A partition starts with the handlers that were added to it, and without any figures. -/
theorem exists_row (hbuild : b.build = .ok simulation) {j : Nat} {setup : PartitionSetup M}
    (hsetup : b.setups[j]? = some setup) :
    ∃ p, simulation.row[j]? = some p ∧ p.participants = setup.participants ∧ p.tally = {} ∧
      p.member.exchanged = 0 := by
  obtain ⟨window, hrow⟩ := row_eq hbuild
  refine ⟨(b.partition window j setup).start, ?_, rfl, rfl, rfl⟩
  rw [hrow, List.getElem?_mapIdx, hsetup]
  rfl

theorem recorded (hb : b.Made log) (hbuild : b.build = .ok simulation)
    (hlifecycle : b.lifecycle = true)
    (hrun : (Machine.deeds M).Run simulation.machine schedule deeds machine)
    (hsucceeded : machine.Succeeded) :
    ∃ rows last, Cohort.Recorded (machine.threads.map Thread.stance) b.tables simulation.row deeds
      rows last := by
  obtain ⟨hpos, _⟩ := hb.build hbuild
  obtain ⟨labels, cohort, hcohort, htracks, _⟩ :=
    Tracks.run_deeds hrun (tracks_start hpos) (placed_start hb hbuild)
  have hstances := htracks.cohort_of_succeeded hsucceeded
  have hlength : cohort.length = simulation.partitions.length := by
    rw [hstances, List.length_map]
    exact Reaches.length_threads ⟨_, Machine.run_timedOf hrun⟩
  have hended : ∀ s ∈ cohort, ∃ stop p, s = .ended stop p := by
    intro s hs
    rw [hstances] at hs
    obtain ⟨t, ht, rfl⟩ := List.mem_map.mp hs
    obtain ⟨stop, p, rfl⟩ := hsucceeded t ht
    exact ⟨stop, p, rfl⟩
  rw [← hstances]
  rcases told_run hb hbuild hlifecycle hcohort with hbroken | htold
  · obtain ⟨j, e, p, hj⟩ := hbroken
    obtain ⟨_, _, hs⟩ := hended _ (List.mem_of_getElem? hj)
    cases hs
  · exact htold.recorded (hlength ▸ hpos) (hlength ▸ place_lt hrun) hended

/-- In a run that succeeds, all partitions go through each untimed stage in the same phases, in each
of which every untimed handler is called once and in order, until nobody sends anything. Every link
end is wired to another one, and what is sent on one can be read on the other from the next phase of
the same stage on, one after the other. Untimed events are counted where they arrive and where they
are dropped, and never among the events that have a time. -/
theorem untimed_stages (hb : b.Made log) (hbuild : b.build = .ok simulation)
    (hhandlers : ∃ setup ∈ b.setups, setup.participants ≠ [])
    (hrun : (Machine.deeds M).Run simulation.machine schedule deeds machine) {report : RunReport}
    (hreport : machine.outcome? simulation.window = some (.ok report)) :
    InitFirst deeds ∧ report.partitions.length = simulation.partitions.length ∧
    (∀ (f : LinkEnd) (route : Route), routeAt b.tables f = some route →
      ∃ e, Wired b.tables e f) ∧
    ∃ phases : Stage → Nat,
      (∀ stage : Stage,
        stage.Unfolds b.tables simulation.partitions.length (phases stage) deeds) ∧
      (∀ (j : Nat) (setup : PartitionSetup M), b.setups[j]? = some setup →
        Attends setup.participants phases deeds j) ∧
      ∀ (j : Nat) (r : PartitionReport), report.partitions[j]? = some r →
        r.Counts deeds j ∧ r.tally.events = (deliveries (timedOf deeds) j).length ∧
          ∃ left,
            ((deliveries (timedOf deeds) j ++ left).map Activity.payload).Perm
                ((asked log (timedOf deeds) j).map Activity.payload) ∧
              ((∀ entry ∈ timedOf deeds, entry.2.Exact) →
                (deliveries (timedOf deeds) j ++ left).Perm (asked log (timedOf deeds) j)) := by
  have hlifecycle : b.lifecycle = true := by
    obtain ⟨setup, hsetup, hne⟩ := hhandlers
    exact List.any_eq_true.mpr ⟨setup, hsetup, by simp [hne]⟩
  obtain ⟨hsucceeded, rfl⟩ := Machine.outcome?_eq_ok_iff.mp hreport
  have hreaches : simulation.Reaches (timedOf deeds) machine := ⟨_, Machine.run_timedOf hrun⟩
  obtain ⟨rows, last, hrecorded⟩ := recorded hb hbuild hlifecycle hrun hsucceeded
  have hlength : (machine.threads.map Thread.stance).length = simulation.partitions.length := by
    rw [List.length_map]
    exact hreaches.length_threads
  refine ⟨hrecorded.order, ?_, fun f route hf => ?_, fun stage => last stage + 1, fun stage => ?_,
    fun j setup hsetup => ?_, fun j r hr => ?_⟩
  · rw [← hreaches.length_threads]
    exact hsucceeded.length_reports
  · obtain ⟨e, hleads⟩ := hb.leads_of_build hbuild hf
    exact ⟨e, hb.sound.wiring.wired_symm ⟨route, hf, hleads⟩⟩
  · rw [← hlength]
    refine hrecorded.unfolds ?_ hb.sound.wiring stage
    rw [hlength, size_eq hbuild, hb.sound.size]
  · obtain ⟨p, hp, hparticipants, _⟩ := exists_row hbuild hsetup
    rw [← hparticipants]
    refine hrecorded.attends ?_ hp
    rw [hlength, size_eq hbuild]
    exact (List.getElem?_eq_some_iff.mp hsetup).1
  · dsimp only at hr
    obtain ⟨stop, p, ht, rfl⟩ := hsucceeded.exists_of_report hr
    have hj : j < b.setups.length := by
      rw [← size_eq hbuild, ← hreaches.length_threads]
      exact (List.getElem?_eq_some_iff.mp ht).1
    obtain ⟨q, hq, _, htally, hexchanged⟩ := exists_row hbuild (List.getElem?_eq_getElem hj)
    have hstance : (machine.threads.map Thread.stance)[j]? = some (.ended stop p) := by
      rw [List.getElem?_map, ht]
      rfl
    obtain ⟨_, hevents⟩ := conserved_of_succeeded hb hbuild hreaches False.elim hsucceeded ht
    exact ⟨hrecorded.counts hstance hq htally hexchanged, hevents, machine.left (timedOf deeds) j,
      perm_payloads hb hbuild hreaches hsucceeded ht,
      fun hexact => (balance hb hbuild hreaches hexact hsucceeded ht).1⟩

/-- In the handshake the first partition does not read the last word that is for it, and only the
event that has a time is counted as one. -/
theorem untimed_stages_handshake : ∃ schedule deeds machine report,
    (Machine.deeds _).Run Handshake.simulation.machine schedule deeds machine ∧
    machine.outcome? 3 = some (.ok report) ∧
    report.partitions.map (fun r => (r.tally.untimedReceived, r.tally.untimedDropped)) =
      [(4, 1), (2, 0)] ∧
    report.partitions.map (fun r => (r.tally.events, r.exchanged)) = [(1, 1), (1, 0)] ∧
    InitFirst deeds ∧ report.partitions.length = Handshake.simulation.partitions.length ∧
    (∀ (f : LinkEnd) (route : Route), routeAt Handshake.builder.tables f = some route →
      ∃ e, Wired Handshake.builder.tables e f) ∧
    ∃ phases : Stage → Nat,
      (∀ stage : Stage, stage.Unfolds Handshake.builder.tables
        Handshake.simulation.partitions.length (phases stage) deeds) ∧
      (∀ (j : Nat) (setup : PartitionSetup Handshake.model),
        Handshake.builder.setups[j]? = some setup →
          Attends setup.participants phases deeds j) ∧
      ∀ (j : Nat) (r : PartitionReport), report.partitions[j]? = some r →
        r.Counts deeds j ∧ r.tally.events = (deliveries (timedOf deeds) j).length ∧
          ∃ left,
            ((deliveries (timedOf deeds) j ++ left).map Activity.payload).Perm
                ((asked Handshake.log (timedOf deeds) j).map Activity.payload) ∧
              ((∀ entry ∈ timedOf deeds, entry.2.Exact) →
                (deliveries (timedOf deeds) j ++ left).Perm
                  (asked Handshake.log (timedOf deeds) j)) := by
  obtain ⟨schedule, hrun⟩ := Handshake.run_run
  obtain ⟨report, hreport, huntimed, htimed⟩ := Handshake.exists_report
  exact ⟨schedule, _, _, report, hrun, hreport, huntimed, htimed,
    untimed_stages Handshake.made Handshake.build_eq
      ⟨_, List.mem_cons_self .., by decide⟩ hrun hreport⟩

end Simulation

end Lookahead
