import Lookahead.Proofs.Attendance
import Lookahead.Proofs.Relay
import Lookahead.Proofs.Truncation

/-!
Where a run stops that was given a stop.

A partition that has left the timed run dispatched the stop last, and left nothing behind that was
due before it (`Cohort.Stopped.step`). It can leave in no other way: as long as the stop is on the
agendas nobody runs out of activities and no meeting finds that there is nothing left to do. And
what happened before the stop is what happens without it, or with a later one
(`Simulation.stop_truncates`).
-/

namespace Lookahead

variable {M : Model}

/-! ## Stops -/

/-- It is the stop that has come due, and nothing is left behind that is due before it. -/
structure Dispatch.Stops (d : Dispatch M) (stop : Time) : Prop where
  payload : d.activity.payload = .stop
  time : d.activity.time = stop
  agenda : ∀ a ∈ d.partition.timeline.agenda, stop ≤ a.time
  outbound : ∀ box ∈ d.partition.member.outbound, ∀ a ∈ box.activities, stop ≤ a.time

namespace Partition

variable {p : Partition M} {S : Setting} {least stop : Time} {d : Dispatch M} {i : Nat}

/-- The stop is on the agenda until it comes due. -/
theorem OnTime.stop_mem (h : p.OnTime S least) (hat : S.stopAt = some stop) :
    (.ofStop stop : Scheduled M.Payload) ∈ p.timeline.agenda := by
  have hmem : (.ofStop stop : Scheduled M.Payload) ∈
      p.timeline.agenda.filter Activity.isStop := by
    rw [h.stops, hat]
    exact List.mem_cons_self ..
  exact (List.mem_filter.mp hmem).1

/-- Nothing is dispatched after the stop. -/
theorem OnTime.time_le_stop (h : p.OnTime S least) (hat : S.stopAt = some stop)
    (hnext : p.next? = some d) : d.activity.time ≤ stop := by
  have hagenda := (agenda_of_next? hnext).1
  have hmem := h.stop_mem hat
  rw [hagenda] at hmem
  rcases List.mem_cons.mp hmem with heq | hmem
  · rw [← Activity.time_unnumbered d.activity, ← heq]
    exact Time.le_refl _
  · exact Activity.time_le_of_not_before (h.order.head_not_after hagenda _ hmem)

/-- A partition that is alone has nobody to send anything to. -/
theorem Buffers.le_of_leaves {bound : Time} (h : p.Buffers S.exact (least.after S.window))
    (hsafe : S.exact) (hconforms : p.Conforms S i) (hi : i < S.partitions)
    (hat : S.stopAt = some bound) (hleaves : S.Leaves least) :
    ∀ box ∈ p.member.outbound, ∀ a ∈ box.activities, bound ≤ a.time := by
  intro box hbox a ha
  obtain ⟨j, hj⟩ := List.mem_iff_getElem?.mp hbox
  obtain ⟨hother, hdue, _⟩ := h j box hj a ha
  rcases hleaves with halone | ⟨time, htime, hle⟩
  · have hlt := (List.getElem?_eq_some_iff.mp hj).1
    rw [hconforms.outboxes] at hlt
    rw [hconforms.id] at hother
    omega
  · obtain rfl := Option.some.inj (hat.symm.trans htime)
    exact Time.le_trans hle (hdue hsafe)

/-- When the stop comes due, nothing is left to do before it. -/
theorem OnTime.stops_at (h : p.OnTime S least) (hbuffers : p.Buffers S.exact (least.after S.window))
    (hsafe : S.exact) (hconforms : p.Conforms S i) (hi : i < S.partitions)
    (hat : S.stopAt = some stop) (hnext : p.next? = some d) (hstop : d.activity.payload = .stop) :
    d.Stops stop := by
  obtain ⟨hleaves, _, time, htime, hrest⟩ := h.leaves_of_stop hnext hstop
  obtain rfl := Option.some.inj (hat.symm.trans htime)
  refine ⟨hstop, ?_, hrest, ?_⟩
  · exact (Option.some.inj (hat.symm.trans (h.stop_eq hnext hstop).1)).symm
  · rw [member_next? hnext]
    exact hbuffers.le_of_leaves hsafe hconforms hi hat hleaves

end Partition

/-! ## Partitions that have stopped -/

/-- If the partition has left the timed run, it dispatched its stop last. -/
def Stance.Stopped (s : Stance M) (stop : Time) (seen : List (Dispatch M)) : Prop :=
  ∀ reason time, s.exit? = some (reason, time) →
    reason = .stopAt ∧ time = stop ∧ ∃ front d, seen = front ++ [d] ∧ d.Stops stop

namespace Stance.Stopped

variable {s : Stance M} {p : Partition M} {S : Setting} {m : Moment} {work : Work} {i : Nat}
  {stop : Time} {seen : List (Dispatch M)}

theorem of_exit (h : s.exit? = none) : s.Stopped stop seen := by
  intro reason time hexit
  rw [h] at hexit
  cases hexit

theorem runPhase (h : (Stance.running work p).Stopped stop seen) (hwork : work ≠ .timed)
    (stage : Stage) (phase : Nat) :
    (Thread.runPhase work stage phase p).stance.Stopped stop seen := by
  have hphases := Thread.phases_runPhase work stage phase p
  generalize Thread.runPhase work stage phase p = t at hphases
  cases hphases with
  | failed e q hphased => exact of_exit rfl
  | ready own q hphased =>
    cases work with
    | init phase => exact of_exit rfl
    | timed => exact absurd rfl hwork
    | complete phase reason =>
      have hexit : (Thread.beginRound (.complete phase reason) q (.untimed own)).stance.exit? =
          (Stance.running (.complete phase reason) p).exit? := by
        show some (reason, q.timeline.now) = some (reason, p.timeline.now)
        rw [Partition.timeline_phased hphased]
      intro reason' time hexit'
      exact h reason' time (hexit ▸ hexit')

/-- A partition leaves the timed run by its stop. -/
theorem workOn (h : (Stance.running work p).Stopped stop seen)
    (hfits : Fits S m (.running work p)) (hsafe : S.exact) (hconforms : p.Conforms S i)
    (hi : i < S.partitions) (hat : S.stopAt = some stop) :
    (Thread.workOn work p).stance.Stopped stop (seen ++ (work.dispatch? p).toList) := by
  cases work with
  | init phase =>
    show (Thread.runPhase ..).stance.Stopped stop (seen ++ [])
    rw [List.append_nil]
    exact h.runPhase (by simp) .init phase
  | complete phase reason =>
    show (Thread.runPhase ..).stance.Stopped stop (seen ++ [])
    rw [List.append_nil]
    exact h.runPhase (by simp) .complete phase
  | timed =>
    cases hfits with
    | running least p hontime hbuffers =>
      have hworks := Thread.works_workOn p
      generalize Thread.workOn .timed p = t at hworks
      cases hworks with
      | idle hnext =>
        have hmem := hontime.stop_mem hat
        rw [Partition.next?_eq_none_iff.mp hnext] at hmem
        cases hmem
      | work d e hnext => exact of_exit rfl
      | failed d e err hnext => exact of_exit rfl
      | sync d hnext => exact of_exit rfl
      | stop d hnext hstop =>
        have hstops := hontime.stops_at hbuffers hsafe hconforms hi hat hnext hstop
        intro reason time hexit
        rw [Thread.exit?_finishTimed, (Partition.agenda_of_next? hnext).2.1] at hexit
        cases hexit
        refine ⟨rfl, hstops.time, seen, d, ?_, hstops⟩
        show seen ++ p.next?.toList = _
        rw [hnext]
        rfl

end Stance.Stopped

theorem Cohort.Agrees.least_le_stop {parties : List (Party M)} {S : Setting} {m : Moment}
    {least stop : Time} (h : Agrees (parties.map Stance.ready) S m) (hne : parties ≠ [])
    (hmeets : ∀ q ∈ parties, ∃ p, q = ⟨.timed, p, .epoch⟩ ∧ p.Meets S least)
    (hat : S.stopAt = some stop) : Party.least parties ≤ stop := by
  obtain ⟨first, hfirst⟩ := List.exists_mem_of_ne_nil parties hne
  obtain ⟨j, hj⟩ := List.mem_iff_getElem?.mp hfirst
  have hall := h.meeting hmeets
  obtain ⟨_, hkind, hp, _⟩ := hall first hfirst
  have htaken := hp.taken hkind (Party.mem_incoming (fun r hr => (hall r hr).2) j)
  have hmem : (.ofStop stop : Scheduled M.Payload) ∈
      (first.taken (Party.incoming parties j)).timeline.agenda.filter Activity.isStop := by
    rw [htaken.stops, hat]
    exact List.mem_cons_self ..
  refine Time.le_trans (Party.least_le_minimum hj) ?_
  rw [Party.minimum_epoch hkind]
  exact htaken.order.nextTime_le _ (List.mem_filter.mp hmem).1

def Cohort.Stopped (cohort : Cohort M) (stop : Time) (trace : List (PartitionId × Dispatch M)) :
    Prop :=
  ∀ (j : Nat) (s : Stance M), cohort[j]? = some s → s.Stopped stop (System.seenOf j trace)

namespace Cohort.Stopped

variable {cohort next : Cohort M} {parties : List (Party M)} {S : Setting} {m : Moment}
  {stop : Time} {trace : List (PartitionId × Dispatch M)}

/-- Nobody leaves at a meeting, and whoever has left remains as it was. -/
theorem exchange (h : Cohort.Stopped (parties.map Stance.ready) stop trace) (hne : parties ≠ [])
    (hagrees : Agrees (parties.map Stance.ready) S m)
    (hconforms : Conforms (parties.map Stance.ready) S) (hat : S.stopAt = some stop)
    (hfinite : stop < Time.never) : Cohort.Stopped (exchanged parties) stop trace := by
  intro j s hs
  obtain ⟨q, hq, rfl⟩ := getElem?_exchanged hs
  cases hagrees.convened hne with
  | init phase hall =>
    obtain ⟨p, own, rfl⟩ := hall q (List.mem_of_getElem? hq)
    obtain ⟨q', hstance, _⟩ := Departs.stance_conclude_untimed (.init phase) p own
      (Party.incoming parties j) (Party.least parties)
    rw [hstance]
    dsimp only
    split <;> exact .of_exit rfl
  | meeting least hstays hall =>
    have hle := hagrees.least_le_stop hne hall hat
    have hnever := Time.ne_never_of_lt (Time.lt_of_le_of_lt hle hfinite)
    obtain ⟨p, rfl, _⟩ := hall q (List.mem_of_getElem? hq)
    obtain ⟨q', hstance, _⟩ := Party.conclude_resumed (Agrees.conforms_party hconforms hq)
      (Party.incoming parties j) hnever
    rw [hstance]
    exact .of_exit rfl
  | complete phase hall =>
    obtain ⟨reason, p, own, rfl⟩ := hall q (List.mem_of_getElem? hq)
    obtain ⟨q', hstance, htimeline⟩ := Departs.stance_conclude_untimed (.complete phase reason) p
      own (Party.incoming parties j) (Party.least parties)
    have hbefore := h j _ (Cohort.getElem?_ready hq)
    rw [hstance]
    intro reason' time hexit
    refine hbefore reason' time ?_
    rw [← hexit]
    dsimp only
    split <;> exact congrArg (fun timeline => some (reason, timeline.now)) htimeline.symm

theorem step (h : cohort.Stopped stop trace) (hagrees : cohort.Agrees S m)
    (hsafe : S.exact) (hconforms : cohort.Conforms S) (hat : S.stopAt = some stop)
    (hfinite : stop < Time.never)
    {label : Option PartitionId} (hstep : cohort.step? label = some next) :
    next.Stopped stop (trace ++ (system M).note cohort label) := by
  cases label with
  | none =>
    obtain ⟨parties, hne, rfl, rfl⟩ := exchange?_eq_some_iff.mp hstep
    rw [show (system M).note (parties.map Stance.ready) none = [] from rfl, List.append_nil]
    exact h.exchange hne hagrees hconforms hat hfinite
  | some i =>
    obtain ⟨work, p, hi, rfl⟩ := step?_some_iff.mp hstep
    rw [note_of_running hi]
    have hlt := (List.getElem?_eq_some_iff.mp hi).1
    exact forall_seen_set h <| (h i _ hi).workOn (hagrees i _ hi) hsafe (hconforms.each i _ hi)
      (hconforms.length ▸ hlt) hat

end Cohort.Stopped

/-! ## Runs -/

theorem workBefore_prefix {time : Time} {trace other : List (PartitionId × Dispatch M)}
    {j : PartitionId} (h : System.seenOf j trace <+: System.seenOf j other) :
    workBefore time trace j <+: workBefore time other j := by
  obtain ⟨rest, hrest⟩ := h
  rw [workBefore_eq, workBefore_eq, ← hrest, handledBefore_append]
  exact List.prefix_append ..

namespace Simulation

variable {b b' : Builder M} {log : List (Planned M.Payload)}
  {simulation simulation' : Simulation M} {stop time : Time}
  {trace other : List (PartitionId × Dispatch M)} {machine final : Machine M}

/-- Wherever a run of the partitions gets to, those that have left did so by their stop. -/
theorem stopped_run (hb : b.Made log) (hbuild : b.build = .ok simulation)
    (hat : b.config.stopAt = some stop) (hfinite : stop < Time.never)
    {labels : List (Option PartitionId)} {cohort : Cohort M}
    (hrun : (Cohort.system M).Run simulation.cohort labels trace cohort)
    (hexact : ∀ entry ∈ trace, entry.2.Exact) : cohort.Stopped stop trace := by
  induction hrun with
  | refl =>
    intro j s hs
    obtain ⟨p, _, rfl⟩ := exists_stance_start hs
    refine .of_exit ?_
    unfold Thread.start
    cases p.lifecycle <;> rfl
  | @step labels trace x y label hrun hstep ih =>
    have hfirst := fun entry hentry => hexact entry (List.mem_append_left _ hentry)
    obtain ⟨hconforms, m, hagrees⟩ := agrees_exact hb hbuild hrun hfirst
    exact (ih hfirst).step hagrees trivial hconforms hat hfinite hstep

/-- Every partition of a run that succeeds has come to its stop, and to nothing later. -/
theorem stops_of_report (hb : b.Made log) (hbuild : b.build = .ok simulation)
    (hat : b.config.stopAt = some stop) (hfinite : stop < Time.never)
    (h : simulation.Reaches trace machine) (hexact : ∀ entry ∈ trace, entry.2.Exact)
    {report : RunReport} (hreport : machine.outcome? simulation.window = some (.ok report)) :
    report.partitions.length = simulation.partitions.length ∧
    (∀ entry ∈ trace, entry.2.activity.time ≤ stop) ∧
    ∀ (j : Nat) (r : PartitionReport), report.partitions[j]? = some r →
      r.stop = .stopAt ∧ r.finalTime = stop ∧
      ∃ front d, System.seenOf j trace = front ++ [d] ∧ d.Stops stop := by
  obtain ⟨hsucceeded, rfl⟩ := Machine.outcome?_eq_ok_iff.mp hreport
  obtain ⟨labels, cohort, hrun, htracks, _⟩ := h.cohort hb hbuild
  refine ⟨hsucceeded.length_reports.trans h.length_threads, ?_, ?_⟩
  · intro entry hentry
    obtain ⟨_, p, least, hnext, _, hontime, _⟩ := dispatched_run hb hbuild hrun False.elim entry
      hentry
    exact hontime.time_le_stop hat hnext
  · intro j r hr
    obtain ⟨reason, p, ht, rfl⟩ := hsucceeded.exists_of_report hr
    have hs : cohort[j]? = some (.ended reason p) := by
      rw [htracks.cohort_of_succeeded hsucceeded, List.getElem?_map, ht]
      rfl
    exact stopped_run hb hbuild hat hfinite hrun hexact j _ hs reason _ rfl

/-- Every run with one stop in which no clock overflows is matched by a run with the other one. -/
theorem exists_match_reaches (hb : b.Made log) (hbuild : b.build = .ok simulation)
    (hb' : b'.Made log) (hbuild' : b'.build = .ok simulation')
    (hstart : Cohort.Matches time simulation.cohort simulation'.cohort)
    (hlasts : (b.setting simulation True).Lasts time)
    (hlasts' : (b'.setting simulation' True).Lasts time)
    (h : simulation.Reaches trace machine) (hexact : ∀ entry ∈ trace, entry.2.Exact) :
    ∃ other final, simulation'.Reaches other final ∧
      ∀ j, workBefore time trace j = workBefore time other j := by
  obtain ⟨labels, cohort, hrun, _⟩ := h.cohort hb hbuild
  obtain ⟨labels', other, cohort', hrun', _, _, hsame⟩ :=
    exists_match hb hbuild hb' hbuild' hstart hlasts hlasts' hrun hexact
  obtain ⟨final, hreaches, _⟩ := exists_reaches hb' hbuild' hrun'
  exact ⟨other, final, hreaches, hsame⟩

/-- A stop only truncates. Whatever is dispatched before it in a run with this stop is dispatched
in some run with a later stop or with none, and the other way round. In any two such runs one of
them has dispatched the beginning of what the other one has, all of it if it has come to a halt, and
the same if both have. A run with this stop that succeeds dispatches nothing later, and every
partition of it comes to the stop and has nothing left to do before. All of this as long as no clock
overflows unnoticed. -/
theorem stop_truncates (hb : b.Made log) {later : Option Time} (hpos : stop ≠ Time.zero)
    (hlater : ∀ time, later = some time → stop < time)
    (hbuild : (b.withStop (some stop)).build = .ok simulation)
    (hbuild' : (b.withStop later).build = .ok simulation')
    (h : simulation.Reaches trace machine) (h' : simulation'.Reaches other final)
    (hexact : ∀ entry ∈ trace, entry.2.Exact) (hexact' : ∀ entry ∈ other, entry.2.Exact) :
    (∃ trace' machine', simulation.Reaches trace' machine' ∧
      ∀ j, workBefore stop trace' j = workBefore stop other j) ∧
    (∃ other' final', simulation'.Reaches other' final' ∧
      ∀ j, workBefore stop trace j = workBefore stop other' j) ∧
    (∀ j, workBefore stop trace j <+: workBefore stop other j ∨
      workBefore stop other j <+: workBefore stop trace j) ∧
    ((Machine.system M).Halted machine →
      ∀ j, workBefore stop other j <+: workBefore stop trace j) ∧
    ((Machine.system M).Halted final →
      ∀ j, workBefore stop trace j <+: workBefore stop other j) ∧
    ((Machine.system M).Halted machine → (Machine.system M).Halted final →
      ∀ j, workBefore stop trace j = workBefore stop other j) ∧
    (stop < Time.never → ∀ report, machine.outcome? simulation.window = some (.ok report) →
      report.partitions.length = simulation.partitions.length ∧
      (∀ entry ∈ trace, entry.2.activity.time ≤ stop) ∧
      ∀ (j : Nat) (r : PartitionReport), report.partitions[j]? = some r →
        r.stop = .stopAt ∧ r.finalTime = stop ∧
        ∃ front d, System.seenOf j trace = front ++ [d] ∧ d.Stops stop) := by
  have hmade : (b.withStop (some stop)).Made log := hb.withStop (by simpa using hpos)
  have hmade' : (b.withStop later).Made log := by
    refine hb.withStop fun hzero => ?_
    exact Nat.not_lt_zero _ (hlater _ hzero)
  have hlasts : ((b.withStop (some stop)).setting simulation True).Lasts stop := by
    intro time htime
    cases htime
    exact Time.le_refl _
  have hlasts' : ((b.withStop later).setting simulation' True).Lasts stop :=
    fun time htime => Nat.le_of_lt (hlater time htime)
  obtain rfl : simulation.withStop later = simulation' :=
    Except.ok.inj ((Builder.build_withStop hbuild later).symm.trans hbuild')
  have hstart := matches_start hmade hbuild later stop
  obtain ⟨other', final', hreaches', hsame⟩ :=
    exists_match_reaches hmade hbuild hmade' hbuild' hstart hlasts hlasts' h hexact
  obtain ⟨trace', machine', hreaches, hsame'⟩ :=
    exists_match_reaches hmade' hbuild' hmade hbuild hstart.symm hlasts' hlasts h' hexact'
  have hhalts : (Machine.system M).Halted machine →
      ∀ j, workBefore stop other j <+: workBefore stop trace j := by
    intro hhalted j
    rw [hsame' j]
    exact workBefore_prefix (seenOf_prefix_of_halted hmade hbuild h hreaches hhalted j)
  have hhalts' : (Machine.system M).Halted final →
      ∀ j, workBefore stop trace j <+: workBefore stop other j := by
    intro hhalted j
    rw [hsame j]
    exact workBefore_prefix (seenOf_prefix_of_halted hmade' hbuild' h' hreaches' hhalted j)
  refine ⟨⟨trace', machine', hreaches, fun j => (hsame' j).symm⟩,
    ⟨other', final', hreaches', hsame⟩, fun j => ?_, hhalts, hhalts', ?_, ?_⟩
  · rw [hsame j]
    exact (seenOf_comparable hmade' hbuild' hreaches' h' j).imp workBefore_prefix workBefore_prefix
  · intro hhalted hhalted' j
    exact (hhalts' hhalted' j).eq_of_length_le (hhalts hhalted j).length_le
  · intro hfinite report hreport
    exact stops_of_report hmade hbuild rfl hfinite h hexact hreport

/-- A relay of three dispatches that stops after two of them. -/
theorem stop_truncates_relay : ∃ trace machine other final report,
    ((Relay.simulation 1 2 2).withStop (some (Time.ofNat 3))).Reaches trace machine ∧
    ((Relay.simulation 1 2 2).withStop none).Reaches other final ∧
    (Machine.system Ring.model).Halted machine ∧ (Machine.system Ring.model).Halted final ∧
    (workOf other 0).length = 2 ∧ (workOf trace 0).length = 1 ∧ (workOf trace 1).length = 1 ∧
    (∀ j, workBefore (Time.ofNat 3) trace j = workBefore (Time.ofNat 3) other j) ∧
    machine.outcome? 2 = some (.ok report) ∧ report.partitions.length = 2 ∧
    ∀ (j : Nat) (r : PartitionReport), report.partitions[j]? = some r →
      r.stop = .stopAt ∧ r.finalTime = Time.ofNat 3 := by
  have h := Relay.reaches_run ((Relay.simulation 1 2 2).withStop (some (Time.ofNat 3)))
    (Relay.turns 0)
  have h' := Relay.reaches_run ((Relay.simulation 1 2 2).withStop none) (Relay.turns 0)
  obtain ⟨report, hreport⟩ : ∃ report,
      (Relay.run ((Relay.simulation 1 2 2).withStop (some (Time.ofNat 3)))
        (Relay.turns 0)).2.outcome? 2 = some (.ok report) := ⟨_, rfl⟩
  obtain ⟨_, hreport'⟩ : ∃ report,
      (Relay.run ((Relay.simulation 1 2 2).withStop none) (Relay.turns 0)).2.outcome? 2 =
        some (.ok report) := ⟨_, rfl⟩
  have hhalted := (Machine.outcome?_eq_ok_iff.mp hreport).1.halted
  have hhalted' := (Machine.outcome?_eq_ok_iff.mp hreport').1.halted
  have hnone : ∀ time, (none : Option Time) = some time → Time.ofNat 3 < time :=
    fun time htime => by cases htime
  obtain ⟨_, _, _, _, _, hsame, hstops⟩ := stop_truncates (Relay.made 1 2) (by decide) hnone
    (Builder.build_withStop (Relay.build_eq 1 2) _)
    (Builder.build_withStop (Relay.build_eq 1 2) _) h h'
    (fun _ _ => Dispatch.exact_of_panics rfl _) (fun _ _ => Dispatch.exact_of_panics rfl _)
  obtain ⟨hlength, _, hends⟩ := hstops (by decide) report hreport
  refine ⟨_, _, _, _, report, h, h', hhalted, hhalted', by decide +kernel, by decide +kernel,
    by decide +kernel, hsame hhalted hhalted', hreport, hlength, fun j r hr => ?_⟩
  obtain ⟨hreason, htime, _⟩ := hends j r hr
  exact ⟨hreason, htime⟩

/-- If a clock wraps around, a partition can stop in the second half of time and leave behind what
is due at the instant 12. -/
theorem stops_early_rollover : ∃ trace machine report,
    (Rollover.builder .wraps).Made Rollover.log ∧
    ((Rollover.builder .wraps).withStop (some (Time.ofNat 9223372036854775818))).build =
      .ok ((Rollover.simulation .wraps).withStop (some (Time.ofNat 9223372036854775818))) ∧
    ((Rollover.simulation .wraps).withStop
      (some (Time.ofNat 9223372036854775818))).Reaches trace machine ∧
    machine.outcome? 10 = some (.ok report) ∧
    report.partitions.map (fun r => (r.stop, r.finalTime.ticks)) =
      [(.stopAt, 9223372036854775818), (.stopAt, 9223372036854775818)] ∧
    ∃ d ∈ System.seenOf 0 trace, d.activity.isStop = true ∧
      ∃ box ∈ d.partition.member.outbound, ∃ a ∈ box.activities, a.time = Time.ofNat 12 := by
  have h := Rollover.reaches_run ((Rollover.simulation .wraps).withStop
    (some (Time.ofNat 9223372036854775818))) Rollover.turns
  obtain ⟨report, hreport, hstops⟩ : ∃ report, (Rollover.run ((Rollover.simulation .wraps).withStop
      (some (Time.ofNat 9223372036854775818))) Rollover.turns).2.outcome? 10 = some (.ok report) ∧
      report.partitions.map (fun r => (r.stop, r.finalTime.ticks)) =
        [(.stopAt, 9223372036854775818), (.stopAt, 9223372036854775818)] := ⟨_, rfl, rfl⟩
  exact ⟨_, _, report, Rollover.made _, Builder.build_withStop (Rollover.build_eq _) _, h, hreport,
    hstops, by decide +kernel⟩

end Simulation

end Lookahead
