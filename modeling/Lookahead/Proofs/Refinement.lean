import Lookahead.Proofs.Determinacy
import Lookahead.Proofs.Options
import Lookahead.Proofs.Overhead
import Lookahead.Proofs.Pursuit
import Lookahead.Proofs.Rollover

/-!
A parallel run refines the sequential one.

If a sequential run comes to an end before the end of time, and no event that is sent to another
partition ties with anything there, every interleaving of the partitions dispatches the same events
and clocks in each of them, whatever the window is (`Simulation.refines_sequential`).
-/

namespace Lookahead

variable {M : Model}

/-- The events and clocks that a partition dispatches in a run, as its handlers see them. -/
def workOf (trace : List (PartitionId × Dispatch M)) (j : PartitionId) : List (Handled M) :=
  ((System.seenOf j trace).filter fun d => d.activity.payload.isWork).map Dispatch.handled

theorem filter_duties (trace : List (PartitionId × Dispatch M)) (j : PartitionId) :
    (duties trace j).filter (fun x => x.activity.payload.isWork) = workOf trace j := by
  unfold duties workOf
  rw [List.filter_map, List.filter_filter]
  congr 1
  refine List.filter_congr fun d _ => ?_
  cases hwork : d.activity.payload.isWork with
  | false =>
    have : d.handled.activity.payload.isWork = false := hwork
    simp [this]
  | true =>
    have : d.handled.activity.payload.isWork = true := hwork
    simp [this, (Activity.isWork_iff.mp hwork).1]

theorem filter_handled (trace : List (PartitionId × Dispatch M)) (j : PartitionId) :
    (System.seenOf j (Sequential.handled trace)).filter (fun x => x.activity.payload.isWork) =
      workOf trace j := by
  rw [Sequential.seenOf_handled, List.filter_map]
  rfl

/-! ## The start -/

namespace Partition

variable {p : Partition M} {n i window : Nat} {stopAt : Option Time}
  {log : List (Planned M.Payload)}

/-- Without meetings, a partition has the same to do at the start. -/
theorem Fresh.duties_start (h : p.Fresh n i window stopAt log) :
    p.start.duties = p.alone.timeline.agenda := by
  have hall : p.timeline.agenda.filter (fun a => !a.isSync) = p.timeline.agenda := by
    rw [List.filter_eq_self]
    intro a ha
    simp [(Activity.isWork_iff.mp (h.timeline.work a ha)).1]
  have hstops : ∀ a ∈ (p.stopAt.toList.map Activity.ofStop).map Activity.unnumbered,
      (!Activity.isSync (a : Scheduled M.Payload)) = true := by
    intro a ha
    obtain ⟨x, hx, rfl⟩ := List.mem_map.mp ha
    obtain ⟨time, _, rfl⟩ := List.mem_map.mp hx
    rfl
  have halone : p.alone.timeline.agenda = Ordered.placeAll Activity.before
      ((p.stopAt.toList.map Activity.ofStop).map Activity.unnumbered) p.timeline.agenda := by
    unfold alone
    rw [start_eq, ← Timeline.agenda_addAll]
    rfl
  unfold duties
  rw [halone, start_eq]
  show (p.timeline.addAll p.appointments).agenda.filter _ = _
  unfold appointments
  rw [Timeline.addAll_append, Timeline.agenda_addAll,
    Ordered.filter_placeAll_of_pos Activity.before_byKey hstops (h.timeline.order.addAll _),
    Timeline.filter_agenda_addAll, hall]
  intro a ha
  split at ha
  · obtain rfl := List.mem_singleton.mp ha
    rfl
  · cases ha

theorem Fresh.tidy (h : p.Fresh n i window stopAt log) : (Solo.live p.alone).Tidy window n i := by
  obtain ⟨profile, hmember⟩ := h.member
  refine ⟨⟨h.id, fun link route peer hroute hdelivery => ?_⟩, ?_, ?_⟩
  · obtain ⟨hlatency, hother, _⟩ := h.crossing link route peer hroute hdelivery
    exact ⟨hlatency, hother⟩
  · show p.alone.timeline.InOrder
    unfold alone
    rw [start_eq]
    exact h.timeline.order.addAll _
  · show p.member.outbound = _
    rw [hmember]
    rfl

end Partition

namespace Simulation

variable {b : Builder M} {log : List (Planned M.Payload)} {simulation simulation' : Simulation M}

theorem tidy_sequential (hb : b.Made log) (hbuild : b.build = .ok simulation) :
    simulation.sequential.Tidy simulation.window := by
  intro k s hs
  unfold sequential at hs ⊢
  rw [List.getElem?_map] at hs
  obtain ⟨p, hp, rfl⟩ := Option.map_eq_some_iff.mp hs
  rw [List.length_map]
  exact ((hb.build hbuild).2.2 k p hp).2.tidy

/-- A sequential run begins with the same lanes whatever the window is. -/
theorem lanes_eq {window : Option Nat} (hbuild : b.build = .ok simulation)
    (hbuild' : (b.withWindow window).build = .ok simulation') :
    simulation'.sequential.lanes = simulation.sequential.lanes := by
  obtain ⟨_, w, _, rfl⟩ := Builder.build_eq_ok hbuild
  obtain ⟨_, w', _, rfl⟩ := Builder.build_eq_ok hbuild'
  funext k
  unfold Sequential.lanes sequential
  rw [List.getElem?_map, List.getElem?_map, List.getElem?_mapIdx, List.getElem?_mapIdx]
  have hsetups : (b.withWindow window).setups = b.setups := rfl
  rw [hsetups]
  cases b.setups[k]? with
  | none => rfl
  | some setup => rfl

theorem follows_start (hb : b.Made log) (hlifecycle : b.lifecycle = false)
    (hbuild : b.build = .ok simulation) {schedule : List PartitionId}
    {rest : List (PartitionId × Handled M)} {final : Lanes M}
    (hrun : (Lanes.system M).Run simulation.sequential.lanes schedule rest final)
    (hinTime : Lanes.InTime rest) (hexact : ∀ entry ∈ rest, entry.2.Exact)
    (hfinite : ∀ entry ∈ rest, entry.2.activity.time < Time.never)
    (hapart : Lanes.Apart rest final) (hended : final.Ended) :
    simulation.cohort.Follows [] (b.setting simulation True) simulation.sequential.lanes rest
      final := by
  have hback : ∀ (j : Nat) (s : Stance M), simulation.cohort[j]? = some s → ∃ p,
      simulation.partitions[j]? = some p ∧ p.lifecycle = false ∧
        p.Fresh simulation.partitions.length j simulation.window b.config.stopAt log ∧
        s = (Thread.start p).stance := by
    intro j s hs
    obtain ⟨p, hp, rfl⟩ := exists_stance_start hs
    obtain ⟨hgone, hfresh⟩ := (hb.build hbuild).2.2 j p hp
    exact ⟨p, hp, hgone.trans hlifecycle, hfresh, rfl⟩
  have hflight : ∀ k, simulation.cohort.flight [] k = [] := by
    intro k
    unfold Cohort.flight
    rw [List.append_eq_nil_iff]
    refine ⟨List.flatMap_eq_nil_iff.mpr fun s hs => ?_, rfl⟩
    obtain ⟨j, hj⟩ := List.mem_iff_getElem?.mp hs
    obtain ⟨p, _, _, hfresh, rfl⟩ := hback j s hj
    exact transit_start hfresh k
  constructor
  case run => exact ⟨schedule, hrun⟩
  case sound => exact (tidy_sequential hb hbuild).sound
  case inTime => exact hinTime
  case safe => trivial
  case exact => exact hexact
  case finite => exact hfinite
  case apart => exact hapart
  case ended => exact hended
  case single =>
    intro k x hx
    rw [hflight] at hx
    cases hx
  case absent =>
    intro k hk
    unfold cohort at hk
    rw [List.getElem?_map, Option.map_eq_none_iff] at hk
    unfold Sequential.lanes sequential
    rw [List.getElem?_map, hk]
    rfl
  case stands =>
    intro k s hs
    obtain ⟨p, hp, hgone, hfresh, rfl⟩ := hback k s hs
    unfold Thread.start
    rw [hgone, if_neg Bool.false_ne_true, hflight]
    refine .running p.start ⟨[], .refl _, ?_⟩
    rw [Ordered.placeAll_nil, hfresh.duties_start]
    unfold Sequential.lanes sequential
    rw [List.getElem?_map, hp]
    rfl

/-! ## Runs -/

theorem follows_run (hb : b.Made log) (hlifecycle : b.lifecycle = false)
    (hbuild : b.build = .ok simulation) {lanes final : Lanes M}
    {rest : List (PartitionId × Handled M)}
    (hstart : simulation.cohort.Follows [] (b.setting simulation True) lanes rest final)
    {labels : List (Option PartitionId)} {trace : List (PartitionId × Dispatch M)}
    {cohort : Cohort M} (hrun : (Cohort.system M).Run simulation.cohort labels trace cohort) :
    (∀ entry ∈ trace, entry.2.Exact) ∧
      ∃ lanes' rest', cohort.Follows trace (b.setting simulation True) lanes' rest' final ∧
        ∀ j, System.seenOf j rest = duties trace j ++ System.seenOf j rest' := by
  induction hrun with
  | refl => exact ⟨by simp, lanes, rest, hstart, fun j => rfl⟩
  | @step labels trace x y label hrun hstep ih =>
    obtain ⟨hexact, lanes', rest', hfollows, hseen⟩ := ih
    obtain ⟨hconforms, m, hagrees⟩ := agrees_exact hb hbuild hrun hexact
    have habandons := abandoned_late hb hbuild hrun hexact
    obtain ⟨hnote, lanes'', rest'', hfollows', hseen'⟩ := hfollows.step hagrees hconforms
      habandons (hb.build hbuild).2.1 hlifecycle hstep
    refine ⟨fun entry hentry => ?_, lanes'', rest'', hfollows', fun j => ?_⟩
    · exact (List.mem_append.mp hentry).elim (hexact entry) (hnote entry)
    · rw [hseen, hseen', duties_append, List.append_assoc]

/-- A run has no more duties than another one that shows all of them. -/
theorem countP_isDuty_le {trace : List (PartitionId × Dispatch M)}
    {rest : List (PartitionId × Handled M)} {n : Nat} (hplaces : ∀ entry ∈ trace, entry.1 < n)
    (hothers : ∀ entry ∈ rest, entry.1 < n)
    (h : ∀ j, duties trace j <+: System.seenOf j rest) : trace.countP isDuty ≤ rest.length := by
  have hseen : ∀ j ∈ List.range n, total (fun _ => 1) (System.seenOf j (trace.filter isDuty)) ≤
      total (fun _ => 1) (System.seenOf j rest) := by
    intro j _
    have hle := (h j).length_le
    have hfilter : System.seenOf j (trace.filter isDuty) =
        (System.seenOf j trace).filter fun d => !d.activity.isSync :=
      System.seenOf_filter (fun d : Dispatch M => !d.activity.isSync) j trace
    rw [← length_eq_total, ← length_eq_total, hfilter]
    rwa [duties, List.length_map] at hle
  rw [List.countP_eq_length_filter, length_eq_total, length_eq_total,
    ← System.total_seenOf (fun _ => 1) hothers, ← System.total_seenOf (fun _ => 1)
      fun entry hentry => hplaces entry (List.mem_of_mem_filter hentry)]
  exact total_mono hseen

/-- Every partition dispatches in any interleaving what it dispatches in a sequential run, in the
same order and with the same results. There is a bound on the steps of all interleavings, and once
one has come to a halt it has dispatched all of that and nothing has failed. The window of
skip-ahead makes no difference. -/
theorem refines_sequential (hb : b.Made log) (hlifecycle : b.lifecycle = false)
    (hbuild : b.build = .ok simulation) {schedule : List PartitionId}
    {seen : List (PartitionId × Dispatch M)} {solos : Sequential M}
    (hsequential : (Sequential.system M).Run simulation.sequential schedule seen solos)
    (hended : solos.Ended) (hexact : ∀ entry ∈ seen, entry.2.Exact)
    (hfinite : ∀ entry ∈ seen, entry.2.activity.time < Time.never)
    (hfree : Sequential.TieFree seen solos) {window : Option Nat} (hwindow : window ≠ some 0)
    (hbuild' : (b.withWindow window).build = .ok simulation') :
    (∃ bound, ∀ (schedule : List PartitionId) (trace : List (PartitionId × Dispatch M))
      (machine : Machine M), (Machine.system M).Run simulation'.machine schedule trace machine →
        schedule.length ≤ bound) ∧
    ∀ (trace : List (PartitionId × Dispatch M)) (machine : Machine M),
      simulation'.Reaches trace machine →
        (∀ j, workOf trace j <+: workOf seen j) ∧
        ((Machine.system M).Halted machine →
          machine.Succeeded ∧ ∀ j, workOf trace j = workOf seen j) := by
  have hb' := hb.withWindow hwindow
  have htidy := tidy_sequential hb hbuild
  have hsafe := Sequential.exact_handled hsequential hexact
  have hlanes := Sequential.lanes_run htidy hsequential hended
  rw [← lanes_eq hbuild hbuild'] at hlanes
  have hhandled : ∀ entry ∈ Sequential.handled seen,
      entry.2.activity.time < Time.never := by
    intro entry hentry
    obtain ⟨original, horiginal, rfl⟩ := List.mem_map.mp hentry
    exact hfinite original horiginal
  have hstart := follows_start hb' hlifecycle hbuild' hlanes
    (Sequential.inTime htidy hsequential hsafe hended) hsafe hhandled hfree.apart hended.lanes
  refine ⟨exists_bound_of_duties hb' hbuild' hlifecycle (Sequential.handled seen).length
    fun labels trace cohort hrun => ?_, fun trace machine h => ?_⟩
  · obtain ⟨_, _, _, _, hseen⟩ := follows_run hb' hlifecycle hbuild' hstart hrun
    exact countP_isDuty_le
      (fun entry hentry => (dispatched_run hb' hbuild' hrun False.elim entry hentry).1)
      (hstart.position_lt (conforms_start hb' hbuild' True))
      fun j => (hseen j) ▸ List.prefix_append ..
  obtain ⟨labels, cohort, hrun, htracks, _⟩ := h.cohort hb' hbuild'
  obtain ⟨hexact', lanes', rest, hfollows, hseen⟩ := follows_run hb' hlifecycle hbuild' hstart hrun
  have hwork : ∀ j, workOf seen j = workOf trace j ++
      (System.seenOf j rest).filter fun x => x.activity.payload.isWork := by
    intro j
    rw [← filter_handled, hseen, List.filter_append, filter_duties]
  refine ⟨fun j => ?_, fun hhalted => ?_⟩
  · rw [hwork]
    exact List.prefix_append ..
  · obtain ⟨_, m, hagrees⟩ := agrees_exact hb' hbuild' hrun hexact'
    have hall := hfollows.ended_of_halted hagrees (htracks.halted hhalted)
    refine ⟨htracks.succeeded_of_ended hall hhalted, fun j => ?_⟩
    rw [hwork, hfollows.seenOf_eq_nil hall, List.filter_nil, List.append_nil]

/-- What is dispatched in a sequential run of a relay with two hops, and where it leads to. -/
def sequentialRelay : List (PartitionId × Dispatch Ring.model) × Sequential Ring.model :=
  (Sequential.system Ring.model).follow (Relay.simulation 1 2 2).sequential [0, 1, 0]

/-- A relay whose hops take two windows dispatches what it does in a sequential run. -/
theorem refines_sequential_relay : ∃ schedule seen solos trace machine,
    (Sequential.system Ring.model).Run (Relay.simulation 1 2 2).sequential schedule seen solos ∧
    solos.Ended ∧ (∀ entry ∈ seen, entry.2.activity.time < Time.never) ∧
    Sequential.TieFree seen solos ∧ (workOf seen 0).length = 2 ∧ (workOf seen 1).length = 1 ∧
    (Relay.simulation 1 2 1).Reaches trace machine ∧ (Machine.system Ring.model).Halted machine ∧
    (∀ j, workOf trace j <+: workOf seen j) ∧
    machine.Succeeded ∧ (∀ j, workOf trace j = workOf seen j) ∧
    ∃ bound, ∀ schedule trace machine, (Machine.system Ring.model).Run
      (Relay.simulation 1 2 1).machine schedule trace machine → schedule.length ≤ bound := by
  obtain ⟨schedule, hsequential⟩ : ∃ schedule, (Sequential.system Ring.model).Run
      (Relay.simulation 1 2 2).sequential schedule sequentialRelay.1 sequentialRelay.2 :=
    System.run_follow _ _ _
  have hended : sequentialRelay.2.Ended := by decide +kernel
  have hfinite : ∀ entry ∈ sequentialRelay.1, entry.2.activity.time < Time.never := by
    decide +kernel
  have hexact : ∀ entry ∈ sequentialRelay.1, entry.2.Exact := fun entry _ =>
    Dispatch.exact_of_panics rfl entry.2
  have hfree : Sequential.TieFree sequentialRelay.1 sequentialRelay.2 := by decide +kernel
  have hbuild' : ((Relay.builder 1 2).withWindow (some 1)).build =
      .ok (Relay.simulation 1 2 1) := Relay.build_withWindow 1 2 (by decide)
  have h := Relay.reaches_run (Relay.simulation 1 2 1) (Relay.turns 0)
  obtain ⟨_, hreport⟩ : ∃ report,
      (Relay.run (Relay.simulation 1 2 1) (Relay.turns 0)).2.outcome? 1 = some (.ok report) :=
    ⟨_, rfl⟩
  have hhalted := (Machine.outcome?_eq_ok_iff.mp hreport).1.halted
  obtain ⟨hbound, hrefines⟩ := refines_sequential (Relay.made 1 2) rfl (Relay.build_eq 1 2)
    hsequential hended hexact hfinite hfree (by decide) hbuild'
  obtain ⟨hfront, hall⟩ := hrefines _ _ h
  obtain ⟨hsucceeded, hsame⟩ := hall hhalted
  exact ⟨schedule, _, _, _, _, hsequential, hended, hfinite, hfree, by decide +kernel,
    by decide +kernel, h, hhalted, hfront, hsucceeded, hsame, hbound⟩

def sequentialRollover :
    List (PartitionId × Dispatch (Rollover.model .wraps)) × Sequential (Rollover.model .wraps) :=
  (Sequential.system (Rollover.model .wraps)).follow (Rollover.simulation .wraps).sequential
    [0, 0, 1, 1]

/-- If a clock wraps around, what its handler sends for the instant 12 is delivered then in a
sequential run, but in the second half of time if the partitions have to meet first. -/
theorem differs_rollover : ∃ schedule seen solos trace machine,
    (Rollover.builder .wraps).Made Rollover.log ∧
    (Rollover.builder .wraps).build = .ok (Rollover.simulation .wraps) ∧
    (Sequential.system (Rollover.model .wraps)).Run (Rollover.simulation .wraps).sequential
      schedule seen solos ∧
    solos.Ended ∧ (∀ entry ∈ seen, entry.2.activity.time < Time.never) ∧
    Sequential.TieFree seen solos ∧
    (Rollover.simulation .wraps).Reaches trace machine ∧ machine.Succeeded ∧
    (workOf seen 1).map (fun x => x.activity.time.ticks) = [12, 9223372036854775823] ∧
    (workOf trace 1).map (fun x => x.activity.time.ticks) =
      [9223372036854775823, 9223372036854775823] := by
  obtain ⟨schedule, hsequential⟩ : ∃ schedule, (Sequential.system (Rollover.model .wraps)).Run
      (Rollover.simulation .wraps).sequential schedule sequentialRollover.1
        sequentialRollover.2 := System.run_follow _ _ _
  have h := Rollover.reaches_run (Rollover.simulation .wraps) Rollover.turns
  obtain ⟨_, hreport⟩ : ∃ report, (Rollover.run (Rollover.simulation .wraps)
      Rollover.turns).2.outcome? 10 = some (.ok report) := ⟨_, rfl⟩
  exact ⟨schedule, _, _, _, _, Rollover.made _, Rollover.build_eq _, hsequential,
    by decide +kernel, by decide +kernel, by decide +kernel, h,
    (Machine.outcome?_eq_ok_iff.mp hreport).1, by decide +kernel, by decide +kernel⟩

end Simulation

end Lookahead
