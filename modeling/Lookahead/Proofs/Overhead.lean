import Lookahead.Proofs.Termination

/-!
What a run costs apart from what it dispatches.

Without untimed handlers a partition has only two steps to make before it comes to a meeting or
leaves the run, unless it dispatches an event, a clock or a stop. Every meeting that does not end
the run brings the next one nearer to the end of time. So all steps of a run but a fixed number of
them are dispatches (`Simulation.length_labels_le`), and a run can only go on for as long as there
is something to dispatch.
-/

namespace Lookahead

variable {M : Model}

def isDuty (entry : PartitionId × Dispatch M) : Bool := !entry.2.activity.isSync

/-- The steps that a partition can make before the next meeting without any duty. -/
def Stance.spare : Stance M → Nat
  | .running .. => 2
  | .ready _ => 1
  | _ => 0

/-- The steps that are left without any duty. A meeting gives everyone back what it has spent, and
is paid for by the way that is left to the end of time. -/
def Cohort.overhead (cohort : Cohort M) : Nat :=
  total Stance.spare cohort + (cohort.length + 1) * Cohort.ahead Time.never cohort

theorem Stance.spare_le (s : Stance M) : s.spare ≤ 2 := by
  cases s <;> simp [spare]

namespace Cohort

variable {cohort next : Cohort M} {S : Setting} {m : Moment}

/-- Work is either a duty or uses up what a partition has to spare. -/
theorem spare_workOn (i : PartitionId) {p : Partition M} (hlifecycle : p.lifecycle = false) :
    (Thread.workOn .timed p).stance.spare + 1 ≤ 2 + (noteAt i p.next?).countP isDuty := by
  have hworks := Thread.works_workOn p
  generalize Thread.workOn .timed p = t at hworks
  cases hworks with
  | idle hnext =>
    rw [Thread.stance_finishTimed _ hlifecycle]
    exact Nat.le_add_right_of_le (Nat.le_succ 1)
  | stop d hnext =>
    rw [Thread.stance_finishTimed _ ((Partition.Like.next? hnext).lifecycle.trans hlifecycle)]
    exact Nat.le_add_right_of_le (Nat.le_succ 1)
  | failed d e err hnext => exact Nat.le_add_right_of_le (Nat.le_succ 1)
  | sync d hnext => exact Nat.le_add_right 2 _
  | work d e hnext hwork =>
    have hduty : isDuty (i, d) = true := by
      simp [isDuty, (Activity.isWork_iff.mp hwork).1]
    have hnote : (noteAt i (some d)).countP isDuty = 1 := by
      simp [noteAt, hduty]
    rw [hnext, hnote]
    exact Nat.le_refl 3

/-- Whoever goes on has one step less to spare, or does a duty. -/
theorem overhead_workOn {i : PartitionId} {p : Partition M}
    (hi : cohort[i]? = some (.running .timed p)) (hlifecycle : p.lifecycle = false) :
    overhead (cohort.set i (Thread.workOn .timed p).stance) + 1 ≤
      overhead cohort + (noteAt i p.next?).countP isDuty := by
  have hset := total_set_add Stance.spare hi (Thread.workOn .timed p).stance
  have hwork := spare_workOn i hlifecycle
  unfold overhead
  rw [ahead_workOn hi Time.never, List.length_set]
  change _ + 2 = _ at hset
  omega

/-- A meeting is one step nearer to the end of all meetings. -/
theorem overhead_exchanged {parties : List (Party M)} (hne : parties ≠ [])
    (hwindow : 1 ≤ S.window) (hlifecycle : S.lifecycle = false)
    (hplain : ∀ q ∈ parties, (Stance.ready q).Plain)
    (hagrees : Cohort.Agrees (parties.map Stance.ready) S m)
    (hconforms : Cohort.Conforms (parties.map Stance.ready) S) :
    overhead (exchanged parties) + 1 ≤ overhead (parties.map Stance.ready) := by
  obtain ⟨least, hmeets⟩ := exists_meeting hne hplain hagrees
  have hlength : (exchanged parties).length = (parties.map Stance.ready).length := by
    rw [length_exchanged, List.length_map]
  have hready : total Stance.spare (parties.map Stance.ready) =
      (parties.map Stance.ready).length := by
    rw [total_map, List.length_map]
    exact (length_eq_total parties).symm
  unfold overhead
  rw [hlength, hready]
  by_cases hnever : Party.least parties = Time.never
  · have hleft : total Stance.spare (exchanged parties) = 0 := by
      rw [total_congr fun s hs => ?_, total_zero]
      obtain ⟨j, hj⟩ := List.mem_iff_getElem?.mp hs
      obtain ⟨q, hq, rfl⟩ := getElem?_exchanged hj
      obtain ⟨hwork, hkind, _⟩ := hmeets q (List.mem_of_getElem? hq)
      rcases Party.conclude_plain hwork hkind
        ((Agrees.conforms_party hconforms hq).lifecycle.trans hlifecycle) with
        ⟨_, hnot⟩ | ⟨⟨p, hp⟩, _⟩
      · exact absurd hnever hnot
      · rw [hp]
        rfl
    have hsome := List.length_pos_iff.mpr hne
    rw [ahead_drained (fun q hq => (hmeets q hq).2.1) hnever, hleft, List.length_map]
    omega
  · have hahead := ahead_exchanged hne hwindow (fun q hq => (hmeets q hq).2) hconforms hnever
      (Time.le_never (least.after S.window))
    have hspare := total_le fun (s : Stance M) (_ : s ∈ exchanged parties) => s.spare_le
    have hpaid := Nat.mul_le_mul_left ((parties.map Stance.ready).length + 1) hahead
    rw [hlength] at hspare
    rw [Nat.mul_succ] at hpaid
    omega

end Cohort

namespace Simulation

variable {b : Builder M} {log : List (Planned M.Payload)} {simulation : Simulation M}
  {labels : List (Option PartitionId)} {trace : List (PartitionId × Dispatch M)}
  {cohort : Cohort M}

/-- The steps of a run are its duties and those that are spent without any. -/
theorem length_labels_le (hb : b.Made log) (hbuild : b.build = .ok simulation)
    (hlifecycle : b.lifecycle = false)
    (hrun : (Cohort.system M).Run simulation.cohort labels trace cohort) :
    labels.length + cohort.overhead ≤ simulation.cohort.overhead + trace.countP isDuty := by
  -- every step of the run is paid for by a duty or out of the overhead
  induction hrun with
  | refl => exact Nat.le_of_eq (Nat.add_comm ..)
  | @step schedule seen x y label hfront hstep ih =>
    obtain ⟨hconforms, m, hagrees⟩ := agrees_run hb hbuild hfront
    have hplain := plain_run hb hbuild hlifecycle hfront
    rw [List.length_append, List.length_singleton, List.countP_append]
    cases label with
    | some i =>
      obtain ⟨work, p, hi, rfl⟩ := Cohort.step?_some_iff.mp hstep
      obtain rfl : work = .timed := hplain i _ hi
      have hwork := Cohort.overhead_workOn hi
        ((hconforms.each i _ hi).lifecycle.trans hlifecycle)
      rw [Cohort.note_of_running hi, show Work.timed.dispatch? p = p.next? from rfl]
      omega
    | none =>
      obtain ⟨parties, hne, rfl, rfl⟩ := Cohort.exchange?_eq_some_iff.mp hstep
      have hmeet := Cohort.overhead_exchanged hne (hb.build hbuild).2.1 hlifecycle
        (fun q hq => ?_) hagrees hconforms
      · omega
      · obtain ⟨j, hj⟩ := List.mem_iff_getElem?.mp hq
        exact hplain j _ (Cohort.getElem?_ready hj)

theorem exists_bound_of_duties (hb : b.Made log) (hbuild : b.build = .ok simulation)
    (hlifecycle : b.lifecycle = false) (duties : Nat)
    (hduties : ∀ (labels : List (Option PartitionId)) (trace : List (PartitionId × Dispatch M))
      (cohort : Cohort M), (Cohort.system M).Run simulation.cohort labels trace cohort →
        trace.countP isDuty ≤ duties) :
    ∃ bound, ∀ (schedule : List PartitionId) (trace : List (PartitionId × Dispatch M))
      (machine : Machine M), (Machine.system M).Run simulation.machine schedule trace machine →
        schedule.length ≤ bound := by
  have hbound : ∀ {labels : List (Option PartitionId)} {trace : List (PartitionId × Dispatch M)}
      {cohort : Cohort M}, (Cohort.system M).Run simulation.cohort labels trace cohort →
        labels.length ≤ simulation.cohort.overhead + duties := by
    intro labels trace cohort hcohort
    have hlabels := length_labels_le hb hbuild hlifecycle hcohort
    have htrace := hduties labels trace cohort hcohort
    omega
  exact ⟨_, fun schedule trace machine hrun =>
    (length_schedule_le hb hbuild (fun _ _ hcohort => hbound hcohort) hrun).1⟩

end Simulation

end Lookahead
