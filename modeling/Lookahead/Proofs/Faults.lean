import Lookahead.Proofs.Lockstep
import Lookahead.Proofs.Progress

/-!
Failures.

In a cohort nobody is turned away, so whoever has failed there has failed at its own work. Such a
partition stays where it is and no round takes place any more, and what the others do meanwhile is
no part of what leads up to it (`Machine.stance_run`).
-/

namespace Lookahead

variable {M : Model}

/-! ## Failing at work -/

namespace Partition

variable {p q : Partition M} {e : RunError}

/-- Whoever fails in a dispatch is not turned away. -/
theorem isAbort_of_dispatch (h : p.dispatch = .fail e q) : e.isAbort = false := by
  have hdeliver : ∀ {p : Partition M} {event : Event M.Payload},
      p.deliver event = .fail e q → e.isAbort = false := by
    intro p event h
    unfold deliver at h
    split at h
    · split at h
      · cases h
        rfl
      · cases h
        rfl
      · split at h <;> cases h
        rfl
    · cases h
      rfl
  have hfire : ∀ {p : Partition M} {id : ClockId}, p.fire id = .fail e q → e.isAbort = false := by
    intro p id h
    unfold fire at h
    split at h
    · cases h
      rfl
    · split at h <;> cases h
      rfl
  unfold dispatch at h
  split at h
  · cases h
  · split at h
    · cases h
      rfl
    · rename_i activity timeline _
      cases hpayload : activity.payload with
      | deliver event => exact hdeliver (hpayload ▸ h)
      | clock id => exact hfire (hpayload ▸ h)
      | sync =>
        rw [hpayload] at h
        cases h
      | stop =>
        rw [hpayload] at h
        cases h

/-- Nor is whoever fails in a phase. -/
theorem isAbort_of_runPhase {stage : Stage} {phase : Nat}
    (h : p.runPhase stage phase = (.error e, q)) : e.isAbort = false := by
  unfold runPhase at h
  split at h
  · cases h
    rfl
  · split at h <;> cases h <;> rfl

end Partition

namespace Thread

variable {work : Work} {p : Partition M} {t : Thread M} {e : RunError}

theorem isAbort_workOn (h : (workOn work p).error? = some e) : e.isAbort = false := by
  have hphase : ∀ (stage : Stage) (phase : Nat),
      (runPhase work stage phase p).error? = some e → e.isAbort = false := by
    intro stage phase h
    unfold runPhase at h
    split at h
    · cases h
    · rename_i hphase
      cases h
      exact Partition.isAbort_of_runPhase hphase
  cases work with
  | init phase => exact hphase .init phase h
  | complete phase stop => exact hphase .complete phase h
  | timed =>
    unfold workOn at h
    dsimp only at h
    split at h
    · cases h
    · cases h
    · rw [error?_finishTimed] at h
      cases h
    · rename_i hdispatch
      cases h
      exact Partition.isAbort_of_dispatch hdispatch

theorem running_of_stance (h : t.stance = .running work p) : t = .running work p := by
  cases t with
  | running w q =>
    cases h
    rfl
  | ended result q => cases result <;> cases h
  | _ => cases h

theorem stance_of_error? (h : t.error? = some e) : t.stance = .failed e t.partition := by
  cases t with
  | aborting gate e' q =>
    cases h
    rfl
  | ended result q =>
    cases result <;> cases h
    rfl
  | _ => cases h

theorem error?_of_stance (h : t.stance = .failed e p) : t.error? = some e := by
  cases t with
  | aborting gate e' q =>
    cases h
    rfl
  | ended result q =>
    cases result <;> cases h
    rfl
  | _ => cases h

end Thread

/-- Nobody fails at the end of a round. -/
theorem Party.error?_conclude (q : Party M) (incoming : List (Scheduled M.Payload)) (least : Time) :
    (q.conclude incoming least).error? = none := by
  unfold conclude
  cases q.kind with
  | epoch =>
    dsimp only
    split
    · exact Thread.error?_finishTimed ..
    · rfl
  | untimed own => exact Thread.error?_afterRound ..

/-! ## Failures in a cohort -/

namespace Stance

/-- What becomes of a partition with one more step of its own, if it is at work. -/
def work : Stance M → Stance M
  | .running work p => (Thread.workOn work p).stance
  | s => s

variable {s s' : Stance M}

theorem repeat_work_of_ne (hs : ∀ work p, s ≠ .running work p) (n : Nat) :
    Nat.repeat work n s = s := by
  have hfixed : s.work = s := by
    cases s with
    | running w p => exact absurd rfl (hs w p)
    | _ => rfl
  induction n with
  | zero => rfl
  | succ n ih => rw [Nat.repeat, ih, hfixed]

theorem repeat_work_add (s : Stance M) (m n : Nat) :
    Nat.repeat work (m + n) s = Nat.repeat work n (Nat.repeat work m s) := by
  induction n with
  | zero => rfl
  | succ n ih => rw [← Nat.add_assoc, Nat.repeat, ih, Nat.repeat]

/-- Whoever does not stay at work comes to the same end, however long it is observed. -/
theorem running_or_eq {m : Nat} (h : Nat.repeat work m s = s')
    (hs' : ∀ work p, s' ≠ .running work p) (n : Nat) :
    (∃ w p, Nat.repeat work n s = .running w p) ∨ Nat.repeat work n s = s' := by
  cases hn : Nat.repeat work n s with
  | running w p => exact Or.inl ⟨w, p, rfl⟩
  | _ =>
    refine Or.inr ?_
    rw [← hn]
    rcases Nat.le_total n m with hle | hle
    · obtain ⟨k, rfl⟩ := Nat.exists_eq_add_of_le hle
      rw [repeat_work_add, hn, repeat_work_of_ne (by simp)] at h
      rw [hn, h]
    · obtain ⟨k, rfl⟩ := Nat.exists_eq_add_of_le hle
      rw [repeat_work_add, h, repeat_work_of_ne hs']

end Stance

namespace Cohort

variable {cohort next : Cohort M} {i : Nat} {s : Stance M} {e : RunError} {p : Partition M}
  {labels more : List (Option PartitionId)} {trace seen : List (PartitionId × Dispatch M)}

/-- Whoever has failed or ended stays where it is, and no round takes place any more. -/
theorem settled_step {label : Option PartitionId} (hs : cohort[i]? = some s)
    (hsettled : s.isFailed = true ∨ s.isEnded = true) (hstep : cohort.step? label = some next) :
    next[i]? = some s ∧ label ≠ none := by
  cases label with
  | some j =>
    obtain ⟨work, p, hj, rfl⟩ := step?_some_iff.mp hstep
    refine ⟨?_, by simp⟩
    rw [List.getElem?_set_ne, hs]
    rintro rfl
    rw [hs] at hj
    cases hj
    rcases hsettled with h | h <;> cases h
  | none =>
    obtain ⟨parties, _, rfl, _⟩ := exchange?_eq_some_iff.mp hstep
    rw [List.getElem?_map] at hs
    obtain ⟨q, _, rfl⟩ := Option.map_eq_some_iff.mp hs
    rcases hsettled with h | h <;> cases h

theorem settled_run (hs : cohort[i]? = some s)
    (hsettled : s.isFailed = true ∨ s.isEnded = true)
    (hrun : (system M).Run cohort more seen next) : next[i]? = some s ∧ none ∉ more := by
  induction hrun with
  | refl => exact ⟨hs, by simp⟩
  | step _ hstep ih =>
    obtain ⟨hs', hnone⟩ := ih
    obtain ⟨hnext, hlabel⟩ := settled_step hs' hsettled hstep
    refine ⟨hnext, ?_⟩
    rw [List.mem_append, List.mem_singleton]
    rintro (hmem | heq)
    · exact hnone hmem
    · exact hlabel heq.symm

/-- As long as no round takes place, everyone is on its own. -/
theorem getElem?_run (hs : cohort[i]? = some s) (hrun : (system M).Run cohort more seen next)
    (hnone : none ∉ more) :
    next[i]? = some (Nat.repeat Stance.work (more.count (some i)) s) := by
  induction hrun with
  | refl => exact hs
  | @step more seen x y label _ hstep ih =>
    rw [List.mem_append, not_or] at hnone
    have hx := ih hnone.1
    cases label with
    | none => exact absurd (List.mem_singleton_self _) hnone.2
    | some j =>
      obtain ⟨work, p, hj, rfl⟩ := step?_some_iff.mp hstep
      rw [List.count_append]
      by_cases hij : i = j
      · subst hij
        rw [hx] at hj
        rw [List.count_singleton_self, Nat.repeat, Option.some.inj hj]
        exact getElem?_set_of_some hx
      · rw [List.count_singleton, if_neg (by simpa using fun h => hij h.symm), Nat.add_zero,
          List.getElem?_set_ne (Ne.symm hij)]
        exact hx

def Blameless (cohort : Cohort M) : Prop := ∀ (i : Nat) (e : RunError) (p : Partition M),
  cohort[i]? = some (.failed e p) → e.isAbort = false

theorem Blameless.step {label : Option PartitionId} (h : cohort.Blameless)
    (hstep : cohort.step? label = some next) : next.Blameless := by
  cases label with
  | some i =>
    obtain ⟨work, p, _, rfl⟩ := step?_some_iff.mp hstep
    have hset : ∀ (j : Nat) (s : Stance M),
        (cohort.set i (Thread.workOn work p).stance)[j]? = some s →
          ∀ e q, s = .failed e q → e.isAbort = false := by
      refine forall_set (fun j s _ hs e q hfailed => h j e q (hfailed ▸ hs)) ?_
      intro e q hfailed
      exact Thread.isAbort_workOn (Thread.error?_of_stance hfailed)
    exact fun j e q hs => hset j _ hs e q rfl
  | none =>
    obtain ⟨parties, _, rfl, rfl⟩ := exchange?_eq_some_iff.mp hstep
    intro j e q hs
    obtain ⟨r, _, hstance⟩ := Cohort.getElem?_exchanged hs
    have herror := Thread.error?_of_stance hstance.symm
    rw [Party.error?_conclude] at herror
    cases herror

/-- Every round brings all partitions one round further. -/
theorem At.rounds_run {b : Builder M} {log : List (Planned M.Payload)} {simulation : Simulation M}
    {now : Pace} (hb : b.Made log) (hbuild : b.build = .ok simulation)
    (hrun : (system M).Run simulation.cohort labels trace cohort)
    (hmore : (system M).Run cohort more seen next) (h : cohort.At now) :
    ∃ now', next.At now' ∧ now'.rounds = now.rounds + more.count none := by
  induction hmore with
  | refl => exact ⟨now, h, rfl⟩
  | @step more seen x y label hfront hstep ih =>
    obtain ⟨now', hat, hrounds⟩ := ih
    rw [List.count_append]
    cases label with
    | some j => exact ⟨now', hat.work hstep, hrounds⟩
    | none =>
      obtain ⟨parties, hne, rfl, rfl⟩ := exchange?_eq_some_iff.mp hstep
      obtain ⟨hconforms, m, hagrees⟩ := Simulation.agrees_run hb hbuild (hrun.trans hfront)
      obtain ⟨epoch, meeting, _, hexchanged⟩ := hat.exchange hne hagrees hconforms
      refine ⟨_, hexchanged, ?_⟩
      rw [Pace.rounds_next, hrounds, List.count_singleton_self]
      omega

end Cohort

/-! ## Failures in a machine -/

namespace Tracks

variable {machine : Machine M} {cohort : Cohort M} {i : Nat} {t : Thread M} {e : RunError}
  {p : Partition M} {now : Pace}

/-- A thread that has failed or ended stands as its partition in the cohort, or it was turned away
from a round that the failure of another one has called off. -/
theorem left_cases (h : Tracks machine cohort) (ht : machine.threads[i]? = some t) :
    (t.error? = none ∧ t.result? = none) ∨
    (∃ stop p, t = .ended (.ok stop) p ∧ cohort[i]? = some (.ended stop p)) ∨
    (∃ e p, t.error? = some e ∧ t.partition = p ∧ cohort[i]? = some (.failed e p)) ∨
    ∃ q, t.error? = some (.aborted q.partition.id) ∧ cohort[i]? = some (.ready q) ∧
      cohort.Broken := by
  cases h with
  | gathering rounds h =>
    obtain ⟨s, hs, hgathers⟩ := h.stands i t ht
    cases hgathers with
    | ended stop p => exact Or.inr (Or.inl ⟨stop, p, rfl, hs⟩)
    | failing gate e p => exact Or.inr (Or.inr (Or.inl ⟨e, p, rfl, rfl, hs⟩))
    | failed e p => exact Or.inr (Or.inr (Or.inl ⟨e, p, rfl, rfl, hs⟩))
    | turnedAway gate q hbroken => exact Or.inr (Or.inr (Or.inr ⟨q, rfl, hs, hbroken⟩))
    | left q hbroken => exact Or.inr (Or.inr (Or.inr ⟨q, rfl, hs, hbroken⟩))
    | _ => exact Or.inl ⟨rfl, rfl⟩
  | handing rounds parties hne hready h =>
    obtain ⟨q, _, hhands⟩ := h.stands i t ht
    cases hhands <;> exact Or.inl ⟨rfl, rfl⟩
  | taking rounds parties hne hready h =>
    obtain ⟨q, _, _, _, _, _, htakes⟩ := h.stands i t ht
    cases htakes <;> exact Or.inl ⟨rfl, rfl⟩

theorem error?_of_failed (h : Tracks machine cohort) (hs : cohort[i]? = some (.failed e p)) :
    ∃ t, machine.threads[i]? = some t ∧ t.error? = some e := by
  have hnotready : ∀ {parties : List (Party M)}, cohort ≠ parties.map Stance.ready := by
    rintro parties rfl
    exact Cohort.not_broken_ready parties (.of_failed hs)
  cases h with
  | handing rounds parties hne hready h => exact absurd hready hnotready
  | taking rounds parties hne hready h => exact absurd hready hnotready
  | gathering rounds h =>
    have hlt := (List.getElem?_eq_some_iff.mp hs).1
    rw [← h.size] at hlt
    have ht := List.getElem?_eq_getElem hlt
    obtain ⟨s, hs', hgathers⟩ := h.stands i _ ht
    rw [hs] at hs'
    obtain rfl := Option.some.inj hs'
    refine ⟨_, ht, ?_⟩
    generalize machine.threads[i] = t at hgathers
    generalize hstance : Stance.failed e p = s at hgathers
    have hnot : ∀ {q : Party M} {incoming : List (Scheduled M.Payload)} {least : Time},
        (q.conclude incoming least).stance ≠ .failed e p := by
      intro q incoming least heq
      have herror := Thread.error?_of_stance heq
      rw [Party.error?_conclude] at herror
      cases herror
    cases hgathers with
    | failing gate e' p' =>
      cases hstance
      rfl
    | failed e' p' =>
      cases hstance
      rfl
    | released q incoming generation hne => exact absurd hstance.symm hnot
    | reading q incoming slot least => exact absurd hstance.symm hnot
    | _ => cases hstance

/-- Whoever is at work in the cohort and has come as far as the cohort is at work itself. -/
theorem thread_of_running {work : Work} (h : Tracks machine cohort) (hat : cohort.At now)
    (hs : cohort[i]? = some (.running work p)) (ht : machine.threads[i]? = some t)
    (hnow : t.pace = now) : t = .running work p := by
  have hnotready : ∀ {parties : List (Party M)}, cohort ≠ parties.map Stance.ready := by
    rintro parties rfl
    rw [List.getElem?_map] at hs
    obtain ⟨q, _, hq⟩ := Option.map_eq_some_iff.mp hs
    cases hq
  cases h with
  | handing rounds parties hne hready h => exact absurd hready hnotready
  | taking rounds parties hne hready h => exact absurd hready hnotready
  | gathering rounds h =>
    obtain ⟨s, hs', hgathers⟩ := h.stands i t ht
    have hpace := hat i s hs'
    rw [hs] at hs'
    obtain rfl := Option.some.inj hs'
    generalize hstance : Stance.running work p = s at hgathers hpace
    cases hgathers with
    | running w q =>
      cases hstance
      rfl
    | released q incoming generation hne => exact absurd hnow (Party.pace_taken_ne hpace)
    | reading q incoming slot least => exact absurd hnow (Party.pace_taken_ne hpace)
    | _ => cases hstance

end Tracks

/-- Where a partition works towards its failure, it gets there by its own steps alone. -/
theorem Machine.stance_run {machine later : Machine M} {schedule : List PartitionId}
    {trace : List (PartitionId × Dispatch M)} {i m : Nat} {t : Thread M} {e : RunError}
    {p : Partition M} (hrun : (system M).Run machine schedule trace later)
    (ht : machine.threads[i]? = some t)
    (hfails : Nat.repeat Stance.work m t.stance = .failed e p) :
    ∃ t', later.threads[i]? = some t' ∧
      t'.stance = Nat.repeat Stance.work (schedule.count i) t.stance := by
  induction hrun with
  | refl => exact ⟨t, ht, rfl⟩
  | @step schedule trace x y j _ hstep ih =>
    obtain ⟨u, hu, hstance⟩ := ih
    rw [List.count_append]
    by_cases hij : j = i
    · subst hij
      obtain ⟨u', shared, t', hu', hmoves, rfl⟩ := moves_of_step? hstep
      rw [hu] at hu'
      cases hu'
      refine ⟨t', getElem?_set_of_some hu, ?_⟩
      rw [List.count_singleton_self, Nat.repeat, ← hstance]
      -- Until it has failed it is at work, and after that its steps only tell the others.
      have hcases := Stance.running_or_eq hfails (by simp) (schedule.count j)
      rw [← hstance] at hcases
      cases hmoves with
      | work work p => rfl
      | abort gate e p _ htarget =>
        rw [htarget]
        cases gate <;> rfl
      | _ => rcases hcases with ⟨_, _, h⟩ | h <;> cases h
    · refine ⟨u, (threads_step_ne hstep hij).trans hu, ?_⟩
      rw [List.count_singleton, if_neg (by simpa using hij), Nat.add_zero]
      exact hstance

/-- Nobody has to wait for anyone on the way to its own failure. -/
theorem Machine.run_alone {machine : Machine M} {i m : Nat} {t : Thread M} {e : RunError}
    {p : Partition M} (ht : machine.threads[i]? = some t)
    (hfails : Nat.repeat Stance.work m t.stance = .failed e p) :
    ∃ steps, (∃ seen later, (system M).Run machine (List.replicate steps i) seen later) ∧
      Nat.repeat Stance.work steps t.stance = .failed e p := by
  induction m generalizing machine t with
  | zero => exact ⟨0, ⟨_, _, .refl⟩, hfails⟩
  | succ m ih =>
    by_cases hrunning : ∃ work q, t = .running work q
    · obtain ⟨work, q, rfl⟩ := hrunning
      have hstep : Thread.step? machine.shared (.running work q) =
          some (machine.shared, Thread.workOn work q) := rfl
      obtain ⟨next, hnext, hthread, _⟩ := exists_step_of_thread ht hstep
      rw [Nat.add_comm, Stance.repeat_work_add] at hfails
      obtain ⟨steps, ⟨seen, later, hrun⟩, hfailed⟩ := ih hthread hfails
      refine ⟨steps + 1, ⟨_, later, .cons hnext hrun⟩, ?_⟩
      rw [Nat.add_comm, Stance.repeat_work_add]
      exact hfailed
    · refine ⟨0, ⟨_, _, .refl⟩, ?_⟩
      rwa [Stance.repeat_work_of_ne fun work q hstance =>
        hrunning ⟨work, q, Thread.running_of_stance hstance⟩] at hfails

end Lookahead
