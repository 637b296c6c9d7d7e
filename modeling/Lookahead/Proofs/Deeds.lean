import Lookahead.Proofs.Halting
import Lookahead.Proofs.Phases

/-!
What is to be seen of a run with its untimed stages: the dispatches, and the phases in which
partitions call their untimed handlers, each with the partition that it finds.
-/

namespace Lookahead

variable {M : Model}

/-- A partition dispatches an activity, or begins a phase of a stage. -/
inductive Deed (M : Model) where
  | dispatch (d : Dispatch M)
  | phase (stage : Stage) (phase : Nat) (p : Partition M)

namespace Deed

def dispatch? : Deed M → Option (Dispatch M)
  | .dispatch d => some d
  | .phase _ _ _ => none

/-- The stage and the phase that a deed belongs to, unless it belongs to the timed run. -/
def phase? : Deed M → Option (Stage × Nat)
  | .dispatch _ => none
  | .phase stage k _ => some (stage, k)

@[simp] theorem phase?_dispatch (d : Dispatch M) : (Deed.dispatch d).phase? = none := rfl

@[simp] theorem phase?_phase (stage : Stage) (k : Nat) (p : Partition M) :
    (Deed.phase stage k p).phase? = some (stage, k) := rfl

def calls : Deed M → List (PhaseCall M)
  | .dispatch _ => []
  | .phase stage k p => p.calls stage k

def mails : Deed M → List (LinkEnd × M.Payload)
  | .dispatch _ => []
  | .phase stage k p => p.mails stage k

def reads (deed : Deed M) : List M.Payload :=
  PhaseAct.reads (deed.calls.flatMap fun call => call.acts)

end Deed

def Work.phase? : Work → Option (Stage × Nat)
  | .init phase => some (.init, phase)
  | .timed => none
  | .complete phase _ => some (.complete, phase)

def Work.deed? (work : Work) (p : Partition M) : Option (Deed M) :=
  match work with
  | .init phase => some (.phase .init phase p)
  | .timed => p.next?.map .dispatch
  | .complete phase _ => some (.phase .complete phase p)

theorem Work.deed?_of_phase? {work : Work} {p : Partition M} {stage : Stage} {phase : Nat}
    (h : work.phase? = some (stage, phase)) : work.deed? p = some (.phase stage phase p) := by
  cases work <;> cases h <;> rfl

def Thread.deed? : Thread M → Option (Deed M)
  | .running work p => work.deed? p
  | _ => none

def Stance.deed? : Stance M → Option (Deed M)
  | .running work p => work.deed? p
  | _ => none

def deedAt (position : PartitionId) (deed : Option (Deed M)) : List (PartitionId × Deed M) :=
  deed.toList.map fun d => (position, d)

def Machine.deeds (M : Model) : System (Machine M) PartitionId (PartitionId × Deed M) where
  step? := Machine.step?
  note machine position := deedAt position (machine.threads[position]?.bind Thread.deed?)

def Cohort.deeds (M : Model) :
    System (Cohort M) (Option PartitionId) (PartitionId × Deed M) where
  step? := Cohort.step?
  note cohort
    | some i => deedAt i (cohort[i]?.bind Stance.deed?)
    | none => []

theorem seenOf_deedAt_self (position : PartitionId) (deed : Option (Deed M)) :
    System.seenOf position (deedAt position deed) = deed.toList := by
  cases deed <;> simp [System.seenOf, deedAt]

theorem seenOf_deedAt_of_ne {position j : PartitionId} (h : position ≠ j)
    (deed : Option (Deed M)) : System.seenOf j (deedAt position deed) = [] := by
  cases deed <;> simp [System.seenOf, deedAt, h]

/-! ## The timed run among the deeds -/

def timedOf (deeds : List (PartitionId × Deed M)) : List (PartitionId × Dispatch M) :=
  deeds.filterMap fun entry => entry.2.dispatch?.map fun d => (entry.1, d)

theorem timedOf_deedAt (position : PartitionId) (work : Work) (p : Partition M) :
    timedOf (deedAt position (work.deed? p)) = noteAt position (work.dispatch? p) := by
  cases work with
  | init phase => rfl
  | complete phase stop => rfl
  | timed =>
    unfold Work.deed? Work.dispatch?
    cases p.next? <;> rfl

theorem seenOf_timedOf (j : PartitionId) (deeds : List (PartitionId × Deed M)) :
    System.seenOf j (timedOf deeds) = (System.seenOf j deeds).filterMap Deed.dispatch? := by
  unfold System.seenOf timedOf
  rw [List.filterMap_filterMap, List.filterMap_filterMap]
  congr 1
  funext entry
  obtain ⟨i, deed⟩ := entry
  cases deed <;> by_cases hi : i = j <;> simp [Deed.dispatch?, hi]

theorem Machine.run_timedOf {machine next : Machine M} {schedule : List PartitionId}
    {deeds : List (PartitionId × Deed M)}
    (h : (Machine.deeds M).Run machine schedule deeds next) :
    (Machine.system M).Run machine schedule (timedOf deeds) next := by
  refine h.filterMap _ rfl fun x i => ?_
  show noteAt i (x.threads[i]?.bind Thread.dispatch?) =
    timedOf (deedAt i (x.threads[i]?.bind Thread.deed?))
  cases x.threads[i]? with
  | none => rfl
  | some t =>
    cases t with
    | running work p => exact (timedOf_deedAt i work p).symm
    | syncing work p round => rfl
    | aborting gate e p => rfl
    | ended result p => rfl

theorem Cohort.run_timedOf {cohort next : Cohort M} {labels : List (Option PartitionId)}
    {deeds : List (PartitionId × Deed M)}
    (h : (Cohort.deeds M).Run cohort labels deeds next) :
    (Cohort.system M).Run cohort labels (timedOf deeds) next := by
  refine h.filterMap _ rfl fun x label => ?_
  cases label with
  | none => rfl
  | some i =>
    show noteAt i (x[i]?.bind Stance.dispatch?) = timedOf (deedAt i (x[i]?.bind Stance.deed?))
    cases x[i]? with
    | none => rfl
    | some s =>
      cases s with
      | running work p => exact (timedOf_deedAt i work p).symm
      | ready q => rfl
      | failed e p => rfl
      | ended stop p => rfl

/-! ## Tracking -/

theorem Cohort.Echo.run_deeds {machine : Machine M} {cohort cohort' : Cohort M} {t : Thread M}
    {i : PartitionId} {labels : List (Option PartitionId)} (h : cohort.Echo t i labels cohort')
    (ht : machine.threads[i]? = some t) :
    (Cohort.deeds M).Run cohort labels ((Machine.deeds M).note machine i) cohort' := by
  have hnote : (Machine.deeds M).note machine i = deedAt i t.deed? := by
    show deedAt i (machine.threads[i]?.bind Thread.deed?) = _
    rw [ht, Option.bind_some]
  have hquiet : t.isRunning = false → t.deed? = none := by
    intro hidle
    cases t <;> first | rfl | cases hidle
  rw [hnote]
  cases h with
  | nothing hidle =>
    rw [hquiet hidle]
    exact .refl
  | work work p ht hs =>
    subst ht
    have hstep : (Cohort.deeds M).Run cohort [some i] ((Cohort.deeds M).note cohort (some i))
        (cohort.set i (Thread.workOn work p).stance) :=
      .step .refl (Cohort.step?_some_iff.mpr ⟨work, p, hs, rfl⟩)
    have hsame : (Cohort.deeds M).note cohort (some i) =
        deedAt i (Thread.running work p).deed? := by
      show deedAt i (cohort[i]?.bind _) = _
      rw [hs]
      rfl
    rw [← hsame]
    exact hstep
  | exchange next hidle hnext =>
    rw [hquiet hidle]
    exact .step .refl hnext

theorem Tracks.run_deeds {machine next : Machine M} {cohort : Cohort M}
    {schedule : List PartitionId} {deeds : List (PartitionId × Deed M)}
    (hrun : (Machine.deeds M).Run machine schedule deeds next) (h : Tracks machine cohort)
    (hplaced : cohort.Placed) :
    ∃ labels cohort', (Cohort.deeds M).Run cohort labels deeds cohort' ∧ Tracks next cohort' ∧
      cohort'.Placed := by
  induction hrun with
  | refl => exact ⟨[], cohort, .refl, h, hplaced⟩
  | step _ hstep ih =>
    obtain ⟨labels, middle, hrun, htracks, hmiddle⟩ := ih
    obtain ⟨t, more, cohort', ht, hecho, hnext⟩ := htracks.echo hmiddle hstep
    refine ⟨labels ++ more, cohort', hrun.trans (hecho.run_deeds ht), hnext, ?_⟩
    exact (hecho.run ht).invariant hmiddle fun _ _ _ hx hxy => hx.step hxy

end Lookahead
