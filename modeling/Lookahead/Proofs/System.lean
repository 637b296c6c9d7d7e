import Lookahead.Identity
import Lookahead.Total

/-!
Systems that move in labelled steps, and what is to be seen of their runs.

If different labels never get in each other's way, any two runs from one state can be continued to a
common state, with the same number of steps, and on the way there everyone has seen the same of each
partition (`Commuting.confluent`). So one run that cannot be continued bounds the length of all of
them (`Commuting.length_le_of_halted`).
-/

namespace Lookahead

/-- Where a step with a label leads to, if it is possible, and what is to be seen of it. -/
structure System (σ ι ω : Type) where
  step? : σ → ι → Option σ
  note : σ → ι → List ω

namespace System

variable {σ ι ω δ : Type}

/-- Steps with the labels of a schedule lead from `start` to a state, and all that is to be seen of
them is the trace. -/
inductive Run (sys : System σ ι ω) (start : σ) : List ι → List ω → σ → Prop
  | refl : Run sys start [] [] start
  | step {schedule : List ι} {trace : List ω} {s s' : σ} {i : ι} :
      Run sys start schedule trace s → sys.step? s i = some s' →
        Run sys start (schedule ++ [i]) (trace ++ sys.note s i) s'

def Halted (sys : System σ ι ω) (s : σ) : Prop := ∀ i, sys.step? s i = none

namespace Run

variable {sys : System σ ι ω} {s x y : σ} {schedule later : List ι} {trace seen : List ω}

theorem trans (h : sys.Run s schedule trace x) (h' : sys.Run x later seen y) :
    sys.Run s (schedule ++ later) (trace ++ seen) y := by
  induction h' with
  | refl => simpa using h
  | step _ hstep ih =>
    rw [← List.append_assoc, ← List.append_assoc]
    exact ih.step hstep

theorem cons {i : ι} (hstep : sys.step? s i = some x) (h : sys.Run x schedule trace y) :
    sys.Run s (i :: schedule) (sys.note s i ++ trace) y :=
  trans (Run.refl.step hstep) h

theorem eq_of_nil (h : sys.Run s [] trace x) : x = s ∧ trace = [] := by
  generalize hnil : ([] : List ι) = schedule at h
  cases h with
  | refl => exact ⟨rfl, rfl⟩
  | step _ _ => simp at hnil

/-- A run that is not over at once is a first step and a run. -/
theorem of_cons {i : ι} (h : sys.Run s (i :: schedule) trace y) :
    ∃ x rest, sys.step? s i = some x ∧ sys.Run x schedule rest y ∧
      trace = sys.note s i ++ rest := by
  generalize hcons : i :: schedule = whole at h
  induction h generalizing schedule with
  | refl => cases hcons
  | @step front seen z z' j hrun hstep ih =>
    cases front with
    | nil =>
      simp only [List.nil_append, List.cons.injEq] at hcons
      obtain ⟨rfl, rfl⟩ := hcons
      obtain ⟨rfl, rfl⟩ := hrun.eq_of_nil
      exact ⟨z', [], hstep, Run.refl, by simp⟩
    | cons k front =>
      simp only [List.cons_append, List.cons.injEq] at hcons
      obtain ⟨rfl, rfl⟩ := hcons
      obtain ⟨x, rest, hfirst, hrest, rfl⟩ := ih rfl
      exact ⟨x, rest ++ sys.note z j, hfirst, hrest.step hstep, by rw [List.append_assoc]⟩

/-- What holds at the start and is kept by every step holds throughout. -/
theorem invariant {P : σ → Prop} (hstart : P s)
    (hkeep : ∀ x i y, P x → sys.step? x i = some y → P y)
    (h : sys.Run s schedule trace x) : P x := by
  induction h with
  | refl => exact hstart
  | step _ hstep ih => exact hkeep _ _ _ ih hstep

/-- A run shows less in a system whose steps are the same and show less. -/
theorem filterMap {υ : Type} {other : System σ ι υ} (f : ω → Option υ)
    (hstep : other.step? = sys.step?)
    (hnote : ∀ x i, other.note x i = (sys.note x i).filterMap f)
    (h : sys.Run s schedule trace x) : other.Run s schedule (trace.filterMap f) x := by
  induction h with
  | refl => exact .refl
  | @step _ _ y _ i _ hnext ih =>
    rw [List.filterMap_append, ← hnote]
    exact ih.step (by rw [hstep]; exact hnext)

theorem exists_note (h : sys.Run s schedule trace x) {w : ω} (hw : w ∈ trace) :
    ∃ y i, w ∈ sys.note y i := by
  induction h with
  | refl => cases hw
  | step _ _ ih => exact (List.mem_append.mp hw).elim ih fun hnote => ⟨_, _, hnote⟩

theorem eq_of_halted (hhalted : sys.Halted s) (h : sys.Run s schedule trace x) :
    x = s ∧ schedule = [] ∧ trace = [] := by
  cases schedule with
  | nil =>
    obtain ⟨rfl, rfl⟩ := h.eq_of_nil
    exact ⟨rfl, rfl, rfl⟩
  | cons i rest =>
    obtain ⟨_, _, hstep, _, _⟩ := h.of_cons
    rw [hhalted i] at hstep
    cases hstep

end Run

/-- Take the steps of a schedule that are possible, and pass over the others. -/
def follow (sys : System σ ι ω) (s : σ) : List ι → List ω × σ
  | [] => ([], s)
  | i :: schedule =>
    match sys.step? s i with
    | none => sys.follow s schedule
    | some next =>
      let (trace, last) := sys.follow next schedule
      (sys.note s i ++ trace, last)

theorem run_follow (sys : System σ ι ω) (s : σ) (schedule : List ι) :
    ∃ taken, sys.Run s taken (sys.follow s schedule).1 (sys.follow s schedule).2 := by
  induction schedule generalizing s with
  | nil => exact ⟨[], .refl⟩
  | cons i schedule ih =>
    unfold follow
    cases hstep : sys.step? s i with
    | none => exact ih s
    | some next =>
      obtain ⟨taken, hrun⟩ := ih next
      exact ⟨i :: taken, .cons hstep hrun⟩

/-! ## What is to be seen of one partition -/

def seenOf (j : PartitionId) (trace : List (PartitionId × δ)) : List δ :=
  trace.filterMap fun entry => if entry.1 = j then some entry.2 else none

def Alike (trace seen : List (PartitionId × δ)) : Prop := ∀ j, seenOf j trace = seenOf j seen

@[simp] theorem seenOf_nil (j : PartitionId) : seenOf j ([] : List (PartitionId × δ)) = [] := rfl

@[simp] theorem seenOf_append (j : PartitionId) (front back : List (PartitionId × δ)) :
    seenOf j (front ++ back) = seenOf j front ++ seenOf j back :=
  List.filterMap_append

theorem seenOf_eq_map (j : PartitionId) (trace : List (PartitionId × δ)) :
    seenOf j trace = (trace.filter fun entry => entry.1 == j).map Prod.snd := by
  unfold seenOf
  induction trace with
  | nil => rfl
  | cons entry rest ih => by_cases hj : entry.1 = j <;> simp [hj, ih]

theorem seenOf_filter (keep : δ → Bool) (j : PartitionId) (trace : List (PartitionId × δ)) :
    seenOf j (trace.filter fun entry => keep entry.2) = (seenOf j trace).filter keep := by
  rw [seenOf_eq_map, seenOf_eq_map, List.filter_map, List.filter_filter, List.filter_filter]
  congr 2
  funext entry
  exact Bool.and_comm ..

/-- What is seen of all positions adds up to the trace. -/
theorem total_seenOf (figure : δ → Nat) {n : Nat} {trace : List (PartitionId × δ)}
    (h : ∀ entry ∈ trace, entry.1 < n) :
    total (fun j => total figure (seenOf j trace)) (List.range n) =
      total (fun entry => figure entry.2) trace := by
  rw [← total_filter (fun entry => entry.1) (fun entry => figure entry.2) trace h]
  refine total_congr fun j _ => ?_
  rw [seenOf_eq_map, total_map]

theorem mem_seenOf {j : PartitionId} {d : δ} {trace : List (PartitionId × δ)} :
    d ∈ seenOf j trace ↔ (j, d) ∈ trace := by
  unfold seenOf
  rw [List.mem_filterMap]
  constructor
  · rintro ⟨⟨i, e⟩, hmem, h⟩
    split at h
    · rename_i hi
      cases h
      cases hi
      exact hmem
    · cases h
  · intro h
    exact ⟨(j, d), h, by simp⟩

namespace Alike

variable {t u v w : List (PartitionId × δ)}

theorem refl (t : List (PartitionId × δ)) : Alike t t := fun _ => rfl

theorem trans (h : Alike t u) (h' : Alike u v) : Alike t v := fun j => (h j).trans (h' j)

theorem append (h : Alike t u) (h' : Alike v w) : Alike (t ++ v) (u ++ w) := by
  intro j
  rw [seenOf_append, seenOf_append, h j, h' j]

/-- What is to be seen of two different partitions can be seen in either order. -/
theorem swap {i j : PartitionId} (hij : i ≠ j) (hi : ∀ entry ∈ t, entry.1 = i)
    (hj : ∀ entry ∈ u, entry.1 = j) : Alike (t ++ u) (u ++ t) := by
  intro k
  have hnone : ∀ {l : PartitionId} {v : List (PartitionId × δ)}, (∀ entry ∈ v, entry.1 = l) →
      l ≠ k → seenOf k v = [] := by
    intro l v hv hlk
    refine List.filterMap_eq_nil_iff.mpr fun entry hentry => ?_
    rw [if_neg]
    rw [hv entry hentry]
    exact hlk
  rw [seenOf_append, seenOf_append]
  by_cases hik : i = k
  · rw [hnone hj fun hjk => hij (hik.trans hjk.symm)]
    simp
  · rw [hnone hi hik]
    simp

end Alike

/-! ## Commuting steps -/

/-- Steps with different labels do not get in each other's way. -/
def Commuting (sys : System σ ι (PartitionId × δ)) : Prop :=
  ∀ s i j a b, i ≠ j → sys.step? s i = some a → sys.step? s j = some b →
    (∃ c, sys.step? a j = some c ∧ sys.step? b i = some c) ∧
      sys.note a j = sys.note s j ∧ sys.note b i = sys.note s i ∧
      Alike (sys.note s i ++ sys.note s j) (sys.note s j ++ sys.note s i)

namespace Commuting

variable [DecidableEq ι] {sys : System σ ι (PartitionId × δ)}

/-- A first step can be caught up with from the end of any other run. -/
theorem strip (hcomm : sys.Commuting) {s x y : σ} {i : ι} {schedule : List ι}
    {trace : List (PartitionId × δ)} (hstep : sys.step? s i = some x)
    (hrun : sys.Run s schedule trace y) :
    ∃ z schedule' trace' last seen, sys.Run x schedule' trace' z ∧ sys.Run y last seen z ∧
      Alike (sys.note s i ++ trace') (trace ++ seen) ∧
      schedule'.length + 1 = schedule.length + last.length := by
  -- by induction on the run: the step is carried past one step of the others after another, until
  -- it meets its like or the end
  induction schedule generalizing s x trace with
  | nil =>
    obtain ⟨rfl, rfl⟩ := hrun.eq_of_nil
    exact ⟨x, [], [], [i], sys.note y i, Run.refl, by simpa using Run.refl.step hstep,
      by simpa using Alike.refl _, rfl⟩
  | cons j schedule ih =>
    obtain ⟨s₁, rest, hfirst, hrest, rfl⟩ := hrun.of_cons
    by_cases hij : i = j
    · subst hij
      rw [hstep] at hfirst
      cases hfirst
      exact ⟨y, schedule, rest, [], [], hrest, Run.refl, by simpa using Alike.refl _, rfl⟩
    · obtain ⟨⟨c, hxc, hsc⟩, hnotej, hnotei, hswap⟩ := hcomm s i j x s₁ hij hstep hfirst
      obtain ⟨z, schedule', trace', last, seen, hc, hy, halike, hlength⟩ := ih hsc hrest
      refine ⟨z, j :: schedule', sys.note x j ++ trace', last, seen, Run.cons hxc hc, hy, ?_, ?_⟩
      case refine_2 =>
        rw [List.length_cons, List.length_cons]
        omega
      rw [hnotej]
      rw [hnotei] at halike
      have hfront : Alike (sys.note s i ++ (sys.note s j ++ trace'))
          (sys.note s j ++ (sys.note s i ++ trace')) := by
        rw [← List.append_assoc, ← List.append_assoc]
        exact hswap.append (Alike.refl trace')
      refine hfront.trans ?_
      rw [List.append_assoc]
      exact (Alike.refl _).append halike

/-- Any two runs can be continued to a common state, and show the same of every partition then. They
are equally long then. -/
theorem confluent (hcomm : sys.Commuting) {s x y : σ} {schedule other : List ι}
    {trace seen : List (PartitionId × δ)} (hx : sys.Run s schedule trace x)
    (hy : sys.Run s other seen y) :
    ∃ z schedule' trace' other' seen', sys.Run x schedule' trace' z ∧ sys.Run y other' seen' z ∧
      Alike (trace ++ trace') (seen ++ seen') ∧
      schedule.length + schedule'.length = other.length + other'.length := by
  induction schedule generalizing s trace other seen y with
  | nil =>
    obtain ⟨rfl, rfl⟩ := hx.eq_of_nil
    exact ⟨y, other, seen, [], [], hy, Run.refl, by simpa using Alike.refl _, Nat.add_comm ..⟩
  | cons i schedule ih =>
    obtain ⟨s₁, rest, hfirst, hrest, rfl⟩ := hx.of_cons
    obtain ⟨z₁, other₁, seen₁, last, seen₂, hs₁, hlast, halike, hlength⟩ :=
      hcomm.strip hfirst hy
    obtain ⟨z, schedule', trace', other', seen', hxz, hz₁, halike', hlength'⟩ := ih hrest hs₁
    refine ⟨z, schedule', trace', last ++ other', seen₂ ++ seen', hxz, hlast.trans hz₁, ?_, ?_⟩
    case refine_2 =>
      rw [List.length_cons, List.length_append]
      omega
    have hfront := (Alike.refl (sys.note s i)).append halike'
    have hback := halike.append (Alike.refl seen')
    rw [List.append_assoc, List.append_assoc] at hback
    rw [List.append_assoc]
    exact hfront.trans hback

/-- No run is longer than one that cannot be continued. -/
theorem length_le_of_halted (hcomm : sys.Commuting) {s x y : σ} {schedule other : List ι}
    {trace seen : List (PartitionId × δ)} (hx : sys.Run s schedule trace x)
    (hhalted : sys.Halted x) (hy : sys.Run s other seen y) : other.length ≤ schedule.length := by
  obtain ⟨z, schedule', trace', other', seen', hxz, _, _, hlength⟩ := hcomm.confluent hx hy
  obtain ⟨_, rfl, _⟩ := hxz.eq_of_halted hhalted
  rw [List.length_nil] at hlength
  omega

end Commuting

end System

end Lookahead
