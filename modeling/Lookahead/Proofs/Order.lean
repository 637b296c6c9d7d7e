import Lookahead.Schedule.Queue

/-!
The order of dispatch, and lists that are kept in it.

Placing items into a list that is in order leaves it in order, and two items that do not tie can be
placed in either order. Sorting any arrangement of a list that is strictly in order gives that list
back, which is why it does not matter in which order batches come in.
-/

namespace Lookahead

namespace Ordered

variable {α : Type} {before : α → α → Bool}

/-- `before` compares by a key: what is not after can be chained. -/
structure ByKey (before : α → α → Bool) : Prop where
  asymm : ∀ a b, before a b = true → before b a = false
  chain : ∀ a b c, before b a = false → before c b = false → before c a = false

/-- Nothing comes strictly before an item in front of it. -/
def InOrder (before : α → α → Bool) (items : List α) : Prop :=
  items.Pairwise fun a b => before b a = false

theorem ByKey.before_trans (key : ByKey before) {a b c : α} (hab : before a b = true)
    (hbc : before b c = true) : before a c = true := by
  cases hac : before a c with
  | true => rfl
  | false =>
    have := key.chain c a b hac (key.asymm a b hab)
    rw [hbc] at this
    cases this

theorem InOrder.place (key : ByKey before) (a : α) {items : List α}
    (h : InOrder before items) : InOrder before (place before a items) := by
  induction items with
  | nil => exact List.pairwise_singleton _ a
  | cons b rest ih =>
    obtain ⟨hb, hrest⟩ := List.pairwise_cons.mp h
    unfold Ordered.place
    split
    · rename_i hab
      refine List.pairwise_cons.mpr ⟨?_, h⟩
      intro c hc
      rcases List.mem_cons.mp hc with rfl | hc
      · exact key.asymm _ _ hab
      · exact key.chain a b c (key.asymm _ _ hab) (hb c hc)
    · rename_i hab
      refine List.pairwise_cons.mpr ⟨?_, ih hrest⟩
      intro c hc
      rcases mem_place.mp hc with rfl | hc
      · simpa using hab
      · exact hb c hc

/-- Items that do not tie can be placed in either order. -/
theorem place_comm (key : ByKey before) {a b : α} (h : before a b = true ∨ before b a = true)
    (items : List α) :
    place before a (place before b items) = place before b (place before a items) := by
  have ordered : ∀ a b : α, before a b = true → ∀ items : List α,
      place before a (place before b items) = place before b (place before a items) := by
    intro a b hab items
    have hba := key.asymm a b hab
    induction items with
    | nil => simp [place, hab, hba]
    | cons c rest ih =>
      cases hbc : before b c with
      | true =>
        have hac := key.before_trans hab hbc
        simp [place, hbc, hab, hba, hac]
      | false =>
        cases hac : before a c with
        | true => simp [place, hbc, hac, hba]
        | false => simp [place, hbc, hac, ih]
  rcases h with h | h
  · exact ordered a b h items
  · exact (ordered b a h items).symm

/-- What does not pass a filter can be placed anywhere. -/
theorem filter_place_of_neg {p : α → Bool} {a : α} (h : p a = false) (items : List α) :
    (place before a items).filter p = items.filter p := by
  induction items with
  | nil => simp [place, h]
  | cons b rest ih =>
    unfold place
    split
    · rw [List.filter_cons_of_neg (by simp [h])]
    · rw [List.filter_cons, List.filter_cons, ih]

/-- What passes a filter is placed among the others that do. -/
theorem filter_place_of_pos (key : ByKey before) {p : α → Bool} {a : α} (h : p a = true)
    {items : List α} (horder : InOrder before items) :
    (place before a items).filter p = place before a (items.filter p) := by
  induction items with
  | nil => simp [place, h]
  | cons b rest ih =>
    obtain ⟨hb, hrest⟩ := List.pairwise_cons.mp horder
    cases hab : before a b with
    | true =>
      -- everything behind `b` comes after `a` as well
      have hfront : ∀ others : List α, (∀ c ∈ others, before a c = true) →
          place before a others = a :: others := by
        intro others hothers
        cases others with
        | nil => rfl
        | cons c others => simp [place, hothers c (List.mem_cons_self ..)]
      have hall : ∀ c ∈ (b :: rest).filter p, before a c = true := by
        intro c hc
        rcases List.mem_cons.mp (List.mem_filter.mp hc).1 with rfl | hc
        · exact hab
        · cases hac : before a c with
          | true => rfl
          | false =>
            have := key.chain b c a (hb c hc) hac
            rw [hab] at this
            cases this
      rw [hfront _ hall]
      simp [place, hab, h]
    | false =>
      cases hp : p b with
      | true => simp [place, hab, hp, ih hrest]
      | false => simp [place, hab, hp, ih hrest]

/-! ## Placing several items -/

def placeAll (before : α → α → Bool) (added items : List α) : List α :=
  added.foldl (fun sorted a => place before a sorted) items

@[simp] theorem placeAll_nil (items : List α) : placeAll before [] items = items := rfl

@[simp] theorem placeAll_cons (a : α) (added items : List α) :
    placeAll before (a :: added) items = placeAll before added (place before a items) := rfl

theorem placeAll_append (front back items : List α) :
    placeAll before (front ++ back) items = placeAll before back (placeAll before front items) :=
  List.foldl_append ..

theorem placeAll_perm (added items : List α) :
    (placeAll before added items).Perm (added ++ items) := by
  induction added generalizing items with
  | nil => exact List.Perm.refl _
  | cons a rest ih =>
    exact (ih _).trans (((place_perm before a items).append_left rest).trans List.perm_middle)

theorem placeAll_placeAll_perm {added others items : List α} :
    (placeAll before added (placeAll before others items)).Perm (added ++ (others ++ items)) :=
  (placeAll_perm _ _).trans ((placeAll_perm _ _).append_left added)

theorem placeAll_placeAll_perm' {added others items : List α} :
    (placeAll before added (placeAll before others items)).Perm (others ++ (added ++ items)) := by
  refine placeAll_placeAll_perm.trans ?_
  rw [← List.append_assoc, ← List.append_assoc]
  exact List.perm_append_comm.append_right items

theorem mem_placeAll {a : α} {added items : List α} :
    a ∈ placeAll before added items ↔ a ∈ added ∨ a ∈ items := by
  rw [(placeAll_perm added items).mem_iff, List.mem_append]

theorem InOrder.placeAll (key : ByKey before) (added : List α) {items : List α}
    (h : InOrder before items) : InOrder before (Ordered.placeAll before added items) := by
  induction added generalizing items with
  | nil => exact h
  | cons a rest ih => exact ih (h.place key a)

theorem place_placeAll (key : ByKey before) {a : α} {added : List α}
    (h : ∀ b ∈ added, before a b = true ∨ before b a = true) (items : List α) :
    place before a (placeAll before added items) =
      placeAll before added (place before a items) := by
  induction added generalizing items with
  | nil => rfl
  | cons b rest ih =>
    rw [placeAll_cons, placeAll_cons, ih (fun c hc => h c (List.mem_cons_of_mem _ hc)),
      place_comm key (h b (List.mem_cons_self ..))]

/-- Two lists of items none of which tie can be placed in either order. -/
theorem placeAll_comm (key : ByKey before) {front back : List α}
    (h : ∀ a ∈ front, ∀ b ∈ back, before a b = true ∨ before b a = true) (items : List α) :
    placeAll before front (placeAll before back items) =
      placeAll before back (placeAll before front items) := by
  induction front generalizing items with
  | nil => rfl
  | cons a rest ih =>
    rw [placeAll_cons, placeAll_cons, place_placeAll key (h a (List.mem_cons_self ..)),
      ih fun b hb => h b (List.mem_cons_of_mem _ hb)]

/-- Items none of which tie can be placed in any order. -/
theorem placeAll_of_perm (key : ByKey before) {added others : List α} (hperm : added.Perm others)
    (h : added.Pairwise fun a b => before a b = true ∨ before b a = true) (items : List α) :
    placeAll before added items = placeAll before others items := by
  induction hperm generalizing items with
  | nil => rfl
  | cons a _ ih => exact ih (List.pairwise_cons.mp h).2 _
  | swap a b rest =>
    have hab := (List.pairwise_cons.mp h).1 a (List.mem_cons_self ..)
    rw [placeAll_cons, placeAll_cons, placeAll_cons, placeAll_cons, place_comm key hab.symm]
  | trans hfirst _ ih ih' =>
    rw [ih h, ih' ((hfirst.pairwise_iff fun hab => hab.symm).mp h)]

/-- An item that nothing added comes before stays in front. -/
theorem placeAll_cons_of_not_before {a : α} {added : List α}
    (h : ∀ b ∈ added, before b a = false) (items : List α) :
    placeAll before added (a :: items) = a :: placeAll before added items := by
  induction added generalizing items with
  | nil => rfl
  | cons b rest ih =>
    have hb : place before b (a :: items) = a :: place before b items := by
      simp [place, h b (List.mem_cons_self ..)]
    rw [placeAll_cons, placeAll_cons, hb, ih fun c hc => h c (List.mem_cons_of_mem _ hc)]

theorem filter_placeAll_of_pos (key : ByKey before) {p : α → Bool} {added : List α}
    (h : ∀ a ∈ added, p a = true) {items : List α} (horder : InOrder before items) :
    (placeAll before added items).filter p = placeAll before added (items.filter p) := by
  induction added generalizing items with
  | nil => rfl
  | cons a rest ih =>
    rw [placeAll_cons, placeAll_cons, ih (fun b hb => h b (List.mem_cons_of_mem _ hb))
      (horder.place key a), filter_place_of_pos key (h a (List.mem_cons_self ..)) horder]

/-! ## Sorting -/

/-- Two lists in order with the same items, none of which tie, are the same list. -/
theorem InOrder.eq_of_perm {items others : List α} (h : InOrder before items)
    (hstrict : others.Pairwise fun a b => before a b = true) (hperm : items.Perm others) :
    items = others := by
  induction others generalizing items with
  | nil => exact List.perm_nil.mp hperm
  | cons b rest ih =>
    obtain ⟨hb, hrest⟩ := List.pairwise_cons.mp hstrict
    cases items with
    | nil => exact (List.not_perm_nil_cons _ _ hperm).elim
    | cons a items =>
      obtain ⟨ha, hitems⟩ := List.pairwise_cons.mp h
      have hab : a = b := by
        rcases List.mem_cons.mp (hperm.mem_iff.mp (List.mem_cons_self ..)) with hab | hmem
        · exact hab
        · rcases List.mem_cons.mp (hperm.mem_iff.mpr (List.mem_cons_self ..)) with hba | hmem'
          · exact hba.symm
          · have h1 := hb a hmem
            have h2 := ha b hmem'
            rw [h1] at h2
            cases h2
      subst hab
      rw [ih hitems hrest ((List.perm_cons a).mp hperm)]

theorem sort_eq_of_perm (key : ByKey before) {items others : List α}
    (hstrict : others.Pairwise fun a b => before a b = true) (hperm : items.Perm others) :
    sort before items = others :=
  InOrder.eq_of_perm (InOrder.placeAll key items List.Pairwise.nil) hstrict
    ((sort_perm before items).trans hperm)

end Ordered

/-! ## Instants -/

namespace Time

protected theorem le_refl (t : Time) : t ≤ t := Nat.le_refl _

protected theorem le_trans {a b c : Time} (hab : a ≤ b) (hbc : b ≤ c) : a ≤ c :=
  Nat.le_trans hab hbc

protected theorem le_antisymm {a b : Time} (hab : a ≤ b) (hba : b ≤ a) : a = b :=
  Time.ext (Nat.le_antisymm hab hba)

theorem eq_never {t : Time} (h : never ≤ t) : t = never := Time.le_antisymm (le_never t) h

theorem lt_irrefl_of_le {a b : Time} (h : a ≤ b) : ¬ b < a := Nat.not_lt.mpr h

protected theorem lt_of_le_of_lt {a b c : Time} (hab : a ≤ b) (hbc : b < c) : a < c :=
  Nat.lt_of_le_of_lt hab hbc

theorem lt_never {t : Time} (h : t ≠ never) : t < never :=
  Nat.lt_of_le_of_ne (le_never t) fun heq => h (Time.ext heq)

theorem ne_never_of_lt {a b : Time} (h : a < b) : a ≠ never := by
  rintro rfl
  exact lt_irrefl_of_le (le_never b) h

/-- Short of the end of time a delay leads to a later instant. -/
theorem lt_after_of_pos {t : Time} (h : t ≠ never) {duration : Nat} (hpos : 1 ≤ duration) :
    t < t.after duration := by
  have hlt := lt_never h
  simp only [lt_def, ticks_never, ticks_after] at *
  omega

theorem after_mono {a b : Time} {l m : Nat} (hab : a ≤ b) (hlm : l ≤ m) :
    a.after l ≤ b.after m := by
  simp only [le_def, ticks_after] at *
  omega

theorem foldl_min_le (times : List Time) (t : Time) :
    times.foldl min t ≤ t ∧ ∀ u ∈ times, times.foldl min t ≤ u := by
  induction times generalizing t with
  | nil => exact ⟨Time.le_refl t, by simp⟩
  | cons v rest ih =>
    obtain ⟨hmin, hrest⟩ := ih (min t v)
    have hleft : min t v ≤ t := by
      rw [le_def, ticks_min]
      omega
    have hright : min t v ≤ v := by
      rw [le_def, ticks_min]
      omega
    refine ⟨Time.le_trans hmin hleft, ?_⟩
    intro u hu
    rcases List.mem_cons.mp hu with rfl | hu
    · exact Time.le_trans hmin hright
    · exact hrest u hu

/-- The least of several instants is one of them, unless it is never. -/
theorem foldl_min_mem {times : List Time} {t : Time} (h : times.foldl min t ≠ t) :
    times.foldl min t ∈ times := by
  induction times generalizing t with
  | nil => exact absurd rfl h
  | cons u rest ih =>
    rw [List.foldl_cons] at h ⊢
    by_cases hrest : rest.foldl min (min t u) = min t u
    · have hmin : min t u = t ∨ min t u = u := by
        show (if t ≤ u then t else u) = t ∨ (if t ≤ u then t else u) = u
        split
        · exact Or.inl rfl
        · exact Or.inr rfl
      rcases hmin with hmin | hmin
      · exact absurd (hrest.trans hmin) h
      · rw [hrest, hmin]
        exact List.mem_cons_self ..
    · exact List.mem_cons_of_mem _ (ih hrest)

theorem le_foldl_min {times : List Time} {t b : Time} (ht : b ≤ t) (h : ∀ u ∈ times, b ≤ u) :
    b ≤ times.foldl min t := by
  induction times generalizing t with
  | nil => exact ht
  | cons v rest ih =>
    refine ih ?_ fun u hu => h u (List.mem_cons_of_mem _ hu)
    have hv := h v (List.mem_cons_self ..)
    rw [le_def] at *
    rw [ticks_min]
    omega

end Time

/-! ## Activities -/

namespace Activity

variable {α : Type}

theorem before_iff {a b : Activity α} :
    a.before b = true ↔
      a.time.ticks < b.time.ticks ∨ a.time.ticks = b.time.ticks ∧ a.priority < b.priority := by
  simp [Activity.before, Time.lt_def, Time.ext_iff]

theorem not_before_iff {a b : Activity α} :
    a.before b = false ↔
      b.time.ticks < a.time.ticks ∨ b.time.ticks = a.time.ticks ∧ b.priority ≤ a.priority := by
  rw [← Bool.not_eq_true, before_iff]
  omega

theorem before_byKey : Ordered.ByKey (Activity.before (α := α)) where
  asymm a b h := by
    rw [before_iff] at h
    rw [not_before_iff]
    omega
  chain a b c hba hcb := by
    rw [not_before_iff] at *
    omega

theorem time_le_of_not_before {a b : Activity α} (h : b.before a = false) : a.time ≤ b.time := by
  rw [not_before_iff] at h
  rw [Time.le_def]
  omega

theorem le_notBefore (a : Activity α) (now : Time) : now ≤ (a.notBefore now).time := by
  show now.ticks ≤ (max now a.time).ticks
  rw [Time.ticks_max]
  exact Nat.le_max_left ..

theorem notBefore_eq_self {a : Activity α} {now : Time} (h : now ≤ a.time) :
    a.notBefore now = a := by
  have hmax : max now a.time = a.time := by
    apply Time.ext
    rw [Time.ticks_max]
    rw [Time.le_def] at h
    omega
  simp only [notBefore, hmax]

end Activity

end Lookahead
