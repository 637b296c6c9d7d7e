/-!
Totals: a figure summed over a list.
-/

namespace Lookahead

variable {α β : Type}

/-- The sum of `figure` over a list. -/
def total (figure : α → Nat) : List α → Nat
  | [] => 0
  | a :: rest => figure a + total figure rest

@[simp] theorem total_nil (figure : α → Nat) : total figure [] = 0 := rfl

@[simp] theorem total_cons (figure : α → Nat) (a : α) (items : List α) :
    total figure (a :: items) = figure a + total figure items := rfl

@[simp] theorem total_append (figure : α → Nat) (front back : List α) :
    total figure (front ++ back) = total figure front + total figure back := by
  induction front with
  | nil => simp
  | cons a rest ih => simp [ih, Nat.add_assoc]

theorem total_pos_iff {figure : α → Nat} {items : List α} :
    0 < total figure items ↔ ∃ a ∈ items, 0 < figure a := by
  induction items with
  | nil => simp
  | cons a items ih =>
    simp only [total_cons, List.mem_cons, or_and_right, exists_or, exists_eq_left, ← ih]
    omega

theorem total_congr {f g : α → Nat} {items : List α} (h : ∀ a ∈ items, f a = g a) :
    total f items = total g items := by
  induction items with
  | nil => rfl
  | cons a rest ih =>
    rw [total_cons, total_cons, h a (List.mem_cons_self ..),
      ih fun b hb => h b (List.mem_cons_of_mem _ hb)]

theorem total_mono {f g : α → Nat} {items : List α} (h : ∀ a ∈ items, f a ≤ g a) :
    total f items ≤ total g items := by
  induction items with
  | nil => exact Nat.le_refl 0
  | cons a rest ih =>
    exact Nat.add_le_add (h a (List.mem_cons_self ..))
      (ih fun b hb => h b (List.mem_cons_of_mem _ hb))

/-- Two totals compare as their figures do place by place. -/
theorem total_congr_of_getElem? {f : α → Nat} {g : β → Nat} {items : List α} {others : List β}
    (hlength : items.length = others.length)
    (h : ∀ (j : Nat) (a : α) (b : β), items[j]? = some a → others[j]? = some b → f a = g b) :
    total f items = total g others := by
  induction items generalizing others with
  | nil =>
    obtain rfl := List.length_eq_zero_iff.mp hlength.symm
    rfl
  | cons a items ih =>
    cases others with
    | nil => cases hlength
    | cons b others =>
      rw [total_cons, total_cons, h 0 a b rfl rfl,
        ih (Nat.succ.inj hlength) fun j x y hx hy => h (j + 1) x y hx hy]

theorem total_lt_of_getElem? {f : α → Nat} {g : β → Nat} {items : List α} {others : List β}
    (hlength : items.length = others.length) (hne : items ≠ [])
    (h : ∀ (j : Nat) (a : α) (b : β), items[j]? = some a → others[j]? = some b → f a < g b) :
    total f items < total g others := by
  induction items generalizing others with
  | nil => exact absurd rfl hne
  | cons a items ih =>
    cases others with
    | nil => cases hlength
    | cons b others =>
      have hfirst := h 0 a b rfl rfl
      have hrest : total f items ≤ total g others := by
        cases items with
        | nil => exact Nat.zero_le _
        | cons c items =>
          exact Nat.le_of_lt (ih (Nat.succ.inj hlength) nofun
            fun j x y hx hy => h (j + 1) x y hx hy)
      exact Nat.add_lt_add_of_lt_of_le hfirst hrest

theorem total_set_add (figure : α → Nat) {items : List α} {i : Nat} {a : α}
    (hi : items[i]? = some a) (b : α) :
    total figure (items.set i b) + figure a = total figure items + figure b := by
  induction items generalizing i with
  | nil => cases hi
  | cons c items ih =>
    cases i with
    | zero =>
      cases hi
      simp only [List.set_cons_zero, total_cons]
      omega
    | succ i =>
      have := ih hi
      simp only [List.set_cons_succ, total_cons]
      omega

theorem total_set {figure : α → Nat} {items : List α} {i : Nat} {a b : α}
    (hi : items[i]? = some a) (h : figure b = figure a) :
    total figure (items.set i b) = total figure items := by
  have hset := total_set_add figure hi b
  omega

theorem total_le {figure : α → Nat} {items : List α} {bound : Nat}
    (h : ∀ a ∈ items, figure a ≤ bound) : total figure items ≤ items.length * bound := by
  induction items with
  | nil => exact Nat.zero_le _
  | cons a rest ih =>
    rw [total_cons, List.length_cons, Nat.succ_mul, Nat.add_comm]
    exact Nat.add_le_add (ih fun b hb => h b (List.mem_cons_of_mem _ hb))
      (h a (List.mem_cons_self ..))

theorem total_const (figure : Nat) (items : List α) :
    total (fun _ => figure) items = items.length * figure := by
  induction items with
  | nil => exact (Nat.zero_mul _).symm
  | cons a rest ih => rw [total_cons, ih, List.length_cons, Nat.succ_mul, Nat.add_comm]

theorem total_replicate (figure : α → Nat) (n : Nat) (a : α) :
    total figure (List.replicate n a) = n * figure a := by
  induction n with
  | zero => exact (Nat.zero_mul _).symm
  | succ n ih => rw [List.replicate_succ, total_cons, ih, Nat.succ_mul, Nat.add_comm]

theorem total_zero (items : List α) : total (fun _ => 0) items = 0 := by
  induction items with
  | nil => rfl
  | cons a rest ih => rw [total_cons, ih]

theorem total_add (f g : α → Nat) (items : List α) :
    total (fun a => f a + g a) items = total f items + total g items := by
  induction items with
  | nil => rfl
  | cons a rest ih =>
    simp only [total_cons, ih]
    omega

theorem total_comm (f : α → β → Nat) (items : List α) (others : List β) :
    total (fun a => total (f a) others) items =
      total (fun b => total (fun a => f a b) items) others := by
  induction items with
  | nil => exact (total_zero others).symm
  | cons a rest ih =>
    simp only [total_cons, ih]
    exact (total_add ..).symm

theorem length_eq_total (items : List α) : items.length = total (fun _ => 1) items := by
  induction items with
  | nil => rfl
  | cons a rest ih =>
    rw [List.length_cons, total_cons, ih]
    omega

theorem total_map (f : β → Nat) (g : α → β) (items : List α) :
    total f (items.map g) = total (fun a => f (g a)) items := by
  induction items with
  | nil => rfl
  | cons a rest ih => rw [List.map_cons, total_cons, total_cons, ih]

theorem total_perm (figure : α → Nat) {items others : List α} (h : items.Perm others) :
    total figure items = total figure others := by
  induction h with
  | nil => rfl
  | cons a _ ih => rw [total_cons, total_cons, ih]
  | swap a b rest =>
    simp only [total_cons]
    omega
  | trans _ _ ih ih' => exact ih.trans ih'

theorem total_flatMap (f : β → Nat) (g : α → List β) (items : List α) :
    total f (items.flatMap g) = total (fun a => total f (g a)) items := by
  induction items with
  | nil => rfl
  | cons a rest ih => rw [List.flatMap_cons, total_append, total_cons, ih]

/-! ## Positions -/

theorem total_range_succ (f : Nat → Nat) (n : Nat) :
    total f (List.range (n + 1)) = total f (List.range n) + f n := by
  rw [List.range_succ, total_append, total_cons, total_nil, Nat.add_zero]

/-- A total over a list is a total over its positions. -/
theorem total_eq_range {f : α → Nat} {g : Nat → Nat} (items : List α)
    (h : ∀ (j : Nat) (a : α), items[j]? = some a → f a = g j) :
    total f items = total g (List.range items.length) := by
  induction items generalizing g with
  | nil => rfl
  | cons a rest ih =>
    have hrest : ∀ (j : Nat) (b : α), rest[j]? = some b → f b = g (j + 1) :=
      fun j b hj => h (j + 1) b hj
    rw [List.length_cons, List.range_succ_eq_map, total_cons, total_cons, total_map, ih hrest,
      h 0 a rfl]

/-- A total to which only one position adds anything. -/
theorem total_single {k n : Nat} (hk : k < n) (figure : Nat) :
    total (fun j => if k = j then figure else 0) (List.range n) = figure := by
  induction n with
  | zero => omega
  | succ n ih =>
    rw [total_range_succ]
    by_cases hkn : k = n
    · subst hkn
      have hbelow : ∀ j ∈ List.range k, (if k = j then figure else 0) = 0 := by
        intro j hj
        have hlt := List.mem_range.mp hj
        rw [if_neg (by omega)]
      rw [total_congr hbelow, total_zero, if_pos rfl, Nat.zero_add]
    · rw [ih (by omega), if_neg hkn, Nat.add_zero]

/-- Sorting items by a number below `n` leaves none of them out. -/
theorem total_filter (key figure : α → Nat) {n : Nat} (items : List α)
    (h : ∀ a ∈ items, key a < n) :
    total (fun j => total figure (items.filter fun a => key a == j)) (List.range n) =
      total figure items := by
  induction items with
  | nil => exact total_zero _
  | cons a rest ih =>
    have hsplit : ∀ j, total figure ((a :: rest).filter fun a => key a == j) =
        total figure (rest.filter fun a => key a == j) + if key a = j then figure a else 0 := by
      intro j
      by_cases hj : key a = j
      · rw [List.filter_cons_of_pos (by simpa using hj), if_pos hj, total_cons, Nat.add_comm]
      · rw [List.filter_cons_of_neg (by simpa using hj), if_neg hj, Nat.add_zero]
    rw [total_congr fun j _ => hsplit j, total_add, ih fun b hb => h b (List.mem_cons_of_mem _ hb),
      total_single (h a (List.mem_cons_self ..)), total_cons, Nat.add_comm]

end Lookahead
