/-!
Lists kept in order by putting each new item behind its equals.

`place` is one insertion and `sort` is a stable sort made of insertions: both keep every item, and
items that tie keep the order in which they came.
-/

namespace Lookahead.Ordered

variable {α : Type}

/-- Put `a` in front of the first item that it comes strictly before. -/
def place (before : α → α → Bool) (a : α) : List α → List α
  | [] => [a]
  | b :: rest => if before a b then a :: b :: rest else b :: place before a rest

/-- Sort by placing the items one after another, so that ties keep their order. -/
def sort (before : α → α → Bool) (items : List α) : List α :=
  items.foldl (fun sorted a => place before a sorted) []

theorem place_perm (before : α → α → Bool) (a : α) (items : List α) :
    (place before a items).Perm (a :: items) := by
  induction items with
  | nil => exact List.Perm.refl _
  | cons b rest ih =>
    unfold place
    split
    · exact List.Perm.refl _
    · exact (ih.cons b).trans (List.Perm.swap a b rest)

@[simp] theorem mem_place {before : α → α → Bool} {a b : α} {items : List α} :
    b ∈ place before a items ↔ b = a ∨ b ∈ items := by
  simpa using (place_perm before a items).mem_iff (a := b)

private theorem foldl_place_perm (before : α → α → Bool) (items sorted : List α) :
    (items.foldl (fun sorted a => place before a sorted) sorted).Perm (items ++ sorted) := by
  induction items generalizing sorted with
  | nil => exact List.Perm.refl _
  | cons a rest ih =>
    exact (ih _).trans (((place_perm before a sorted).append_left rest).trans List.perm_middle)

theorem sort_perm (before : α → α → Bool) (items : List α) :
    (sort before items).Perm items := by
  simpa [sort] using foldl_place_perm before items []

end Lookahead.Ordered
