import Lookahead.Proofs.Lanes

/-!
Ties: activities of one time and priority.

Among the activities that tie an agenda is first in, first out. What is put on it goes behind all of
them that are there already (`Timeline.filter_ties_addAll`), and what is not among them makes no
difference to their order.
-/

namespace Lookahead

namespace Ordered

/-- What comes before nothing is put at the end. -/
theorem place_eq_append {α : Type} {before : α → α → Bool} {a : α} {items : List α}
    (h : ∀ b ∈ items, before a b = false) : place before a items = items ++ [a] := by
  induction items with
  | nil => rfl
  | cons b rest ih =>
    unfold place
    rw [if_neg (by simp [h b (List.mem_cons_self ..)]),
      ih fun c hc => h c (List.mem_cons_of_mem _ hc)]
    rfl

end Ordered

namespace Activity

variable {α : Type}

theorem ties_iff {a b : Activity α} :
    a.ties b = true ↔ a.time = b.time ∧ a.priority = b.priority := by
  simp [ties]

@[simp] theorem ties_self (a : Activity α) : a.ties a = true := ties_iff.mpr ⟨rfl, rfl⟩

/-- Two that tie with a third come in no order. -/
theorem not_before_of_ties {x a b : Activity α} (ha : x.ties a = true) (hb : x.ties b = true) :
    a.before b = false := by
  rw [ties_iff] at ha hb
  rw [not_before_iff, ← ha.1, ← hb.1, ← ha.2, ← hb.2]
  exact Or.inr ⟨rfl, Int.le_refl _⟩

theorem filter_ties_place (x a : Activity α) {items : List (Activity α)}
    (horder : Ordered.InOrder before items) :
    (Ordered.place before a items).filter x.ties =
      items.filter x.ties ++ [a].filter x.ties := by
  cases ha : x.ties a with
  | false =>
    rw [Ordered.filter_place_of_neg ha, List.filter_cons_of_neg (by simp [ha]), List.filter_nil,
      List.append_nil]
  | true =>
    rw [Ordered.filter_place_of_pos before_byKey ha horder, List.filter_cons_of_pos ha,
      List.filter_nil]
    exact Ordered.place_eq_append fun b hb => not_before_of_ties ha (List.mem_filter.mp hb).2

theorem filter_ties_placeAll (x : Activity α) (added : List (Activity α))
    {items : List (Activity α)} (horder : Ordered.InOrder before items) :
    (Ordered.placeAll before added items).filter x.ties =
      items.filter x.ties ++ added.filter x.ties := by
  induction added generalizing items with
  | nil => simp
  | cons a rest ih =>
    rw [Ordered.placeAll_cons, ih (Ordered.InOrder.place before_byKey a horder),
      filter_ties_place x a horder, List.append_assoc, ← List.filter_append]
    rfl

end Activity

/-- What is put on an agenda goes behind everything there of the same time and priority. -/
theorem Timeline.filter_ties_addAll {π : Type} {timeline : Timeline π} (horder : timeline.InOrder)
    (x : Scheduled π) (added : List (Scheduled π)) :
    (timeline.addAll added).agenda.filter x.ties =
      timeline.agenda.filter x.ties ++ (added.map Activity.unnumbered).filter x.ties := by
  rw [agenda_addAll]
  exact Activity.filter_ties_placeAll x _ horder

end Lookahead
