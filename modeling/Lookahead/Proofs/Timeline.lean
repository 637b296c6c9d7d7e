import Lookahead.Proofs.Order
import Lookahead.Schedule.Timeline

/-!
What a timeline has on its agenda: the pending activities in the order of dispatch, whatever numbers
they were queued under.

A timeline moves on when it takes at most one activity, which is not due in its past, and then
queues others that are not due in its past either.
-/

namespace Lookahead

variable {π : Type}

def Action.isWork : Action π → Bool
  | .deliver _ => true
  | .clock _ => true
  | _ => false

def Activity.unnumbered {α : Type} (a : Activity α) : Activity α := { a with seq := 0 }

section

variable {α : Type}

@[simp] theorem Activity.time_unnumbered (a : Activity α) : a.unnumbered.time = a.time := rfl

@[simp] theorem Activity.priority_unnumbered (a : Activity α) :
    a.unnumbered.priority = a.priority := rfl

@[simp] theorem Activity.payload_unnumbered (a : Activity α) :
    a.unnumbered.payload = a.payload := rfl

@[simp] theorem Activity.before_unnumbered (a b : Activity α) :
    a.unnumbered.before b.unnumbered = a.before b := rfl

theorem map_unnumbered_place (a b : Activity α) (h : a.unnumbered = b.unnumbered)
    (items : List (Activity α)) :
    (Ordered.place Activity.before a items).map Activity.unnumbered =
      Ordered.place Activity.before b.unnumbered (items.map Activity.unnumbered) := by
  induction items with
  | nil => simp [Ordered.place, h]
  | cons c rest ih =>
    have hac : a.before c = b.unnumbered.before c.unnumbered := by
      rw [← h, Activity.before_unnumbered]
    simp only [Ordered.place, List.map_cons, hac]
    split
    · simp [h]
    · simp [ih]

end

namespace Timeline

/-- What is pending, in the order of dispatch and without numbers. -/
def agenda (timeline : Timeline π) : List (Scheduled π) :=
  timeline.queue.entries.map Activity.unnumbered

def InOrder (timeline : Timeline π) : Prop :=
  Ordered.InOrder Activity.before timeline.agenda

@[simp] theorem agenda_empty : (({} : Timeline π)).agenda = [] := rfl

theorem agenda_add (timeline : Timeline π) (a : Scheduled π) :
    (timeline.add a).agenda = Ordered.place Activity.before a.unnumbered timeline.agenda :=
  map_unnumbered_place _ _ rfl _

@[simp] theorem mem_agenda_add {timeline : Timeline π} {a x : Scheduled π} :
    x ∈ (timeline.add a).agenda ↔ x = a.unnumbered ∨ x ∈ timeline.agenda := by
  rw [agenda_add, Ordered.mem_place]

theorem InOrder.add {timeline : Timeline π} (h : timeline.InOrder) (a : Scheduled π) :
    (timeline.add a).InOrder := by
  unfold InOrder
  rw [agenda_add]
  exact Ordered.InOrder.place Activity.before_byKey _ h

/-! ## Several activities -/

@[simp] theorem addAll_nil (timeline : Timeline π) : timeline.addAll [] = timeline := rfl

@[simp] theorem addAll_cons (timeline : Timeline π) (a : Scheduled π)
    (rest : List (Scheduled π)) :
    timeline.addAll (a :: rest) = (timeline.add a).addAll rest := rfl

theorem addAll_append (timeline : Timeline π) (front back : List (Scheduled π)) :
    timeline.addAll (front ++ back) = (timeline.addAll front).addAll back :=
  List.foldl_append ..

@[simp] theorem now_addAll (timeline : Timeline π) (added : List (Scheduled π)) :
    (timeline.addAll added).now = timeline.now := by
  induction added generalizing timeline with
  | nil => rfl
  | cons a rest ih => rw [addAll_cons, ih, now_add]

@[simp] theorem priority_addAll (timeline : Timeline π) (added : List (Scheduled π)) :
    (timeline.addAll added).priority = timeline.priority := by
  induction added generalizing timeline with
  | nil => rfl
  | cons a rest ih => rw [addAll_cons, ih, priority_add]

theorem agenda_addAll (timeline : Timeline π) (added : List (Scheduled π)) :
    (timeline.addAll added).agenda =
      Ordered.placeAll Activity.before (added.map Activity.unnumbered) timeline.agenda := by
  induction added generalizing timeline with
  | nil => rfl
  | cons a rest ih => rw [addAll_cons, ih, agenda_add, List.map_cons, Ordered.placeAll_cons]

theorem agenda_addAll_perm (timeline : Timeline π) (added : List (Scheduled π)) :
    (timeline.addAll added).agenda.Perm (added.map Activity.unnumbered ++ timeline.agenda) := by
  rw [agenda_addAll]
  exact Ordered.placeAll_perm _ _

theorem mem_agenda_addAll {timeline : Timeline π} {added : List (Scheduled π)}
    {x : Scheduled π} :
    x ∈ (timeline.addAll added).agenda ↔
      (∃ a ∈ added, x = a.unnumbered) ∨ x ∈ timeline.agenda := by
  rw [(agenda_addAll_perm timeline added).mem_iff, List.mem_append, List.mem_map]
  simp only [eq_comm]

theorem InOrder.addAll {timeline : Timeline π} (h : timeline.InOrder)
    (added : List (Scheduled π)) : (timeline.addAll added).InOrder := by
  unfold InOrder
  rw [agenda_addAll]
  exact Ordered.InOrder.placeAll Activity.before_byKey _ h

/-- What does not pass a filter leaves the rest of the agenda alone. -/
theorem filter_agenda_addAll {p : Scheduled π → Bool} (timeline : Timeline π)
    {added : List (Scheduled π)} (h : ∀ a ∈ added, p a.unnumbered = false) :
    (timeline.addAll added).agenda.filter p = timeline.agenda.filter p := by
  induction added generalizing timeline with
  | nil => rfl
  | cons a rest ih =>
    rw [addAll_cons, ih _ fun b hb => h b (List.mem_cons_of_mem _ hb), agenda_add,
      Ordered.filter_place_of_neg (h a (List.mem_cons_self ..))]

/-! ## The next activity -/

/-- Move on to the instant of `a`, with `rest` still to come. -/
def afterTaking (timeline : Timeline π) (a : Scheduled π) (rest : List (Scheduled π)) :
    Timeline π where
  queue := { timeline.queue with entries := rest }
  now := a.time
  priority := a.priority

theorem advance_eq_ok_iff {timeline next : Timeline π} {a : Scheduled π} :
    timeline.advance = .ok (a, next) ↔
      ∃ rest, timeline.queue.entries = a :: rest ∧ next = timeline.afterTaking a rest := by
  unfold advance Queue.pop
  cases h : timeline.queue.entries with
  | nil => simp
  | cons b rest =>
    simp only [Except.ok.injEq, Prod.mk.injEq, List.cons.injEq]
    constructor
    · rintro ⟨rfl, rfl⟩
      exact ⟨rest, ⟨rfl, rfl⟩, rfl⟩
    · rintro ⟨_, ⟨rfl, rfl⟩, rfl⟩
      exact ⟨rfl, rfl⟩

theorem agenda_of_advance {timeline next : Timeline π} {a : Scheduled π}
    (h : timeline.advance = .ok (a, next)) :
    timeline.agenda = a.unnumbered :: next.agenda ∧ next.now = a.time ∧
      next.priority = a.priority := by
  obtain ⟨rest, hentries, rfl⟩ := advance_eq_ok_iff.mp h
  refine ⟨?_, rfl, rfl⟩
  simp [agenda, hentries, afterTaking]

theorem isEmpty_iff {timeline : Timeline π} : timeline.isEmpty = true ↔ timeline.agenda = [] := by
  simp [isEmpty, Queue.isEmpty, agenda]

theorem advance_of_agenda_cons {timeline : Timeline π} {a : Scheduled π}
    {rest : List (Scheduled π)} (h : timeline.agenda = a :: rest) :
    ∃ b next, timeline.advance = .ok (b, next) ∧ b.unnumbered = a ∧ next.agenda = rest := by
  cases hentries : timeline.queue.entries with
  | nil => simp [agenda, hentries] at h
  | cons b others =>
    simp only [agenda, hentries, List.map_cons, List.cons.injEq] at h
    exact ⟨b, timeline.afterTaking b others, advance_eq_ok_iff.mpr ⟨others, hentries, rfl⟩,
      h.1, h.2⟩

theorem nextTime_of_agenda_nil {timeline : Timeline π} (h : timeline.agenda = []) :
    timeline.nextTime = Time.never := by
  have hentries : timeline.queue.entries = [] := by simpa [agenda] using h
  simp [nextTime, Queue.nextTime?, Queue.peek?, hentries]

theorem nextTime_of_agenda_cons {timeline : Timeline π} {a : Scheduled π}
    {rest : List (Scheduled π)} (h : timeline.agenda = a :: rest) :
    timeline.nextTime = a.time := by
  cases hentries : timeline.queue.entries with
  | nil => simp [agenda, hentries] at h
  | cons b others =>
    simp only [agenda, hentries, List.map_cons, List.cons.injEq] at h
    simp [nextTime, Queue.nextTime?, Queue.peek?, hentries, ← h.1]

theorem InOrder.head_not_after {timeline : Timeline π} (h : timeline.InOrder)
    {a : Scheduled π} {rest : List (Scheduled π)} (hagenda : timeline.agenda = a :: rest) :
    ∀ b ∈ rest, b.before a = false := by
  unfold InOrder at h
  rw [hagenda] at h
  exact (List.pairwise_cons.mp h).1

theorem InOrder.nextTime_le {timeline : Timeline π} (h : timeline.InOrder) :
    ∀ a ∈ timeline.agenda, timeline.nextTime ≤ a.time := by
  intro a ha
  cases hagenda : timeline.agenda with
  | nil => simp [hagenda] at ha
  | cons b rest =>
    rw [nextTime_of_agenda_cons hagenda]
    rw [hagenda] at ha
    rcases List.mem_cons.mp ha with rfl | ha
    · exact Nat.le_refl _
    · exact Activity.time_le_of_not_before (h.head_not_after hagenda a ha)

theorem InOrder.of_advance {timeline next : Timeline π} {a : Scheduled π}
    (horder : timeline.InOrder) (h : timeline.advance = .ok (a, next)) : next.InOrder := by
  have hagenda := (agenda_of_advance h).1
  unfold InOrder at *
  rw [hagenda] at horder
  exact (List.pairwise_cons.mp horder).2

/-! ## Moving on -/

/-- Nothing on the agenda is due before the present instant. -/
def Current (timeline : Timeline π) : Prop := ∀ a ∈ timeline.agenda, timeline.now ≤ a.time

/-- `after` is what became of `before` by taking at most the next activity and then queueing others,
and nothing that was taken or queued was due in the past of the timeline. -/
def MovesOn (before after : Timeline π) : Prop :=
  ∃ (middle : Timeline π) (added : List (Scheduled π)),
    (middle = before ∨
      ∃ a, before.advance = .ok (a, middle) ∧ before.now ≤ a.time) ∧
    after = middle.addAll added ∧ ∀ a ∈ added, middle.now ≤ a.time

theorem MovesOn.refl (timeline : Timeline π) : timeline.MovesOn timeline :=
  ⟨timeline, [], Or.inl rfl, rfl, by simp⟩

theorem MovesOn.now_le {before after : Timeline π} (h : before.MovesOn after) :
    before.now ≤ after.now := by
  obtain ⟨middle, added, hmiddle, rfl, _⟩ := h
  rw [now_addAll]
  rcases hmiddle with rfl | ⟨a, hadvance, hle⟩
  · exact Nat.le_refl _
  · rw [(agenda_of_advance hadvance).2.1]
    exact hle

theorem Current.addAll {timeline : Timeline π} (h : timeline.Current)
    {added : List (Scheduled π)} (hadded : ∀ a ∈ added, timeline.now ≤ a.time) :
    (timeline.addAll added).Current := by
  intro x hx
  rw [now_addAll]
  rcases mem_agenda_addAll.mp hx with ⟨a, ha, rfl⟩ | hx
  · exact hadded a ha
  · exact h x hx

theorem Current.of_advance {timeline next : Timeline π} {a : Scheduled π}
    (horder : timeline.InOrder) (h : timeline.advance = .ok (a, next)) : next.Current := by
  obtain ⟨hagenda, hnow, _⟩ := agenda_of_advance h
  intro b hb
  rw [hnow]
  exact Activity.time_le_of_not_before (horder.head_not_after hagenda b hb)

end Timeline

end Lookahead
