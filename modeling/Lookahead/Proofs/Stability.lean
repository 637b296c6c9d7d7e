import Lookahead.Proofs.Order
import Mathlib.Data.List.Sort
import Mathlib.Data.Multiset.MapFold
import Mathlib.Data.Prod.Lex
import Mathlib.Order.Lattice

/-!
The queue of activities is a stable priority queue.

The reference is a list of activities in the order of their arrival. Whatever a queue is asked to
do, one request after another, it answers as the list does (`Queue.answers_eq_arrivals`): among
those that are due first the one that came first leaves, numbered by the arrivals before its own. A
max-heap answers in the same way if it compares activities by time, priority and number, the other
way round.
-/

namespace Lookahead

variable {α σ τ : Type}

/-! ## Requests and answers -/

/-- What can be asked of a queue. -/
inductive Queue.Request (α : Type) where
  | insert (a : Activity α)
  /-- Put back what was taken out as the `n`-th, if there was one. -/
  | again (n : Nat)
  | pop
  | peek
  | size
  | visit
  | total

/-- What a queue says to a request. -/
inductive Queue.Answer (α : Type) where
  | done
  | popped (taken : Except QueueError (Activity α))
  | peeked (next : Option (Activity α))
  | counted (n : Nat)
  | visited (items : Multiset (Activity α))

/-- A way to keep activities, with `σ` for its states. -/
structure Keeper (α σ : Type) where
  start : σ
  insert : σ → Activity α → σ
  pop : σ → Except QueueError (Activity α × σ)
  peek? : σ → Option (Activity α)
  size : σ → Nat
  items : σ → Multiset (Activity α)
  total : σ → Nat

namespace Keeper

/-- Serve one request, where `popped` is what was taken out so far. -/
def serve (keeper : Keeper α σ) (state : σ) (popped : List (Activity α)) :
    Queue.Request α → Queue.Answer α × σ × List (Activity α)
  | .insert a => (.done, keeper.insert state a, popped)
  | .again n =>
    match popped[n]? with
    | none => (.done, state, popped)
    | some a => (.done, keeper.insert state a, popped)
  | .pop =>
    match keeper.pop state with
    | .error e => (.popped (.error e), state, popped)
    | .ok (a, next) => (.popped (.ok a), next, popped ++ [a])
  | .peek => (.peeked (keeper.peek? state), state, popped)
  | .size => (.counted (keeper.size state), state, popped)
  | .visit => (.visited (keeper.items state), state, popped)
  | .total => (.counted (keeper.total state), state, popped)

def answersFrom (keeper : Keeper α σ) (state : σ) (popped : List (Activity α)) :
    List (Queue.Request α) → List (Queue.Answer α)
  | [] => []
  | request :: rest =>
    let (answer, next, popped) := keeper.serve state popped request
    answer :: keeper.answersFrom next popped rest

def answers (keeper : Keeper α σ) (requests : List (Queue.Request α)) : List (Queue.Answer α) :=
  keeper.answersFrom keeper.start [] requests

/-- Two keepers take the same: both nothing, or one activity after which `R` holds. -/
def TakeAlike (R : σ → τ → Prop) (taken : Except QueueError (Activity α × σ))
    (taken' : Except QueueError (Activity α × τ)) : Prop :=
  (∃ e, taken = .error e ∧ taken' = .error e) ∨
    ∃ a next next', taken = .ok (a, next) ∧ taken' = .ok (a, next') ∧ R next next'

/-- Keepers whose states are related by `R` cannot be told apart. -/
structure Agrees (keeper : Keeper α σ) (other : Keeper α τ) (R : σ → τ → Prop) : Prop where
  start : R keeper.start other.start
  insert : ∀ {s t}, R s t → ∀ a, R (keeper.insert s a) (other.insert t a)
  pop : ∀ {s t}, R s t → TakeAlike R (keeper.pop s) (other.pop t)
  peek : ∀ {s t}, R s t → keeper.peek? s = other.peek? t
  size : ∀ {s t}, R s t → keeper.size s = other.size t
  items : ∀ {s t}, R s t → keeper.items s = other.items t
  total : ∀ {s t}, R s t → keeper.total s = other.total t

variable {keeper : Keeper α σ} {other : Keeper α τ} {R : σ → τ → Prop}

/-- One request is answered alike, with the same taken out and related states behind it. -/
theorem Agrees.serve (h : keeper.Agrees other R) {s : σ} {t : τ} (hst : R s t)
    (popped : List (Activity α)) (request : Queue.Request α) :
    (keeper.serve s popped request).1 = (other.serve t popped request).1 ∧
      R (keeper.serve s popped request).2.1 (other.serve t popped request).2.1 ∧
      (keeper.serve s popped request).2.2 = (other.serve t popped request).2.2 := by
  cases request with
  | insert a => exact ⟨rfl, h.insert hst a, rfl⟩
  | again n =>
    simp only [Keeper.serve]
    cases popped[n]? with
    | none => exact ⟨rfl, hst, rfl⟩
    | some a => exact ⟨rfl, h.insert hst a, rfl⟩
  | pop =>
    obtain ⟨e, hs, ht⟩ | ⟨a, next, next', hs, ht, hnext⟩ := h.pop hst
    · simp only [Keeper.serve, hs, ht, and_true, true_and]
      exact hst
    · simp only [Keeper.serve, hs, ht, and_true, true_and]
      exact hnext
  | peek => exact ⟨congrArg Queue.Answer.peeked (h.peek hst), hst, rfl⟩
  | size => exact ⟨congrArg Queue.Answer.counted (h.size hst), hst, rfl⟩
  | visit => exact ⟨congrArg Queue.Answer.visited (h.items hst), hst, rfl⟩
  | total => exact ⟨congrArg Queue.Answer.counted (h.total hst), hst, rfl⟩

theorem Agrees.answersFrom (h : keeper.Agrees other R) {s : σ} {t : τ} (hst : R s t)
    (popped : List (Activity α)) (requests : List (Queue.Request α)) :
    keeper.answersFrom s popped requests = other.answersFrom t popped requests := by
  induction requests generalizing s t popped with
  | nil => rfl
  | cons request rest ih =>
    obtain ⟨hanswer, hnext, hpopped⟩ := h.serve hst popped request
    simp only [Keeper.answersFrom, hanswer, hpopped, ih hnext]

theorem Agrees.answers (h : keeper.Agrees other R) (requests : List (Queue.Request α)) :
    keeper.answers requests = other.answers requests :=
  h.answersFrom h.start [] requests

end Keeper

def Queue.keeper (α : Type) : Keeper α (Queue α) where
  start := {}
  insert := Queue.insert
  pop := Queue.pop
  peek? := Queue.peek?
  size := Queue.size
  items queue := ↑queue.toList
  total := Queue.inserted

/-! ## The list of arrivals -/

/-- The activities that wait, in the order of arrival, and how often one was put in and taken. -/
structure Arrivals (α : Type) where
  waiting : List (Activity α) := []
  inserts : Nat := 0
  pops : Nat := 0

namespace Arrivals

def takeFirst? : List (Activity α) → Option (Activity α × List (Activity α))
  | [] => none
  | a :: rest =>
    match takeFirst? rest with
    | none => some (a, [])
    | some (b, others) => if b.before a then some (b, a :: others) else some (a, rest)

def insert (arrivals : Arrivals α) (a : Activity α) : Arrivals α where
  waiting := arrivals.waiting ++ [{ a with seq := arrivals.inserts }]
  inserts := arrivals.inserts + 1
  pops := arrivals.pops

def pop (arrivals : Arrivals α) : Except QueueError (Activity α × Arrivals α) :=
  match takeFirst? arrivals.waiting with
  | none => .error .empty
  | some (a, rest) =>
    .ok (a, { waiting := rest, inserts := arrivals.inserts, pops := arrivals.pops + 1 })

def peek? (arrivals : Arrivals α) : Option (Activity α) :=
  (takeFirst? arrivals.waiting).map (·.1)

def keeper (α : Type) : Keeper α (Arrivals α) where
  start := {}
  insert := insert
  pop := pop
  peek? := peek?
  size arrivals := arrivals.inserts - arrivals.pops
  items arrivals := ↑arrivals.waiting
  total := inserts

/-- `a` leaves first of `items`, before all in front of it and not after any behind it. -/
structure LeavesFirst (a : Activity α) (items rest front back : List (Activity α)) : Prop where
  items_eq : items = front ++ a :: back
  rest_eq : rest = front ++ back
  before_front : ∀ b ∈ front, a.before b = true
  not_after_back : ∀ b ∈ back, b.before a = false

theorem takeFirst?_eq_none {items : List (Activity α)} : takeFirst? items = none ↔ items = [] := by
  cases items with
  | nil => simp [takeFirst?]
  | cons a rest =>
    simp only [takeFirst?, reduceCtorEq, iff_false]
    cases takeFirst? rest with
    | none => simp
    | some taken =>
      simp only
      split <;> simp

theorem leavesFirst_of_takeFirst? {items rest : List (Activity α)} {a : Activity α}
    (h : takeFirst? items = some (a, rest)) :
    ∃ front back, LeavesFirst a items rest front back := by
  induction items generalizing a rest with
  | nil => simp [takeFirst?] at h
  | cons c others ih =>
    cases htaken : takeFirst? others with
    | none =>
      simp only [takeFirst?, htaken, Option.some.injEq, Prod.mk.injEq] at h
      obtain ⟨rfl, rfl⟩ := h
      exact ⟨[], [], by simp [takeFirst?_eq_none.mp htaken], rfl, by simp, by simp⟩
    | some taken =>
      obtain ⟨b, left⟩ := taken
      obtain ⟨front, back, hb⟩ := ih htaken
      simp only [takeFirst?, htaken] at h
      split at h
      · rename_i hbc
        simp only [Option.some.injEq, Prod.mk.injEq] at h
        obtain ⟨rfl, rfl⟩ := h
        refine ⟨c :: front, back, by simp [hb.items_eq], by simp [hb.rest_eq], ?_,
          hb.not_after_back⟩
        intro x hx
        rcases List.mem_cons.mp hx with rfl | hx
        · exact hbc
        · exact hb.before_front x hx
      · rename_i hbc
        simp only [Option.some.injEq, Prod.mk.injEq] at h
        obtain ⟨rfl, rfl⟩ := h
        -- what does not come before `b` does not come before `c` either
        have hcb : b.before c = false := by simpa using hbc
        refine ⟨[], others, rfl, rfl, by simp, ?_⟩
        intro x hx
        rw [hb.items_eq, List.mem_append, List.mem_cons] at hx
        refine Activity.before_byKey.chain c b x hcb ?_
        rcases hx with hx | rfl | hx
        · exact Activity.before_byKey.asymm _ _ (hb.before_front x hx)
        · exact Activity.not_before_iff.mpr (Or.inr ⟨rfl, Int.le_refl _⟩)
        · exact hb.not_after_back x hx

/-- Whichever is taken, all others are left, in their order. -/
theorem LeavesFirst.perm {a : Activity α} {items rest front back : List (Activity α)}
    (h : LeavesFirst a items rest front back) : items.Perm (a :: rest) := by
  rw [h.items_eq, h.rest_eq]
  exact List.perm_middle

/-- The numbers rise in the order of arrival, and each activity either waits or was taken. -/
structure Numbered (arrivals : Arrivals α) : Prop where
  rising : arrivals.waiting.Pairwise fun a b => a.seq < b.seq
  below : ∀ a ∈ arrivals.waiting, a.seq < arrivals.inserts
  account : arrivals.waiting.length + arrivals.pops = arrivals.inserts

theorem Numbered.start : (keeper α).start.Numbered := ⟨List.Pairwise.nil, by simp [keeper], rfl⟩

theorem Numbered.insert {arrivals : Arrivals α} (h : arrivals.Numbered) (a : Activity α) :
    (arrivals.insert a).Numbered where
  rising := by
    refine List.pairwise_append.mpr ⟨h.rising, List.pairwise_singleton _ _, ?_⟩
    intro b hb c hc
    rw [List.mem_singleton.mp hc]
    exact h.below b hb
  below := by
    intro b hb
    rcases List.mem_append.mp hb with hb | hb
    · exact Nat.lt_succ_of_lt (h.below b hb)
    · rw [List.mem_singleton.mp hb]
      exact Nat.lt_succ_self _
  account := by
    have := h.account
    simp only [Arrivals.insert, List.length_append, List.length_singleton]
    omega

theorem Numbered.taken {arrivals : Arrivals α} (h : arrivals.Numbered) {a : Activity α}
    {rest front back : List (Activity α)}
    (hfirst : LeavesFirst a arrivals.waiting rest front back) :
    Numbered { waiting := rest, inserts := arrivals.inserts, pops := arrivals.pops + 1 } where
  rising := by
    rw [hfirst.rest_eq]
    refine h.rising.sublist ?_
    rw [hfirst.items_eq]
    exact List.Sublist.append_left (List.sublist_cons_self a back) front
  below b hb := h.below b (hfirst.perm.mem_iff.mpr (List.mem_cons_of_mem _ hb))
  account := by
    have hlength := hfirst.perm.length_eq
    have := h.account
    simp only [List.length_cons] at hlength
    show rest.length + (arrivals.pops + 1) = arrivals.inserts
    omega

theorem Numbered.size {arrivals : Arrivals α} (h : arrivals.Numbered) :
    (keeper α).size arrivals = arrivals.waiting.length := by
  have := h.account
  show arrivals.inserts - arrivals.pops = _
  omega

end Arrivals

/-! ## The running queue keeps the stable sort of the arrivals -/

namespace Ordered

variable {before : α → α → Bool}

theorem sort_append_singleton (a : α) (items : List α) :
    sort before (items ++ [a]) = place before a (sort before items) := by
  simp [sort]

end Ordered

theorem Arrivals.LeavesFirst.sort_eq {a : Activity α} {items rest front back : List (Activity α)}
    (h : LeavesFirst a items rest front back) :
    Ordered.sort Activity.before items = a :: Ordered.sort Activity.before rest := by
  have hfront : Ordered.sort Activity.before (front ++ [a]) =
      a :: Ordered.sort Activity.before front := by
    rw [Ordered.sort_append_singleton]
    cases hsorted : Ordered.sort Activity.before front with
    | nil => rfl
    | cons b others =>
      have hb : b ∈ front := by
        rw [← (Ordered.sort_perm Activity.before front).mem_iff, hsorted]
        exact List.mem_cons_self ..
      simp [Ordered.place, h.before_front b hb]
  calc Ordered.sort Activity.before items
      = Ordered.placeAll Activity.before back (Ordered.sort Activity.before (front ++ [a])) := by
        rw [h.items_eq, List.append_cons]
        exact Ordered.placeAll_append (front ++ [a]) back []
    _ = a :: Ordered.placeAll Activity.before back (Ordered.sort Activity.before front) := by
        rw [hfront, Ordered.placeAll_cons_of_not_before h.not_after_back]
    _ = a :: Ordered.sort Activity.before rest := by
        rw [h.rest_eq]
        exact congrArg (a :: ·) (Ordered.placeAll_append front back []).symm

namespace Queue

structure Sorts (queue : Queue α) (arrivals : Arrivals α) : Prop where
  numbered : arrivals.Numbered
  entries : queue.entries = Ordered.sort Activity.before arrivals.waiting
  inserted : queue.inserted = arrivals.inserts

variable {queue : Queue α} {arrivals : Arrivals α}

theorem Sorts.perm (h : queue.Sorts arrivals) : queue.entries.Perm arrivals.waiting := by
  rw [h.entries]
  exact Ordered.sort_perm _ _

theorem Sorts.insert (h : queue.Sorts arrivals) (a : Activity α) :
    (queue.insert a).Sorts (arrivals.insert a) where
  numbered := h.numbered.insert a
  entries := by
    show Ordered.place _ _ _ = Ordered.sort _ (_ ++ [_])
    rw [Ordered.sort_append_singleton, h.entries, h.inserted]
  inserted := congrArg (· + 1) h.inserted

theorem Sorts.pop (h : queue.Sorts arrivals) :
    Keeper.TakeAlike Sorts queue.pop arrivals.pop := by
  cases htaken : Arrivals.takeFirst? arrivals.waiting with
  | none =>
    have hempty : queue.entries = [] := by
      rw [h.entries, Arrivals.takeFirst?_eq_none.mp htaken]
      rfl
    exact Or.inl ⟨.empty, by simp [Queue.pop, hempty], by simp [Arrivals.pop, htaken]⟩
  | some taken =>
    obtain ⟨a, rest⟩ := taken
    obtain ⟨front, back, hfirst⟩ := Arrivals.leavesFirst_of_takeFirst? htaken
    have hentries : queue.entries = a :: Ordered.sort Activity.before rest :=
      h.entries.trans hfirst.sort_eq
    exact Or.inr ⟨a, { queue with entries := Ordered.sort Activity.before rest }, _,
      by simp [Queue.pop, hentries], by simp [Arrivals.pop, htaken],
      h.numbered.taken hfirst, rfl, h.inserted⟩

theorem Sorts.peek (h : queue.Sorts arrivals) : queue.peek? = arrivals.peek? := by
  cases htaken : Arrivals.takeFirst? arrivals.waiting with
  | none =>
    rw [Queue.peek?, Arrivals.peek?, htaken, h.entries, Arrivals.takeFirst?_eq_none.mp htaken]
    rfl
  | some taken =>
    obtain ⟨front, back, hfirst⟩ := Arrivals.leavesFirst_of_takeFirst? htaken
    simp [Queue.peek?, Arrivals.peek?, htaken, h.entries, hfirst.sort_eq]

theorem agrees_arrivals : (keeper α).Agrees (Arrivals.keeper α) Sorts where
  start := ⟨Arrivals.Numbered.start, rfl, rfl⟩
  insert := Sorts.insert
  pop := Sorts.pop
  peek := Sorts.peek
  size h := h.perm.length_eq.trans h.numbered.size.symm
  items h := Multiset.coe_eq_coe.mpr h.perm
  total := Sorts.inserted

end Queue

/-! ## Max-heaps -/

/-- What is said of a max-heap of items that `le` compares. -/
structure MaxHeap (β : Type) (le : β → β → Prop) where
  State : Type
  empty : State
  push : State → β → State
  pop : State → Option (β × State)
  peek? : State → Option β
  size : State → Nat
  items : State → Multiset β
  items_empty : items empty = 0
  items_push : ∀ heap b, items (push heap b) = b ::ₘ items heap
  pop_none : ∀ {heap}, pop heap = none → items heap = 0
  pop_some : ∀ {heap b rest}, pop heap = some (b, rest) →
    items heap = b ::ₘ items rest ∧ ∀ c ∈ items heap, le c b
  peek_none : ∀ {heap}, peek? heap = none → items heap = 0
  peek_some : ∀ {heap b}, peek? heap = some b → b ∈ items heap ∧ ∀ c ∈ items heap, le c b
  size_eq : ∀ heap, size heap = (items heap).card

def Activity.key (a : Activity α) : ℕ ×ₗ ℤ ×ₗ ℕ := toLex (a.time.ticks, toLex (a.priority, a.seq))

namespace Activity

def leads (a b : Activity α) : Prop := a.key ≤ b.key

instance : DecidableRel (leads (α := α)) := fun a b => inferInstanceAs (Decidable (a.key ≤ b.key))

instance : Std.Total (leads (α := α)) := ⟨fun a b => le_total a.key b.key⟩

instance : IsTrans (Activity α) leads := ⟨fun _ _ _ => le_trans⟩

theorem leads_of_mem_cons {a : Activity α} {rest : List (Activity α)}
    (h : (a :: rest).Pairwise leads) : ∀ b ∈ a :: rest, a.leads b := by
  intro b hb
  rcases List.mem_cons.mp hb with rfl | hb
  · exact le_refl _
  · exact (List.pairwise_cons.mp h).1 b hb

theorem key_lt_iff {a b : Activity α} :
    a.key < b.key ↔ a.before b = true ∨ b.before a = false ∧ a.seq < b.seq := by
  rw [before_iff, not_before_iff]
  simp only [key, Prod.Lex.toLex_lt_toLex]
  omega

end Activity

theorem Arrivals.Numbered.key_lt {arrivals : Arrivals α} (h : arrivals.Numbered) {a : Activity α}
    {rest front back : List (Activity α)}
    (hfirst : LeavesFirst a arrivals.waiting rest front back) : ∀ b ∈ rest, a.key < b.key := by
  intro b hb
  rw [Activity.key_lt_iff]
  rw [hfirst.rest_eq, List.mem_append] at hb
  rcases hb with hb | hb
  · exact Or.inl (hfirst.before_front b hb)
  · have hrising := h.rising
    rw [hfirst.items_eq, List.pairwise_append, List.pairwise_cons] at hrising
    exact Or.inr ⟨hfirst.not_after_back b hb, hrising.2.1.1 b hb⟩

theorem Arrivals.Numbered.eq_of_greatest {arrivals : Arrivals α} (h : arrivals.Numbered)
    {a b : Activity α} {rest front back : List (Activity α)}
    (hfirst : LeavesFirst a arrivals.waiting rest front back) (hb : b ∈ arrivals.waiting)
    (hgreatest : ∀ c ∈ arrivals.waiting, b.leads c) : b = a := by
  rcases List.mem_cons.mp (hfirst.perm.mem_iff.mp hb) with hba | hb
  · exact hba
  · have ha : a ∈ arrivals.waiting := hfirst.perm.mem_iff.mpr (List.mem_cons_self ..)
    exact absurd (hgreatest a ha) (not_le_of_gt (h.key_lt hfirst b hb))

/-- A max-heap of activities, compared the other way round so that the least leaves first. -/
abbrev ActivityHeap (α : Type) := MaxHeap (Activity α) fun a b => b.leads a

namespace ActivityHeap

def keeper (heap : ActivityHeap α) : Keeper α (heap.State × Nat) where
  start := (heap.empty, 0)
  insert := fun (state, next) a => (heap.push state { a with seq := next }, next + 1)
  pop := fun (state, next) =>
    match heap.pop state with
    | none => .error .empty
    | some (a, rest) => .ok (a, rest, next)
  peek? := fun (state, _) => heap.peek? state
  size := fun (state, _) => heap.size state
  items := fun (state, _) => heap.items state
  total := fun (_, next) => next

variable {heap : ActivityHeap α} {arrivals : Arrivals α}

structure Holds (heap : ActivityHeap α) (state : heap.State × Nat)
    (arrivals : Arrivals α) : Prop where
  numbered : arrivals.Numbered
  items : heap.items state.1 = ↑arrivals.waiting
  next : state.2 = arrivals.inserts

variable {state : heap.State × Nat}

theorem Holds.insert (h : heap.Holds state arrivals) (a : Activity α) :
    heap.Holds (heap.keeper.insert state a) (arrivals.insert a) where
  numbered := h.numbered.insert a
  items := by
    show heap.items (heap.push _ _) = _
    rw [heap.items_push, h.items, h.next, Multiset.cons_coe, Multiset.coe_eq_coe]
    exact (List.perm_append_singleton _ _).symm
  next := congrArg (· + 1) h.next

theorem Holds.pop (h : heap.Holds state arrivals) :
    Keeper.TakeAlike heap.Holds (heap.keeper.pop state) arrivals.pop := by
  cases hpop : heap.pop state.1 with
  | none =>
    have hempty : arrivals.waiting = [] := by
      simpa [h.items] using heap.pop_none hpop
    exact Or.inl ⟨.empty, by simp [keeper, hpop],
      by simp [Arrivals.pop, hempty, Arrivals.takeFirst?]⟩
  | some taken =>
    obtain ⟨b, left⟩ := taken
    obtain ⟨hitems, hgreatest⟩ := heap.pop_some hpop
    rw [h.items] at hitems hgreatest
    have hb : b ∈ arrivals.waiting := by
      rw [← Multiset.mem_coe, hitems]
      exact Multiset.mem_cons_self b _
    cases htaken : Arrivals.takeFirst? arrivals.waiting with
    | none => simp [Arrivals.takeFirst?_eq_none.mp htaken] at hb
    | some taken =>
      obtain ⟨a, rest⟩ := taken
      obtain ⟨front, back, hfirst⟩ := Arrivals.leavesFirst_of_takeFirst? htaken
      obtain rfl := h.numbered.eq_of_greatest hfirst hb hgreatest
      refine Or.inr ⟨b, (left, state.2), _, by simp [keeper, hpop], by simp [Arrivals.pop, htaken],
        h.numbered.taken hfirst, ?_, h.next⟩
      rw [Multiset.coe_eq_coe.mpr hfirst.perm, ← Multiset.cons_coe,
        Multiset.cons_inj_right] at hitems
      exact hitems.symm

theorem Holds.peek (h : heap.Holds state arrivals) :
    heap.peek? state.1 = arrivals.peek? := by
  cases hpeek : heap.peek? state.1 with
  | none =>
    have hempty : arrivals.waiting = [] := by
      simpa [h.items] using heap.peek_none hpeek
    simp [Arrivals.peek?, hempty, Arrivals.takeFirst?]
  | some b =>
    obtain ⟨hb, hgreatest⟩ := heap.peek_some hpeek
    rw [h.items] at hb hgreatest
    cases htaken : Arrivals.takeFirst? arrivals.waiting with
    | none => simp [Arrivals.takeFirst?_eq_none.mp htaken] at hb
    | some taken =>
      obtain ⟨front, back, hfirst⟩ := Arrivals.leavesFirst_of_takeFirst? htaken
      rw [h.numbered.eq_of_greatest hfirst hb hgreatest, Arrivals.peek?, htaken]
      rfl

def ordered (α : Type) : ActivityHeap α where
  State := { items : List (Activity α) // items.Pairwise Activity.leads }
  empty := ⟨[], List.Pairwise.nil⟩
  push items a := ⟨items.1.orderedInsert Activity.leads a, items.2.orderedInsert a _⟩
  pop
    | ⟨[], _⟩ => none
    | ⟨a :: rest, h⟩ => some (a, ⟨rest, (List.pairwise_cons.mp h).2⟩)
  peek? items := items.1.head?
  size items := items.1.length
  items items := ↑items.1
  items_empty := rfl
  items_push items a := Multiset.coe_eq_coe.mpr (List.perm_orderedInsert _ a items.1)
  pop_none {items} h := by
    obtain ⟨_ | ⟨a, rest⟩, hitems⟩ := items
    · rfl
    · cases h
  pop_some {items b rest} h := by
    obtain ⟨_ | ⟨a, left⟩, hitems⟩ := items
    · cases h
    · cases h
      exact ⟨rfl, Activity.leads_of_mem_cons hitems⟩
  peek_none {items} h := by
    simpa using h
  peek_some {items b} h := by
    obtain ⟨_ | ⟨a, left⟩, hitems⟩ := items
    · cases h
    · cases h
      exact ⟨List.mem_cons_self .., Activity.leads_of_mem_cons hitems⟩
  size_eq items := rfl

instance : Inhabited (ActivityHeap α) := ⟨ordered α⟩

theorem agrees_arrivals : heap.keeper.Agrees (Arrivals.keeper α) heap.Holds where
  start := ⟨Arrivals.Numbered.start, heap.items_empty, rfl⟩
  insert := Holds.insert
  pop := Holds.pop
  peek := Holds.peek
  size h := by
    show heap.size _ = _
    rw [heap.size_eq, h.items, Multiset.coe_card, h.numbered.size]
  items := Holds.items
  total := Holds.next

end ActivityHeap

/-! ## Stability -/

/-- To any requests a queue answers as the list of arrivals does, and so does a max-heap. -/
theorem Queue.answers_eq_arrivals (heap : ActivityHeap α)
    (requests : List (Queue.Request α)) :
    (Queue.keeper α).answers requests = (Arrivals.keeper α).answers requests ∧
      heap.keeper.answers requests = (Arrivals.keeper α).answers requests :=
  ⟨Queue.agrees_arrivals.answers requests, ActivityHeap.agrees_arrivals.answers requests⟩

example : (Queue.keeper Bool).answers
    [.insert ⟨Time.zero, 1, true, 7⟩, .insert ⟨Time.zero, 1, false, 0⟩, .pop, .again 0, .peek] =
      [.done, .done, .popped (.ok ⟨Time.zero, 1, true, 0⟩), .done,
        .peeked (some ⟨Time.zero, 1, false, 1⟩)] := rfl

end Lookahead
