import Lookahead.Proofs.Mail
import Mathlib.Data.List.Induction

/-!
What an inbox keeps.

Whatever is done to an inbox, one request after another, every link end is a queue: what is taken on
it is the beginning of what was made readable on it, and the next event is always the one behind. An
event that a partition sends to itself is not among them before the phase is committed. The number
of events that wait is the number of those that came less those that left
(`Inbox.keeps_order`).

An inbox need not be one list. One queue for each link end, in an array that grows when an event
arrives for an end beyond it, answers every sequence of requests in the same way.
-/

namespace Lookahead

variable {π σ τ : Type}

namespace Inbox

/-! ## Requests and answers -/

/-- What can be asked of an inbox. -/
inductive Request (π : Type) where
  | deliver (event : Event π)
  | hold (event : Event π)
  | commit
  | take (link : LinkId)
  | unread
  | clear

/-- What an inbox says to a request. -/
inductive Answer (π : Type) where
  | done
  | taken (event : Option (Event π))
  | counted (n : Nat)
deriving DecidableEq

/-- A way to keep untimed events, with `σ` for its states. Committing and clearing say how many
events they were about. -/
structure Layout (π σ : Type) where
  start : σ
  deliver : σ → Event π → σ
  hold : σ → Event π → σ
  commit : σ → Nat × σ
  take? : σ → LinkId → Option (Event π × σ)
  unread : σ → Nat
  clear : σ → Nat × σ

namespace Layout

def serve (layout : Layout π σ) (state : σ) : Request π → Answer π × σ
  | .deliver event => (.done, layout.deliver state event)
  | .hold event => (.done, layout.hold state event)
  | .commit => (.counted (layout.commit state).1, (layout.commit state).2)
  | .take link =>
    match layout.take? state link with
    | none => (.taken none, state)
    | some (event, next) => (.taken (some event), next)
  | .unread => (.counted (layout.unread state), state)
  | .clear => (.counted (layout.clear state).1, (layout.clear state).2)

def extend (layout : Layout π σ) (past : List (Request π × Answer π) × σ) (request : Request π) :
    List (Request π × Answer π) × σ :=
  (past.1 ++ [(request, (layout.serve past.2 request).1)], (layout.serve past.2 request).2)

/-- Serve requests from the start: all of them with their answers, and the state in the end. -/
def run (layout : Layout π σ) (requests : List (Request π)) : List (Request π × Answer π) × σ :=
  requests.foldl layout.extend ([], layout.start)

def history (layout : Layout π σ) (requests : List (Request π)) : List (Request π × Answer π) :=
  (layout.run requests).1

def after (layout : Layout π σ) (requests : List (Request π)) : σ := (layout.run requests).2

def answer (layout : Layout π σ) (requests : List (Request π)) (request : Request π) : Answer π :=
  (layout.serve (layout.after requests) request).1

theorem run_concat (layout : Layout π σ) (requests : List (Request π)) (request : Request π) :
    layout.run (requests ++ [request]) = layout.extend (layout.run requests) request := by
  rw [run, List.foldl_append]
  rfl

theorem history_concat (layout : Layout π σ) (requests : List (Request π)) (request : Request π) :
    layout.history (requests ++ [request]) =
      layout.history requests ++ [(request, layout.answer requests request)] := by
  rw [history, run_concat]
  rfl

theorem after_concat (layout : Layout π σ) (requests : List (Request π)) (request : Request π) :
    layout.after (requests ++ [request]) = (layout.serve (layout.after requests) request).2 := by
  rw [after, run_concat]
  rfl

end Layout

/-! ## Accounts -/

/-- What a history of requests and answers comes to: the events that became readable and those that
were taken since the inbox was last cleared, the partition's own events since the last commit, and
how many events ever came and left. -/
structure Account (π : Type) where
  readable : List (Event π) := []
  taken : List (Event π) := []
  own : List (Event π) := []
  came : Nat := 0
  left : Nat := 0

namespace Account

def enter (account : Account π) : Request π × Answer π → Account π
  | (.deliver event, _) =>
    { account with readable := account.readable ++ [event], came := account.came + 1 }
  | (.hold event, _) => { account with own := account.own ++ [event], came := account.came + 1 }
  | (.commit, _) => { account with readable := account.readable ++ account.own, own := [] }
  | (.take _, .taken (some event)) =>
    { account with taken := account.taken ++ [event], left := account.left + 1 }
  | (.clear, .counted n) => { came := account.came, left := account.left + n }
  | _ => account

def ofHistory (history : List (Request π × Answer π)) : Account π := history.foldl enter {}

/-- The event behind those that were taken on a link end. -/
def next? (account : Account π) (link : LinkId) : Option (Event π) :=
  (Event.on link account.readable)[(Event.on link account.taken).length]?.map (⟨link, ·⟩)

theorem ofHistory_concat (history : List (Request π × Answer π)) (entry : Request π × Answer π) :
    ofHistory (history ++ [entry]) = (ofHistory history).enter entry := by
  rw [ofHistory, List.foldl_append]
  rfl

end Account

def Layout.account (layout : Layout π σ) (requests : List (Request π)) : Account π :=
  Account.ofHistory (layout.history requests)

theorem Layout.account_concat (layout : Layout π σ) (requests : List (Request π))
    (request : Request π) : layout.account (requests ++ [request]) =
      (layout.account requests).enter (request, layout.answer requests request) := by
  rw [account, history_concat, Account.ofHistory_concat]
  rfl

/-- What is true of a layout after these requests. -/
structure Layout.KeepsOrder (layout : Layout π σ) (requests : List (Request π)) : Prop where
  /-- On every link end, what was taken is the beginning of what became readable. -/
  in_order : ∀ link, Event.on link (layout.account requests).taken <+:
    Event.on link (layout.account requests).readable
  /-- The next event comes next, if there is one; the partition's own events are not among them. -/
  take : ∀ link, layout.answer requests (.take link) =
    .taken ((layout.account requests).next? link)
  /-- A commit says how many events of its own the partition had. -/
  commit : layout.answer requests .commit = .counted (layout.account requests).own.length
  /-- Whatever came and has not left is unread. -/
  unread : ∃ n, layout.answer requests .unread = .counted n ∧
    n + (layout.account requests).left = (layout.account requests).came
  /-- Clearing says how many events were unread. -/
  clear : layout.answer requests .clear = layout.answer requests .unread
  /-- Then nothing is left on any link end, and nothing to be committed. -/
  cleared : (∀ link, layout.answer (requests ++ [.clear]) (.take link) = .taken none) ∧
    layout.answer (requests ++ [.clear]) .commit = .counted 0 ∧
    layout.answer (requests ++ [.clear]) .unread = .counted 0

/-! ## One list -/

def layout (π : Type) : Layout π (Inbox π) where
  start := {}
  deliver := Inbox.deliver
  hold := Inbox.hold
  commit inbox := (inbox.held.length, inbox.commit)
  take? := Inbox.take?
  unread := Inbox.unread
  clear inbox := (inbox.unread, inbox.clear)

structure Holds (inbox : Inbox π) (account : Account π) : Prop where
  on : ∀ link, Event.on link account.taken ++ inbox.on link = Event.on link account.readable
  held : inbox.held = account.own
  unread : inbox.unread + account.left = account.came

namespace Holds

variable {inbox : Inbox π} {account : Account π}

theorem take_none (h : inbox.Holds account) {link : LinkId} (hnone : inbox.take? link = none) :
    account.next? link = none := by
  have hon := h.on link
  rw [on_of_take?_none hnone, List.append_nil] at hon
  rw [Account.next?, ← hon, List.getElem?_eq_none (Nat.le_refl _), Option.map_none]

theorem take_some (h : inbox.Holds account) {link : LinkId} {event : Event π} {inbox' : Inbox π}
    (hsome : inbox.take? link = some (event, inbox')) : account.next? link = some event := by
  have hon := h.on link
  rw [(on_of_take? hsome).1] at hon
  rw [Account.next?, ← hon, List.getElem?_append_right (Nat.le_refl _), Nat.sub_self,
    List.getElem?_cons_zero, Option.map_some, ← (take?_eq_some hsome).1]

theorem deliver (h : inbox.Holds account) (event : Event π) :
    (inbox.deliver event).Holds (account.enter (.deliver event, .done)) := by
  refine ⟨fun link => ?_, h.held, ?_⟩
  · show _ ++ Event.on link (inbox.readable ++ [event]) =
      Event.on link (account.readable ++ [event])
    rw [Event.on_append, Event.on_append, ← h.on link, List.append_assoc]
    rfl
  · have hunread := h.unread
    simp only [Inbox.unread] at hunread
    simp only [Inbox.deliver, Inbox.unread, Account.enter, List.length_append,
      List.length_singleton]
    omega

theorem hold (h : inbox.Holds account) (event : Event π) :
    (inbox.hold event).Holds (account.enter (.hold event, .done)) := by
  refine ⟨h.on, congrArg (· ++ [event]) h.held, ?_⟩
  have hunread := h.unread
  simp only [Inbox.unread] at hunread
  simp only [Inbox.hold, Inbox.unread, Account.enter, List.length_append, List.length_singleton]
  omega

theorem commit (h : inbox.Holds account) (n : Nat) :
    inbox.commit.Holds (account.enter (.commit, .counted n)) := by
  refine ⟨fun link => ?_, rfl, ?_⟩
  · show _ ++ Event.on link (inbox.readable ++ inbox.held) =
      Event.on link (account.readable ++ account.own)
    rw [Event.on_append, Event.on_append, ← h.on link, ← h.held, List.append_assoc]
    rfl
  · show (inbox.readable ++ inbox.held).length + 0 + account.left = account.came
    rw [List.length_append]
    exact h.unread

theorem taken (h : inbox.Holds account) {link : LinkId} {event : Event π} {inbox' : Inbox π}
    (htake : inbox.take? link = some (event, inbox')) :
    inbox'.Holds (account.enter (.take link, .taken (some event))) := by
  obtain ⟨hlink, hheld, _⟩ := take?_eq_some htake
  obtain ⟨hon, hothers⟩ := on_of_take? htake
  have hlength := length_of_take? htake
  refine ⟨fun other => ?_, hheld.trans h.held, ?_⟩
  · show Event.on other (account.taken ++ [event]) ++ _ = Event.on other account.readable
    rw [← h.on other, Event.on_append, List.append_assoc]
    by_cases hother : other = link
    · subst hother
      rw [hon]
      simp [Event.on, hlink]
    · rw [hothers other hother]
      simp [Event.on, hlink, Ne.symm hother]
  · have hunread := h.unread
    simp only [Inbox.unread] at hunread
    simp only [Inbox.unread, hheld, Account.enter]
    omega

theorem clear (h : inbox.Holds account) :
    inbox.clear.Holds (account.enter (.clear, .counted inbox.unread)) := by
  refine ⟨fun _ => rfl, rfl, ?_⟩
  show 0 + (account.left + inbox.unread) = account.came
  rw [Nat.zero_add, Nat.add_comm]
  exact h.unread

theorem serve (h : inbox.Holds account) (request : Request π) :
    ((layout π).serve inbox request).2.Holds
      (account.enter (request, ((layout π).serve inbox request).1)) := by
  cases request with
  | deliver event => exact h.deliver event
  | hold event => exact h.hold event
  | commit => exact h.commit _
  | take link =>
    cases htake : inbox.take? link with
    | none =>
      have hserve : (layout π).serve inbox (.take link) = (.taken none, inbox) := by
        simp only [layout, Layout.serve, htake]
      rw [hserve]
      exact h
    | some result =>
      obtain ⟨event, inbox'⟩ := result
      have hserve : (layout π).serve inbox (.take link) = (.taken (some event), inbox') := by
        simp only [layout, Layout.serve, htake]
      rw [hserve]
      exact h.taken htake
  | unread => exact h
  | clear => exact h.clear

end Holds

theorem holds_after (requests : List (Request π)) :
    ((layout π).after requests).Holds ((layout π).account requests) := by
  induction requests using List.reverseRecOn with
  | nil => exact ⟨fun _ => rfl, rfl, rfl⟩
  | append_singleton past request ih =>
    rw [Layout.after_concat, Layout.account_concat]
    exact ih.serve request

theorem keepsOrder (requests : List (Request π)) : (layout π).KeepsOrder requests := by
  have hholds := holds_after requests
  refine
    { in_order := fun link => ⟨_, hholds.on link⟩
      take := fun link => ?_
      commit := ?_
      unread := ⟨_, rfl, hholds.unread⟩
      clear := rfl
      cleared := ?_ }
  · cases htake : ((layout π).after requests).take? link with
    | none =>
      rw [hholds.take_none htake]
      simp only [Layout.answer, Layout.serve, layout] at htake ⊢
      simp only [htake]
    | some taken =>
      obtain ⟨event, inbox⟩ := taken
      rw [hholds.take_some htake]
      simp only [Layout.answer, Layout.serve, layout] at htake ⊢
      simp only [htake]
  · rw [← hholds.held]
    rfl
  · simp only [Layout.answer, Layout.after_concat]
    exact ⟨fun _ => rfl, rfl, rfl⟩

end Inbox

/-! ## One queue for each link end -/

/-- Untimed events in one queue for each link end, and the held ones in the order of sending. -/
structure Pigeonholes (π : Type) where
  queues : List (List (Event π))
  held : List (Event π) := []

namespace Pigeonholes

/-- The queue of a link end, which is empty if there is none yet. -/
def on (holes : Pigeonholes π) (link : LinkId) : List (Event π) := holes.queues[link]?.getD []

def grow (holes : Pigeonholes π) (link : LinkId) : Pigeonholes π :=
  { holes with
    queues := holes.queues ++ List.replicate (link + 1 - holes.queues.length) [] }

/-- Put an event into the queue of its link end, which is made if it is not there yet. -/
def deliver (holes : Pigeonholes π) (event : Event π) : Pigeonholes π :=
  let grown := holes.grow event.link
  { grown with queues := grown.queues.modify event.link (· ++ [event]) }

/-- Hold an event back until the phase is over. -/
def hold (holes : Pigeonholes π) (event : Event π) : Pigeonholes π :=
  { holes with held := holes.held ++ [event] }

def commit (holes : Pigeonholes π) : Nat × Pigeonholes π :=
  (holes.held.length, holes.held.foldl deliver { holes with held := [] })

def take? (holes : Pigeonholes π) (link : LinkId) : Option (Event π × Pigeonholes π) :=
  match holes.queues[link]? with
  | some (event :: rest) => some (event, { holes with queues := holes.queues.set link rest })
  | _ => none

def unread (holes : Pigeonholes π) : Nat := total List.length holes.queues + holes.held.length

/-- Drop everything that waits, and say how much that was. -/
def clear (holes : Pigeonholes π) : Nat × Pigeonholes π :=
  (holes.unread, { queues := holes.queues.map fun _ => [] })

def layout (π : Type) (links : Nat) : Inbox.Layout π (Pigeonholes π) where
  start := { queues := List.replicate links [] }
  deliver := deliver
  hold := hold
  commit := commit
  take? := take?
  unread := unread
  clear := clear

structure Sorts (holes : Pigeonholes π) (inbox : Inbox π) : Prop where
  on : ∀ link, holes.on link = inbox.readable.filter fun event => event.link == link
  size : total List.length holes.queues = inbox.readable.length
  held : holes.held = inbox.held

variable {holes : Pigeonholes π} {inbox : Inbox π}

@[simp] theorem on_grow (holes : Pigeonholes π) (link other : LinkId) :
    (holes.grow link).on other = holes.on other := by
  unfold on grow
  rw [List.getElem?_append]
  split
  · rfl
  · rename_i h
    rw [List.getElem?_eq_none (Nat.not_lt.mp h), List.getElem?_replicate]
    split <;> rfl

/-- A link end with an event has a queue, and its first event is taken from there. -/
theorem queue_of_cons {link : LinkId} {event : Event π} {rest : List (Event π)}
    (h : holes.on link = event :: rest) : holes.queues[link]? = some (event :: rest) := by
  unfold on at h
  cases hqueue : holes.queues[link]? with
  | none => simp [hqueue] at h
  | some queue => rw [← h, hqueue, Option.getD_some]

theorem take?_of_cons {link : LinkId} {event : Event π} {rest : List (Event π)}
    (h : holes.on link = event :: rest) :
    holes.take? link = some (event, { holes with queues := holes.queues.set link rest }) := by
  simp only [take?, queue_of_cons h]

theorem take?_of_nil {link : LinkId} (h : holes.on link = []) : holes.take? link = none := by
  unfold on at h
  unfold take?
  cases hqueue : holes.queues[link]? with
  | none => rfl
  | some queue =>
    rw [hqueue, Option.getD_some] at h
    rw [h]

theorem total_grow (holes : Pigeonholes π) (link : LinkId) :
    total List.length (holes.grow link).queues = total List.length holes.queues := by
  rw [grow, total_append, total_replicate]
  rfl

theorem exists_queue_grow (holes : Pigeonholes π) (link : LinkId) :
    (holes.grow link).queues[link]? = some (holes.on link) := by
  have hlt : link < (holes.grow link).queues.length := by
    rw [grow, List.length_append, List.length_replicate]
    refine Nat.lt_of_succ_le ?_
    omega
  rw [← on_grow holes link link, on, List.getElem?_eq_getElem hlt, Option.getD_some]

theorem deliver_queues (holes : Pigeonholes π) (event : Event π) : (holes.deliver event).queues =
    (holes.grow event.link).queues.set event.link (holes.on event.link ++ [event]) := by
  have hqueue := exists_queue_grow holes event.link
  show (holes.grow event.link).queues.modify event.link (· ++ [event]) = _
  rw [List.modify_eq_set, hqueue]
  rfl

theorem on_deliver (holes : Pigeonholes π) (event : Event π) (link : LinkId) :
    (holes.deliver event).on link =
      holes.on link ++ if event.link = link then [event] else [] := by
  have hlt := (List.getElem?_eq_some_iff.mp (exists_queue_grow holes event.link)).1
  rw [on, deliver_queues, List.getElem?_set]
  by_cases h : event.link = link
  · subst h
    rw [if_pos rfl, if_pos rfl, if_pos hlt]
    rfl
  · rw [if_neg h, if_neg h, List.append_nil]
    exact on_grow holes event.link link

namespace Sorts

theorem deliver (h : holes.Sorts inbox) (event : Event π) :
    (holes.deliver event).Sorts (inbox.deliver event) := by
  refine ⟨fun link => ?_, ?_, h.held⟩
  · rw [on_deliver, h.on link]
    show _ = (inbox.readable ++ [event]).filter _
    by_cases hlink : event.link = link <;> simp [hlink]
  · have hset := total_set_add List.length (exists_queue_grow holes event.link)
      (holes.on event.link ++ [event])
    rw [← deliver_queues, total_grow, List.length_append, List.length_singleton, h.size] at hset
    show _ = (inbox.readable ++ [event]).length
    rw [List.length_append, List.length_singleton]
    omega

theorem foldl_deliver (h : holes.Sorts inbox) (events : List (Event π)) :
    (events.foldl Pigeonholes.deliver holes).Sorts (events.foldl Inbox.deliver inbox) := by
  induction events generalizing holes inbox with
  | nil => exact h
  | cons event rest ih => exact ih (h.deliver event)

/-- To commit is to deliver the held events one after another. -/
theorem commit (h : holes.Sorts inbox) : holes.commit.2.Sorts inbox.commit := by
  have hstart : Sorts { holes with held := [] } { inbox with held := [] } := ⟨h.on, h.size, rfl⟩
  have hdone := hstart.foldl_deliver inbox.held
  rw [Row.deliver_readable, ← h.held] at hdone
  show Sorts _ { readable := inbox.readable ++ inbox.held }
  rw [← h.held]
  exact hdone

theorem unread (h : holes.Sorts inbox) : holes.unread = inbox.unread := by
  rw [Pigeonholes.unread, h.size, h.held]
  rfl

theorem clear (holes : Pigeonholes π) (inbox : Inbox π) : holes.clear.2.Sorts inbox.clear := by
  refine ⟨fun link => ?_, ?_, rfl⟩
  · show ((holes.queues.map fun _ => [])[link]?).getD [] = []
    rw [List.getElem?_map]
    cases holes.queues[link]? <;> rfl
  · show total List.length (holes.queues.map fun _ => []) = 0
    rw [total_map]
    exact total_zero _

/-- The first event of a link end is the first in its queue. -/
theorem take (h : holes.Sorts inbox) (link : LinkId) :
    (holes.take? link = none ∧ inbox.take? link = none) ∨
      ∃ event holes' inbox', holes.take? link = some (event, holes') ∧
        inbox.take? link = some (event, inbox') ∧ holes'.Sorts inbox' := by
  cases htake : inbox.take? link with
  | none =>
    have hempty := Inbox.on_of_take?_none htake
    rw [Inbox.on, Event.on, List.map_eq_nil_iff] at hempty
    exact Or.inl ⟨take?_of_nil ((h.on link).trans hempty), rfl⟩
  | some taken =>
    right
    obtain ⟨event, inbox'⟩ := taken
    obtain ⟨rfl, hheld, front, back, hreadable, hreadable', hfront⟩ := Inbox.take?_eq_some htake
    have hnone : front.filter (fun a => a.link == event.link) = [] :=
      List.filter_eq_nil_iff.mpr (by simpa using hfront)
    have hfirst : holes.on event.link =
        event :: back.filter fun a => a.link == event.link := by
      rw [h.on, hreadable, List.filter_append, hnone, List.filter_cons_of_pos (by simp)]
      rfl
    have hqueue := queue_of_cons hfirst
    refine ⟨event, _, inbox', take?_of_cons hfirst, rfl, fun other => ?_, ?_,
      h.held.trans hheld.symm⟩
    · rw [hreadable', List.filter_append]
      by_cases hother : event.link = other
      · subst hother
        rw [hnone]
        simp [Pigeonholes.on, (List.getElem?_eq_some_iff.mp hqueue).1]
      · have hsame := h.on other
        rw [hreadable, List.filter_append, List.filter_cons_of_neg (by simpa using hother)] at hsame
        rw [← hsame, Pigeonholes.on, Pigeonholes.on, List.getElem?_set_ne hother]
    · have hset := total_set_add List.length hqueue (back.filter fun a => a.link == event.link)
      have hsize := h.size
      rw [hreadable, List.length_append, List.length_cons] at hsize
      rw [hreadable', List.length_append]
      rw [List.length_cons] at hset
      dsimp only
      omega

theorem serve (h : holes.Sorts inbox) (links : Nat) (request : Inbox.Request π) :
    ((layout π links).serve holes request).1 = ((Inbox.layout π).serve inbox request).1 ∧
      ((layout π links).serve holes request).2.Sorts ((Inbox.layout π).serve inbox request).2 := by
  cases request with
  | deliver event => exact ⟨rfl, h.deliver event⟩
  | hold event => exact ⟨rfl, h.on, h.size, congrArg (· ++ [event]) h.held⟩
  | commit =>
    have hcount : holes.held.length = inbox.held.length := by rw [h.held]
    exact ⟨congrArg Inbox.Answer.counted hcount, h.commit⟩
  | take link =>
    obtain ⟨hholes, hinbox⟩ | ⟨event, holes', inbox', hholes, hinbox, hnext⟩ := h.take link
    · simp only [Inbox.Layout.serve, layout, Inbox.layout, hholes, hinbox, true_and]
      exact h
    · simp only [Inbox.Layout.serve, layout, Inbox.layout, hholes, hinbox, true_and]
      exact hnext
  | unread => exact ⟨congrArg Inbox.Answer.counted h.unread, h⟩
  | clear => exact ⟨congrArg Inbox.Answer.counted h.unread, clear holes inbox⟩

end Sorts

theorem sorts_start (links : Nat) : (layout π links).start.Sorts (Inbox.layout π).start := by
  refine ⟨fun link => ?_, ?_, rfl⟩
  · show ((List.replicate links [])[link]?).getD [] = []
    rw [List.getElem?_replicate]
    split <;> rfl
  · exact total_replicate List.length links []

/-- Pigeonholes answer whatever requests as an inbox does. -/
theorem run_sorts (links : Nat) (requests : List (Inbox.Request π)) :
    (layout π links).history requests = (Inbox.layout π).history requests ∧
      ((layout π links).after requests).Sorts ((Inbox.layout π).after requests) := by
  induction requests using List.reverseRecOn with
  | nil => exact ⟨rfl, sorts_start links⟩
  | append_singleton past request ih =>
    obtain ⟨hanswer, hnext⟩ := ih.2.serve links request
    rw [Inbox.Layout.history_concat, Inbox.Layout.history_concat, ih.1, Inbox.Layout.after_concat,
      Inbox.Layout.after_concat]
    refine ⟨?_, hnext⟩
    rw [Inbox.Layout.answer, hanswer]
    rfl

end Pigeonholes

/-! ## Order -/

/-- Every link end of an inbox is a queue of what was delivered on it or committed to it: what is
taken is its beginning, in order. The partition's own events can be taken only behind a commit,
which puts them behind what is there. Whatever came is unread until it is taken or cleared.
Pigeonholes for any number of link ends answer in the same way, also on link ends beyond it. -/
theorem Inbox.keeps_order (requests : List (Inbox.Request π)) :
    (Inbox.layout π).KeepsOrder requests ∧
    (∀ link, ((Inbox.layout π).after (requests ++ [.commit])).on link =
      ((Inbox.layout π).after requests).on link ++
        Event.on link ((Inbox.layout π).account requests).own) ∧
    ∀ links, (Pigeonholes.layout π links).history requests = (Inbox.layout π).history requests := by
  refine ⟨Inbox.keepsOrder requests, fun link => ?_, fun links =>
    (Pigeonholes.run_sorts links requests).1⟩
  rw [Layout.after_concat, ← (Inbox.holds_after requests).held]
  exact Event.on_append ..

end Lookahead
