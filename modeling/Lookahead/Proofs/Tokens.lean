import Lookahead.Proofs.Circle
import Lookahead.Proofs.Work

/-!
What becomes of a token that is delivered.

It vanishes if it has no hops left. Otherwise it is sent to the next partition, with one hop less
and at most two windows later, so that tokens are worth one less than before and the later they are
the fewer hops they have left.
-/

namespace Lookahead.Ring

variable {n window hops i : Nat} {p q : Partition model} {a : Scheduled model.Payload}

/-! ## Tokens -/

def hopsLeft (event : Event model.Payload) : Nat := Token.hopsLeft event.payload

def worth (a : Scheduled model.Payload) : Nat :=
  match a.payload with
  | .deliver event => hopsLeft event + 1
  | _ => 0

/-- The event of a token on a link end that takes it, with so many of its hops left that it is not
late. -/
structure OnItsWay (window hops : Nat) (time : Time) (event : Event model.Payload) : Prop where
  link : event.link = 1 ∨ event.link = 2
  hops_le : hopsLeft event ≤ hops
  time_lt : time.ticks < 4 * window + 2 * window * (hops - hopsLeft event)

/-- What partition `i` sends when a token with so many hops left is delivered. -/
def passing (n window i : Nat) (now : Time) (delay : Nat) : Nat → List (Sent model.Payload)
  | 0 => []
  | left + 1 => [⟨⟨i, out⟩, outRoute n window i, now, delay, ⟨left⟩⟩]

section

variable {now : Time} {delay left : Nat} {s : Sent model.Payload}

theorem target_of_passing (hs : s ∈ passing n window i now delay left) :
    s.target = ⟨after n i, 1⟩ := by
  cases left with
  | zero => cases hs
  | succ left =>
    rw [List.mem_singleton.mp hs]
    by_cases hsame : i = after n i
    · simp [Sent.target, outRoute, Delivery.between, ← hsame]
    · simp [Sent.target, outRoute, Delivery.between, hsame]

/-- Tokens leave a partition unless it is alone. -/
theorem leaves_of_passing (hi : i < n) (hs : s ∈ passing n window i now delay left) :
    s.leaves = decide (1 < n) := by
  cases left with
  | zero => cases hs
  | succ left =>
    rw [List.mem_singleton.mp hs]
    by_cases hmany : 1 < n
    · have hne : ¬i = after n i := fun h => after_ne hi hmany h.symm
      simp [Sent.leaves, outRoute, Delivery.between, hne, hmany]
    · have hsame : i = after n i := by
        have := after_lt hi
        omega
      simp [Sent.leaves, outRoute, Delivery.between, ← hsame, hmany]

theorem length_leaving_passing (hi : i < n) :
    ((passing n window i now delay left).filter Sent.leaves).length =
      if 1 < n then (passing n window i now delay left).length else 0 := by
  by_cases hmany : 1 < n
  · rw [if_pos hmany, List.filter_eq_self.mpr]
    intro s hs
    rw [leaves_of_passing hi hs, decide_eq_true hmany]
  · rw [if_neg hmany, List.filter_eq_nil_iff.mpr]
    · rfl
    · intro s hs
      rw [leaves_of_passing hi hs, decide_eq_false hmany]
      exact Bool.false_ne_true

theorem worth_passing :
    total (fun s => worth s.activity) (passing n window i now delay left) = left := by
  cases left with
  | zero => rfl
  | succ left => rfl

/-- A token that is not late is sent on in time. -/
theorem OnItsWay.passing {event : Event model.Payload} (h : OnItsWay window hops now event)
    (hdelay : delay ≤ window)
    (hs : s ∈ passing n window i now delay (hopsLeft event)) :
    OnItsWay window hops s.due ⟨s.target.link, s.payload⟩ := by
  obtain ⟨link, token⟩ := event
  obtain ⟨left⟩ : Token := token
  cases left with
  | zero => cases hs
  | succ left =>
    have htarget := target_of_passing hs
    obtain rfl := List.mem_singleton.mp hs
    have hle : left + 1 ≤ hops := h.hops_le
    have hlt : now.ticks < 4 * window + 2 * window * (hops - (left + 1)) := h.time_lt
    have hdue : (Sent.due ⟨⟨i, out⟩, outRoute n window i, now, delay, (⟨left⟩ : Token)⟩).ticks ≤
        now.ticks + window + delay :=
      Nat.le_trans (Nat.min_le_left _ _) (Nat.add_le_add_right (Nat.min_le_left _ _) _)
    refine ⟨Or.inl ?_, Nat.le_of_succ_le hle, ?_⟩
    · rw [htarget]
    · have hstep : 2 * window * (hops - left) =
          2 * window * (hops - (left + 1)) + 2 * window := by
        rw [← Nat.mul_succ]
        congr 1
        omega
      refine Nat.lt_of_le_of_lt hdue (?_ : _ < 4 * window + 2 * window * (hops - left))
      omega

end

/-! ## Partitions of the ring -/

/-- A partition of the ring during its run: what never changes about it, and the handlers of tokens,
of which only the random numbers change. -/
structure Circling (n window i : Nat) (p : Partition model) : Prop where
  id : p.id = i
  out : p.routes.get out = .ok (outRoute n window i)
  outboxes : p.member.outbound.length = n
  handlers : ∀ link : LinkId, link = 1 ∨ link = 2 → ∃ hopper : Hopper,
    p.receivers[link]? = some (some hopper) ∧ hopper.maxDelay = window
  clocks : p.clocks.clocks = []
  requests : p.requests.queued = []
  lifecycle : p.lifecycle = false

namespace Circling

theorem of_like (h : Circling n window i p) (hlike : q.Like p)
    (hreceivers : q.receivers = p.receivers) (hclocks : q.clocks = p.clocks)
    (hrequests : q.requests = p.requests) : Circling n window i q where
  id := hlike.id.trans h.id
  out := by
    rw [hlike.routes]
    exact h.out
  outboxes := hlike.outboxes.trans h.outboxes
  handlers := by
    rw [hreceivers]
    exact h.handlers
  clocks := by rw [hclocks, h.clocks]
  requests := by rw [hrequests, h.requests]
  lifecycle := hlike.lifecycle.trans h.lifecycle

/-- Sending on the link to the next partition succeeds. -/
theorem send (h : Circling n window i p) (hi : i < n) (delay : Nat) (token : model.Payload) :
    p.context.desk.send Ring.out delay token =
      .ok ⟨⟨i, Ring.out⟩, outRoute n window i, p.timeline.now, delay, token⟩ := by
  have hroute : p.context.desk.routes.get Ring.out = .ok (outRoute n window i) := h.out
  have hpartition : p.context.desk.partition = i := h.id
  have hreach : after n i < p.context.desk.outboxes := by
    show after n i < p.member.outbound.length
    rw [h.outboxes]
    exact after_lt hi
  unfold Desk.send
  rw [hroute, hpartition]
  by_cases hsame : i = after n i
  · simp only [outRoute, Delivery.between, if_pos hsame]
    rfl
  · simp only [outRoute, Delivery.between, if_neg hsame, if_pos hreach]
    rfl

/-- What the handler of a token does: it sends it on if it has hops left, and goes on. -/
theorem reply_hop (h : Circling n window i p) (hi : i < n) {hopper : Hopper}
    (hdelay : hopper.maxDelay = window) (event : Event model.Payload) :
    ∃ (delay : Nat) (hopper' : Hopper), delay ≤ window ∧ hopper'.maxDelay = window ∧
      (model.receive hopper event p.context.view).reply p.context.desk =
        ⟨passing n window i p.timeline.now delay (hopsLeft event), p.requests, p.state,
          some (.ok hopper')⟩ := by
  obtain ⟨link, token⟩ := event
  obtain ⟨left⟩ : Token := token
  cases left with
  | zero => exact ⟨0, hopper, Nat.zero_le _, hdelay, rfl⟩
  | succ left =>
    refine ⟨hopper.source hopper.drawn % (hopper.maxDelay + 1),
      { hopper with drawn := hopper.drawn + 1 }, ?_, hdelay, ?_⟩
    · rw [← hdelay]
      exact Nat.le_of_lt_succ (Nat.mod_lt _ (Nat.succ_pos _))
    · exact (Program.reply_send (h.send hi _ (⟨left⟩ : Token)) rfl).trans rfl

/-- A token is delivered and sent on, and the partition goes on with nothing new to do but what it
has sent to itself. -/
theorem deliver (h : Circling n window i p) (hi : i < n) {event : Event model.Payload}
    (hlink : event.link = 1 ∨ event.link = 2) :
    ∃ delay ≤ window, p.inside.sends p.timeline.now p.timeline.priority (.deliver event) =
        passing n window i p.timeline.now delay (hopsLeft event) ∧
      ∃ next, p.deliver event = .dispatch next ∧ Circling n window i next ∧
        next.timeline = p.timeline.addAll
          (Sent.kept (passing n window i p.timeline.now delay (hopsLeft event))) := by
  obtain ⟨hopper, hhopper, hdelay⟩ := h.handlers event.link hlink
  obtain ⟨delay, hopper', hle, hdelay', hreply⟩ := h.reply_hop hi hdelay event
  have hinside : p.inside.receivers[event.link]? = some (some hopper) := hhopper
  have hsends := (Inside.sends_deliver hinside p.timeline.now p.timeline.priority).trans
    (congrArg Reply.sends hreply)
  have hset : ∀ link : LinkId, link = 1 ∨ link = 2 → ∃ hopper : Hopper,
      (p.receivers.set event.link (some hopper'))[link]? = some (some hopper) ∧
        hopper.maxDelay = window := by
    intro link hlink'
    by_cases heq : event.link = link
    · have hlt : event.link < p.receivers.length := (List.getElem?_eq_some_iff.mp hhopper).1
      refine ⟨hopper', ?_, hdelay'⟩
      rw [← heq, List.getElem?_set_self hlt]
      rfl
    · rw [List.getElem?_set_ne heq]
      exact h.handlers link hlink'
  refine ⟨delay, hle, hsends, _, Partition.deliver_of_reply hhopper hreply rfl h.requests, ?_,
    congrArg p.timeline.addAll (List.append_nil _)⟩
  exact ⟨h.id, h.out, (Sent.length_postAll ..).trans h.outboxes, hset, h.clocks, h.requests,
    h.lifecycle⟩

section

variable {d : Dispatch model} {e : Effect model} {event : Event model.Payload}

theorem of_next? (h : Circling n window i p) (hnext : p.next? = some d) :
    Circling n window i d.partition := by
  obtain ⟨timeline, -, hpartition⟩ := Partition.next?_eq_some_iff.mp hnext
  refine h.of_like (.next? hnext) ?_ ?_ ?_
  · rw [hpartition]
  · rw [hpartition]
  · rw [hpartition]

/-- A token that is dispatched does no harm. -/
theorem after (h : Circling n window i p) (hi : i < n) (hnext : p.next? = some d)
    (hevent : d.activity.payload = .deliver event) (hlink : event.link = 1 ∨ event.link = 2)
    (heffect : e.Of d) :
    (∃ delay ≤ window, d.sends = passing n window i d.activity.time delay (hopsLeft event)) ∧
      e.fault = none ∧ Circling n window i (d.partition.after e) ∧
      (d.partition.after e).timeline = d.partition.timeline.addAll (Sent.kept d.sends) := by
  obtain ⟨delay, hle, hsends, next, hdeliver, hcircling, htimeline⟩ :=
    (h.of_next? hnext).deliver hi hlink
  have hnow : d.partition.timeline.now = d.activity.time := (Partition.agenda_of_next? hnext).2.1
  have hpassing : d.sends = passing n window i d.activity.time delay (hopsLeft event) := by
    unfold Dispatch.sends
    rw [hevent, hsends, hnow]
  have hact := heffect.act d.partition rfl rfl rfl
  rw [hevent] at hact
  have hsame : Partition.Next.dispatch next = d.partition.next e := hdeliver.symm.trans hact
  refine ⟨⟨delay, hle, hpassing⟩, ?_⟩
  unfold Partition.next at hsame
  cases hfault : e.fault with
  | some err =>
    rw [hfault] at hsame
    cases hsame
  | none =>
    rw [hfault] at hsame
    cases hsame
    refine ⟨rfl, hcircling, ?_⟩
    rw [hpassing, htimeline, hnow]

end

theorem start {tokens : Nat} {sources : Sources}
    (hp : (circle n window tokens hops sources).partitions[i]? = some p) :
    Circling n window i p.start := by
  obtain ⟨hi, rfl⟩ := eq_partition hp
  exact {
    id := rfl
    out := get_out hi
    outboxes := List.length_replicate.trans partitions_builder
    handlers := by
      rintro link (rfl | rfl)
      · exact ⟨arounds n window sources i, rfl, rfl⟩
      · exact ⟨starter window sources i, rfl, rfl⟩
    clocks := rfl
    requests := rfl
    lifecycle := lifecycle_builder }

end Circling

end Lookahead.Ring
