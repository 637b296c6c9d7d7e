import Lookahead.Partition.Dispatch
import Lookahead.Partition.Phase
import Lookahead.Proofs.Clock

/-!
What acting on an activity does to a partition.

The effect depends on what is inside the partition, on its instant and on its priority, but not on
what is queued: it queues some activities, adds to the outboxes, and replaces the inside
(`Inside.exists_leads`). All else of a partition is never touched by a handler.
-/

namespace Lookahead

variable {M : Model}

/-! ## Timed handlers -/

/-- What of a partition its handlers can tell apart, its timeline aside. -/
structure Inside (M : Model) where
  id : PartitionId
  routes : RouteTable
  receivers : List (Option M.Receiver)
  clocks : ClockSet M.Ticker
  requests : ClockRequests M.Ticker
  state : M.State
  tally : Tally
  outboxes : Nat

/-- What a dispatch does: it sends, it queues clock activities, it replaces what is inside, and it
may fail. -/
structure Effect (M : Model) where
  sends : List (Sent M.Payload)
  ticks : List (Scheduled M.Payload)
  receivers : List (Option M.Receiver)
  clocks : ClockSet M.Ticker
  requests : ClockRequests M.Ticker
  state : M.State
  tally : Tally
  fault : Option RunError := none

namespace Inside

def desk (inside : Inside M) (now : Time) (priority : Int) : Desk M.Ticker M.State where
  partition := inside.id
  routes := inside.routes
  now := now
  priority := priority
  outboxes := inside.outboxes
  requests := inside.requests
  state := inside.state

def sends (inside : Inside M) (now : Time) (priority : Int) :
    Action M.Payload → List (Sent M.Payload)
  | .deliver event =>
    match inside.receivers[event.link]? with
    | some (some receiver) =>
      ((M.receive receiver event (inside.desk now priority).view).reply
        (inside.desk now priority)).sends
    | _ => []
  | .clock id =>
    match inside.clocks.clocks[id]? with
    | none => []
    | some clock => (clock.firing M.tick (inside.desk now priority)).sends
  | _ => []

theorem sends_deliver {inside : Inside M} {event : Event M.Payload} {receiver : M.Receiver}
    (h : inside.receivers[event.link]? = some (some receiver)) (now : Time) (priority : Int) :
    inside.sends now priority (.deliver event) =
      ((M.receive receiver event (inside.desk now priority).view).reply
        (inside.desk now priority)).sends := by
  simp only [sends, h]

theorem made_sends (inside : Inside M) (now : Time) (priority : Int) (x : Action M.Payload) :
    ∀ s ∈ inside.sends now priority x, (inside.desk now priority).Made s := by
  intro s hs
  cases x with
  | deliver event =>
    simp only [sends] at hs
    split at hs
    · exact Program.made_reply _ _ s hs
    · cases hs
  | clock id =>
    simp only [sends] at hs
    split at hs
    · cases hs
    · exact Clock.made_firing _ _ _ s hs
  | sync => cases hs
  | stop => cases hs

/-- The clocks and the requests that are left when the handlers that an activity calls have all
returned. -/
def requested? (inside : Inside M) (now : Time) (priority : Int) :
    Action M.Payload → Option (ClockSet M.Ticker × ClockRequests M.Ticker)
  | .deliver event =>
    match inside.receivers[event.link]? with
    | some (some receiver) =>
      let reply := (M.receive receiver event (inside.desk now priority).view).reply
        (inside.desk now priority)
      match reply.value with
      | some (.ok _) => some (inside.clocks, reply.requests)
      | _ => none
    | _ => none
  | .clock id =>
    match inside.clocks.clocks[id]? with
    | none => some (inside.clocks, inside.requests)
    | some clock =>
      let reply := clock.firing M.tick (inside.desk now priority)
      reply.value.map fun (clock, _) => (inside.clocks.afterFiring id clock, reply.requests)
  | _ => none

/-- Does carrying out what an activity's handlers request start a clock whose next boundary does not
fit 64 bits? -/
def overflows (inside : Inside M) (now : Time) (priority : Int) (x : Action M.Payload) : Bool :=
  (inside.requested? now priority x).any fun (clocks, requests) => clocks.overflows requests now

def Exact (inside : Inside M) (now : Time) (priority : Int) (x : Action M.Payload) : Prop :=
  M.overflow = .panics ∨ inside.overflows now priority x = false

/-- What is inside after a reply, and with what was queued besides. -/
def replied {α : Type} (inside : Inside M) (reply : Reply M.Ticker M.State M.Payload α)
    (again : List (Scheduled M.Payload)) : Effect M :=
  { inside with
    sends := reply.sends
    ticks := again
    requests := reply.requests
    state := reply.state }

def after (inside : Inside M) (e : Effect M) : Inside M :=
  { inside with
    receivers := e.receivers
    clocks := e.clocks
    requests := e.requests
    state := e.state
    tally := e.tally }

end Inside

namespace Partition

def inside (p : Partition M) : Inside M where
  id := p.id
  routes := p.routes
  receivers := p.receivers
  clocks := p.clocks
  requests := p.requests
  state := p.state
  tally := p.tally
  outboxes := p.member.outbound.length

def after (p : Partition M) (e : Effect M) : Partition M :=
  { p with
    timeline := p.timeline.addAll (Sent.kept e.sends ++ e.ticks)
    member := { p.member with outbound := Sent.postAll e.sends p.member.outbound }
    receivers := e.receivers
    clocks := e.clocks
    requests := e.requests
    state := e.state
    tally := e.tally }

def next (p : Partition M) (e : Effect M) : Next M :=
  match e.fault with
  | none => .dispatch (p.after e)
  | some err => .fail err (p.after e)

@[simp] theorem inside_after (p : Partition M) (e : Effect M) :
    (p.after e).inside = p.inside.after e := by
  simp [inside, after, Inside.after]

@[simp] theorem now_after (p : Partition M) (e : Effect M) :
    (p.after e).timeline.now = p.timeline.now := Timeline.now_addAll ..

@[simp] theorem priority_after (p : Partition M) (e : Effect M) :
    (p.after e).timeline.priority = p.timeline.priority := Timeline.priority_addAll ..

theorem withContext_after {α : Type} (p : Partition M)
    (reply : Reply M.Ticker M.State M.Payload α) :
    p.withContext (p.context.after reply) = p.after (p.inside.replied reply []) := by
  simp [withContext, Context.after, Context.carry, context, after, inside, Inside.replied]

theorem withContext_addAll {α : Type} (p : Partition M)
    (reply : Reply M.Ticker M.State M.Payload α) (again : List (Scheduled M.Payload)) :
    p.withContext { p.context.after reply with
        timeline := (p.context.after reply).timeline.addAll again } =
      p.after (p.inside.replied reply again) := by
  simp [withContext, Context.after, Context.carry, context, after, inside, Inside.replied,
    Timeline.addAll_append]

/-! ## Carrying out requests -/

theorem applyRequests?_eq (p : Partition M) :
    p.applyRequests? =
      if M.overflow = .panics ∧ p.overflows = true then none else some p.applyRequests := by
  unfold applyRequests?
  cases M.overflow <;> cases p.overflows <;> rfl

/-- Requests that are carried out do not overflow in a build that panics. -/
theorem applyRequests?_eq_some {p q : Partition M} (h : p.applyRequests? = some q) :
    q = p.applyRequests ∧ (M.overflow = .panics → p.overflows = false) := by
  rw [applyRequests?_eq] at h
  split at h
  · cases h
  · rename_i hover
    exact ⟨(Option.some.inj h).symm, fun hpanics =>
      Bool.eq_false_iff.mpr fun h => hover ⟨hpanics, h⟩⟩

/-- After an effect that has replaced the clocks, either the requests make the thread panic, or they
queue clock activities and are gone. -/
theorem exists_applied (left : Effect M) (clocks : ClockSet M.Ticker) (now : Time)
    (priority : Int) :
    (M.overflow = .panics ∧ ∀ p : Partition M, p.timeline.now = now →
      ({ p.after left with clocks } : Partition M).applyRequests? = none) ∨
    ∃ (clocks' : ClockSet M.Ticker) (starts : List (Scheduled M.Payload)),
      (∀ a ∈ starts,
        a.IsTick now (M.overflow = .panics ∨ clocks.overflows left.requests now = false)) ∧
      ∀ p : Partition M, p.timeline.now = now → p.timeline.priority = priority →
        ({ p.after left with clocks } : Partition M).applyRequests? =
          some (p.after { left with
            ticks := left.ticks ++ starts
            clocks := clocks'
            requests := { left.requests with queued := [] } }) := by
  have hover : ∀ p : Partition M, p.timeline.now = now →
      ({ p.after left with clocks } : Partition M).overflows =
        clocks.overflows left.requests now := by
    rintro p rfl
    show clocks.overflows left.requests (p.after left).timeline.now = _
    rw [now_after]
  by_cases hpanics : M.overflow = .panics ∧ clocks.overflows left.requests now = true
  · exact Or.inl ⟨hpanics.1, fun p hnow =>
      (applyRequests?_eq _).trans (if_pos ⟨hpanics.1, (hover p hnow).trans hpanics.2⟩)⟩
  · obtain ⟨clocks', starts, hstarts, happly⟩ :=
      ClockSet.apply_eq (π := M.Payload) clocks left.requests now priority
    refine Or.inr ⟨clocks', starts, fun a ha => (hstarts a ha).imp fun hsafe => ?_, ?_⟩
    · rcases hsafe with hsafe | hsafe
      · exact Bool.eq_false_iff.mpr fun h => hpanics ⟨hsafe, h⟩
      · exact hsafe
    · intro p hnow hpriority
      rw [applyRequests?_eq, if_neg (by rwa [hover p hnow])]
      have happlied := happly (p.after left).timeline ((now_after ..).trans hnow)
        ((priority_after ..).trans hpriority)
      have hrequests : (p.after left).requests = left.requests := rfl
      simp only [applyRequests, hrequests, happlied]
      simp only [after, Timeline.addAll_append]

/-- Where nothing was requested of the clocks, nothing is carried out. -/
theorem applyRequests?_of_nil {p : Partition M} (h : p.requests.queued = []) :
    p.applyRequests? = some p := by
  have hsame : ({ p.requests with queued := [] } : ClockRequests M.Ticker) = p.requests := by
    rw [← h]
  have hover : p.overflows = false := by
    unfold overflows ClockSet.overflows
    rw [h, List.any_nil]
  rw [applyRequests?_eq, if_neg (by simp [hover])]
  unfold applyRequests ClockSet.apply
  simp only [h, List.foldl_nil, hsame]

/-! ## Deliveries and firings -/

section Acting

variable {p : Partition M} {event : Event M.Payload} {receiver next : M.Receiver} {id : ClockId}
  {ctx : M.Context} {clocks : ClockSet M.Ticker}

theorem deliver_of_ok (hreceiver : p.receivers[event.link]? = some (some receiver))
    (hrun : (M.receive receiver event p.context.view).run p.context = (ctx, some (.ok next))) :
    p.deliver event = (p.withContext ctx).applyRequests?.elim
      (.fail (.panicked p.id) (p.withContext ctx)) fun q =>
        .dispatch { q with
          receivers := q.receivers.set event.link (some next)
          tally := { q.tally with events := q.tally.events + 1 } } := by
  simp only [deliver, hreceiver, hrun]
  cases (p.withContext ctx).applyRequests? <;> rfl

theorem fire_of_some (hfire : p.clocks.fire M.tick id p.context = (ctx, some clocks)) :
    p.fire id = { p.withContext ctx with clocks }.applyRequests?.elim
      (.fail (.panicked p.id) (p.withContext ctx)) fun q =>
        .dispatch { q with tally := { q.tally with clockFires := q.tally.clockFires + 1 } } := by
  simp only [fire, hfire]
  cases { p.withContext ctx with clocks }.applyRequests? <;> rfl

/-- A delivery fails, or the handler returns and its requests are carried out. -/
theorem deliver_cases (p : Partition M) (event : Event M.Payload) :
    (∃ e q, p.deliver event = .fail e q) ∨
      ∃ receiver next ctx, p.receivers[event.link]? = some (some receiver) ∧
        (M.receive receiver event p.context.view).run p.context = (ctx, some (.ok next)) ∧
        (M.overflow = .panics → (p.withContext ctx).overflows = false) ∧
        p.deliver event = .dispatch { (p.withContext ctx).applyRequests with
          receivers := (p.withContext ctx).applyRequests.receivers.set event.link (some next)
          tally := { (p.withContext ctx).applyRequests.tally with
            events := (p.withContext ctx).applyRequests.tally.events + 1 } } := by
  rcases hreceiver : p.receivers[event.link]? with _ | _ | receiver
  · exact Or.inl ⟨_, _, by simp only [deliver, hreceiver]; rfl⟩
  · exact Or.inl ⟨_, _, by simp only [deliver, hreceiver]; rfl⟩
  rcases hrun : (M.receive receiver event p.context.view).run p.context with ⟨ctx, _ | _ | next⟩
  · exact Or.inl ⟨_, _, by simp only [deliver, hreceiver, hrun]; rfl⟩
  · exact Or.inl ⟨_, _, by simp only [deliver, hreceiver, hrun]; rfl⟩
  have hdeliver := deliver_of_ok hreceiver hrun
  cases happlied : (p.withContext ctx).applyRequests? with
  | none => exact Or.inl ⟨_, _, by rw [hdeliver, happlied, Option.elim_none]⟩
  | some q =>
    obtain ⟨rfl, hexact⟩ := applyRequests?_eq_some happlied
    exact Or.inr ⟨receiver, next, ctx, rfl, hrun, hexact, by rw [hdeliver, happlied]; rfl⟩

/-- A firing fails, or all handlers return and their requests are carried out. -/
theorem fire_cases (p : Partition M) (id : ClockId) :
    (∃ e q, p.fire id = .fail e q) ∨
      ∃ ctx clocks, p.clocks.fire M.tick id p.context = (ctx, some clocks) ∧
        (M.overflow = .panics → { p.withContext ctx with clocks }.overflows = false) ∧
        p.fire id = .dispatch { { p.withContext ctx with clocks }.applyRequests with
          tally := { { p.withContext ctx with clocks }.applyRequests.tally with
            clockFires :=
              { p.withContext ctx with clocks }.applyRequests.tally.clockFires + 1 } } := by
  rcases hfire : p.clocks.fire M.tick id p.context with ⟨ctx, _ | clocks⟩
  · exact Or.inl ⟨_, _, by simp only [fire, hfire]; rfl⟩
  have hfired := fire_of_some hfire
  cases happlied : { p.withContext ctx with clocks }.applyRequests? with
  | none => exact Or.inl ⟨_, _, by rw [hfired, happlied, Option.elim_none]⟩
  | some q =>
    obtain ⟨rfl, hexact⟩ := applyRequests?_eq_some happlied
    exact Or.inr ⟨ctx, clocks, rfl, hexact, by rw [hfired, happlied]; rfl⟩

end Acting

/-- Delivering an event to a handler that goes on and requests nothing of the clocks. -/
theorem deliver_of_reply {p : Partition M} {event : Event M.Payload} {receiver next : M.Receiver}
    {reply : Reply M.Ticker M.State M.Payload (Except LinkError M.Receiver)}
    (hreceiver : p.receivers[event.link]? = some (some receiver))
    (hreply : (M.receive receiver event p.context.view).reply p.context.desk = reply)
    (hvalue : reply.value = some (.ok next)) (hrequests : reply.requests.queued = []) :
    p.deliver event = .dispatch (p.after { p.inside with
      sends := reply.sends
      ticks := []
      receivers := p.receivers.set event.link (some next)
      requests := reply.requests
      state := reply.state
      tally := { p.tally with events := p.tally.events + 1 } }) := by
  have hnil : (p.after (p.inside.replied reply [])).requests.queued = [] := hrequests
  have hrun : (M.receive receiver event p.context.view).run p.context =
      (p.context.after reply, some (.ok next)) := by
    rw [Program.run_eq, hreply, hvalue]
  rw [deliver_of_ok hreceiver hrun, withContext_after, applyRequests?_of_nil hnil]
  rfl

end Partition

/-- `e` is what an activity leads to wherever a partition with the same things inside acts on it. -/
structure Inside.Leads (inside : Inside M) (now : Time) (priority : Int) (x : Action M.Payload)
    (e : Effect M) : Prop where
  sends : e.sends = inside.sends now priority x
  ticks : ∀ a ∈ e.ticks, a.IsTick now (inside.Exact now priority x)
  act : ∀ p : Partition M, p.inside = inside → p.timeline.now = now →
    p.timeline.priority = priority → p.act x = p.next e

namespace Inside

variable {inside : Inside M} {now : Time} {priority : Int}

/-- Delivering an event that nobody takes is a failure. -/
theorem leads_unhandled {event : Event M.Payload}
    (h : inside.receivers[event.link]?.join = none) :
    inside.Leads now priority (.deliver event) { inside with
      sends := [], ticks := [], fault := some (.unhandled inside.id event.link) } := by
  refine ⟨?_, by simp, ?_⟩
  · simp only [sends]
    split
    · rename_i receiver hreceiver
      rw [hreceiver] at h
      cases h
    · rfl
  · rintro p rfl - -
    have hjoin : p.receivers[event.link]?.join = none := h
    simp only [Partition.act, Partition.deliver]
    split
    · rename_i receiver hreceiver
      rw [hreceiver] at hjoin
      cases hjoin
    · simp [Partition.next, Partition.after, Partition.inside, Sent.kept, Sent.postAll]

section Delivery

variable {event : Event M.Payload} {receiver : M.Receiver}
  {reply : Reply M.Ticker M.State M.Payload (Except LinkError M.Receiver)}
  (hreceiver : inside.receivers[event.link]? = some (some receiver))
  (hreply : (M.receive receiver event (inside.desk now priority).view).reply
    (inside.desk now priority) = reply)
include hreceiver hreply

theorem run_receive {p : Partition M} (hp : p.inside = inside) (hnow : p.timeline.now = now)
    (hpriority : p.timeline.priority = priority) :
    p.receivers[event.link]? = some (some receiver) ∧
      (M.receive receiver event p.context.view).run p.context =
        (p.context.after reply, reply.value) := by
  subst hp hnow hpriority hreply
  exact ⟨hreceiver, Program.run_eq _ p.context⟩

theorem sends_reply : reply.sends = inside.sends now priority (.deliver event) := by
  rw [sends_deliver hreceiver, hreply]

/-- A handler that panics makes the thread panic. -/
theorem leads_panicked (hvalue : reply.value = none) :
    inside.Leads now priority (.deliver event)
      { inside.replied reply [] with fault := some (.panicked inside.id) } := by
  refine ⟨sends_reply hreceiver hreply, by simp [replied], fun p hp hnow hpriority => ?_⟩
  obtain ⟨hget, hrun⟩ := run_receive hreceiver hreply hp hnow hpriority
  simp only [Partition.act, Partition.deliver, hget, hrun, hvalue, Partition.withContext_after]
  subst hp
  rfl

/-- A handler that fails makes the partition fail. -/
theorem leads_error {e : LinkError} (hvalue : reply.value = some (.error e)) :
    inside.Leads now priority (.deliver event)
      { inside.replied reply [] with fault := some (.link e) } := by
  refine ⟨sends_reply hreceiver hreply, by simp [replied], fun p hp hnow hpriority => ?_⟩
  obtain ⟨hget, hrun⟩ := run_receive hreceiver hreply hp hnow hpriority
  simp only [Partition.act, Partition.deliver, hget, hrun, hvalue, Partition.withContext_after]
  subst hp
  rfl

/-- After a handler that returns, its requests are carried out. -/
theorem exists_leads_returned {next : M.Receiver} (hvalue : reply.value = some (.ok next)) :
    ∃ e, inside.Leads now priority (.deliver event) e := by
  have hrequested : inside.requested? now priority (.deliver event) =
      some (inside.clocks, reply.requests) := by
    simp only [requested?, hreceiver, hreply, hvalue]
  have hact : ∀ p : Partition M, p.inside = inside → p.timeline.now = now →
      p.timeline.priority = priority → p.act (.deliver event) =
        ({ p.after (inside.replied reply []) with clocks := inside.clocks } :
          Partition M).applyRequests?.elim
          (.fail (.panicked inside.id) (p.after (inside.replied reply []))) fun q =>
          .dispatch { q with
            receivers := q.receivers.set event.link (some next)
            tally := { q.tally with events := q.tally.events + 1 } } := by
    intro p hp hnow hpriority
    obtain ⟨hget, hrun⟩ := run_receive hreceiver hreply hp hnow hpriority
    rw [hvalue] at hrun
    rw [Partition.act, Partition.deliver_of_ok hget hrun, Partition.withContext_after]
    subst hp
    rfl
  -- In a build that panics, an overflow is a failure like the panic of a handler.
  rcases Partition.exists_applied (inside.replied reply []) inside.clocks now priority with
    ⟨_, hnone⟩ | ⟨clocks', starts, hstarts, happly⟩
  · refine ⟨{ inside.replied reply [] with fault := some (.panicked inside.id) },
      sends_reply hreceiver hreply, by simp [replied], fun p hp hnow hpriority => ?_⟩
    rw [hact p hp hnow hpriority, hnone p hnow]
    rfl
  · refine ⟨{ inside.replied reply [] with
        ticks := starts
        receivers := inside.receivers.set event.link (some next)
        clocks := clocks'
        requests := { reply.requests with queued := [] }
        tally := { inside.tally with events := inside.tally.events + 1 } },
      sends_reply hreceiver hreply, fun a ha => (hstarts a ha).imp ?_,
      fun p hp hnow hpriority => ?_⟩
    · simp only [Exact, overflows, hrequested, Option.any_some]
      exact fun h => h
    · rw [hact p hp hnow hpriority, happly p hnow hpriority]
      rfl

end Delivery

theorem exists_leads_deliver (inside : Inside M) (now : Time) (priority : Int)
    (event : Event M.Payload) : ∃ e, inside.Leads now priority (.deliver event) e := by
  match hreceiver : inside.receivers[event.link]? with
  | none => exact ⟨_, leads_unhandled (by rw [hreceiver]; rfl)⟩
  | some none => exact ⟨_, leads_unhandled (by rw [hreceiver]; rfl)⟩
  | some (some receiver) =>
    match hvalue : ((M.receive receiver event (inside.desk now priority).view).reply
        (inside.desk now priority)).value with
    | none => exact ⟨_, leads_panicked hreceiver rfl hvalue⟩
    | some (.error e) => exact ⟨_, leads_error hreceiver rfl hvalue⟩
    | some (.ok next) => exact exists_leads_returned hreceiver rfl hvalue

section Firing

variable {id : ClockId} (left : Effect M) (clocks : ClockSet M.Ticker)

/-- After the handlers of a clock, which have left this behind, their requests are carried out. -/
theorem exists_leads_fired (hsends : left.sends = inside.sends now priority (.clock id))
    (hticks : ∀ a ∈ left.ticks, a.IsTick now True)
    (hrequested : inside.requested? now priority (.clock id) = some (clocks, left.requests))
    (hact : ∀ p : Partition M, p.inside = inside → p.timeline.now = now →
      p.timeline.priority = priority → p.act (.clock id) =
        ({ p.after left with clocks } : Partition M).applyRequests?.elim
          (.fail (.panicked inside.id) (p.after left)) fun q =>
          .dispatch { q with tally := { q.tally with clockFires := q.tally.clockFires + 1 } }) :
    ∃ e, inside.Leads now priority (.clock id) e := by
  rcases Partition.exists_applied left clocks now priority with
    ⟨_, hnone⟩ | ⟨clocks', starts, hstarts, happly⟩
  · refine ⟨{ left with fault := some (.panicked inside.id) }, hsends,
      fun a ha => (hticks a ha).imp fun _ => trivial, fun p hp hnow hpriority => ?_⟩
    rw [hact p hp hnow hpriority, hnone p hnow]
    rfl
  · refine ⟨{ left with
        ticks := left.ticks ++ starts
        clocks := clocks'
        requests := { left.requests with queued := [] }
        tally := { left.tally with clockFires := left.tally.clockFires + 1 }
        fault := none }, hsends, fun a ha => ?_, fun p hp hnow hpriority => ?_⟩
    · rcases List.mem_append.mp ha with ha | ha
      · exact (hticks a ha).imp fun _ => trivial
      · refine (hstarts a ha).imp ?_
        simp only [Exact, overflows, hrequested, Option.any_some]
        exact fun h => h
    · rw [hact p hp hnow hpriority, happly p hnow hpriority]
      rfl

end Firing

theorem exists_leads_clock (inside : Inside M) (now : Time) (priority : Int) (id : ClockId) :
    ∃ e, inside.Leads now priority (.clock id) e := by
  cases hclock : inside.clocks.clocks[id]? with
  | none =>
    refine exists_leads_fired { inside with sends := [], ticks := [] } inside.clocks
      (by simp [sends, hclock]) (by simp)
      (by simp [requested?, hclock]) ?_
    rintro p rfl - -
    have hfire : p.clocks.fire M.tick id p.context = (p.context, some p.clocks) := by
      have hget : p.clocks.clocks[id]? = none := hclock
      simp only [ClockSet.fire, hget]
    have hafter : p.after { p.inside with sends := [], ticks := [] } = p := by
      simp [Partition.after, Partition.inside, Sent.kept, Sent.postAll]
    rw [Partition.act, Partition.fire_of_some hfire, hafter]
    rfl
  | some clock =>
    have hfire : ∀ p : Partition M, p.inside = inside → p.timeline.now = now →
        p.timeline.priority = priority → p.clocks.fire M.tick id p.context =
          ((p.context.afterFiring (clock.firing M.tick (inside.desk now priority))).1,
            (p.context.afterFiring (clock.firing M.tick (inside.desk now priority))).2.map
              (inside.clocks.afterFiring id)) := by
      rintro p rfl rfl rfl
      exact ClockSet.fire_eq M.tick hclock p.context
    have hsends : (clock.firing M.tick (inside.desk now priority)).sends =
        inside.sends now priority (.clock id) := by
      simp only [sends, hclock]
    cases hvalue : (clock.firing M.tick (inside.desk now priority)).value with
    | none =>
      refine ⟨{ inside.replied (clock.firing M.tick (inside.desk now priority)) [] with
        fault := some (.panicked inside.id) }, hsends, by simp [replied],
        fun p hp hnow hpriority => ?_⟩
      simp only [Partition.act, Partition.fire, hfire p hp hnow hpriority, Context.afterFiring,
        hvalue, Option.map_none, Partition.withContext_after]
      subst hp
      rfl
    | some result =>
      obtain ⟨clock', again⟩ := result
      refine exists_leads_fired
        (inside.replied (clock.firing M.tick (inside.desk now priority)) again)
        (inside.clocks.afterFiring id clock') hsends (Clock.isTick_firing hvalue)
        (by simp [requested?, hclock, hvalue, replied]) fun p hp hnow hpriority => ?_
      have hfired := hfire p hp hnow hpriority
      simp only [Context.afterFiring, hvalue, Option.map_some] at hfired
      rw [Partition.act, Partition.fire_of_some hfired, Partition.withContext_addAll]
      subst hp
      rfl

/-- Acting on an event or on a clock has the same effect whatever is queued. -/
theorem exists_leads (inside : Inside M) (now : Time) (priority : Int) {x : Action M.Payload}
    (hx : x.isWork = true) : ∃ e, inside.Leads now priority x e := by
  cases x with
  | deliver event => exact exists_leads_deliver inside now priority event
  | clock id => exact exists_leads_clock inside now priority id
  | sync => cases hx
  | stop => cases hx

end Inside

end Lookahead
