import Lookahead.Clock

/-!
All clocks of a partition: one for each period in use. Clocks are never removed, so the identity of
a clock is its position.

Handlers can be added and removed directly while a simulation is built. While it runs, changes are
requested by handlers and carried out, in order, as soon as the running handler is done.
-/

namespace Lookahead

/-! ## Requests -/

/-- A change to a partition's clocks that waits until the running handler is done. -/
inductive ClockRequest (κ : Type) where
  | register (id : HandlerId) (period : Period) (handler : κ)
  | unregister (handle : ClockHandle)

/-- Waiting requests in order. Handles are given out at once, so they are numbered here. -/
structure ClockRequests (κ : Type) where
  nextHandler : HandlerId := 0
  queued : List (ClockRequest κ) := []

namespace ClockRequests

variable {κ : Type}

/-- Request a new handler on the clock of `period`. -/
def register (requests : ClockRequests κ) (period : Period) (handler : κ) :
    ClockHandle × ClockRequests κ :=
  (⟨period.factor, requests.nextHandler⟩,
    { nextHandler := requests.nextHandler + 1
      queued := requests.queued ++ [.register requests.nextHandler period handler] })

def unregister (requests : ClockRequests κ) (handle : ClockHandle) : ClockRequests κ :=
  { requests with queued := requests.queued ++ [.unregister handle] }

end ClockRequests

/-! ## The set -/

/-- A partition's clocks in the order in which their periods were first used. -/
structure ClockSet (κ : Type) where
  clocks : List (Clock κ) := []
  config : ClockConfig := {}
  nextHandler : HandlerId := 0
  /-- How many firings there were. -/
  fired : Nat := 0

namespace ClockSet

variable {κ π : Type}

/-- Register a handler on the first clock of this period in the list, or on a new clock behind the
others; `position` is that of the list's head. -/
def registerIn (config : ClockConfig) (id : HandlerId) (period : Period) (handler : κ)
    (timeline : Timeline π) : Nat → List (Clock κ) → List (Clock κ) × Timeline π
  | position, [] =>
    let (clock, timeline) :=
      Clock.register { id := position, period, config } id handler timeline
    ([clock], timeline)
  | position, clock :: rest =>
    if clock.period = period then
      let (clock, timeline) := clock.register id handler timeline
      (clock :: rest, timeline)
    else
      let (rest, timeline) := registerIn config id period handler timeline (position + 1) rest
      (clock :: rest, timeline)

/-- Register a handler under a given number. -/
def attach (set : ClockSet κ) (id : HandlerId) (period : Period) (handler : κ)
    (timeline : Timeline π) : ClockSet κ × Timeline π :=
  let (clocks, timeline) := registerIn set.config id period handler timeline 0 set.clocks
  ({ set with clocks, nextHandler := max set.nextHandler (id + 1) }, timeline)

def register (set : ClockSet κ) (period : Period) (handler : κ) (timeline : Timeline π) :
    ClockHandle × ClockSet κ × Timeline π :=
  (⟨period.factor, set.nextHandler⟩, set.attach set.nextHandler period handler timeline)

def get? (set : ClockSet κ) (factor : Nat) : Option (Clock κ) :=
  set.clocks.find? fun clock => clock.period.factor == factor

/-- Remove a handler and say whether its clock has none left. -/
def unregister (set : ClockSet κ) (handle : ClockHandle) :
    Except ConfigError (Bool × ClockSet κ) :=
  match set.get? handle.factor with
  | none => .error (.unknownClock handle.factor)
  | some clock =>
    .ok ((clock.unregister handle.handler).handlers.isEmpty,
      { set with
        clocks := set.clocks.map fun clock =>
          if clock.period.factor = handle.factor then clock.unregister handle.handler else clock })

/-- No requests yet; their numbers go on where those of the set end. -/
def requests (set : ClockSet κ) : ClockRequests κ := { nextHandler := set.nextHandler }

/-- Carry out one request. A removal that names no clock is passed over. -/
def applyOne (state : ClockSet κ × Timeline π) : ClockRequest κ → ClockSet κ × Timeline π
  | .register id period handler => state.1.attach id period handler state.2
  | .unregister handle =>
    match state.1.unregister handle with
    | .ok (_, set) => (set, state.2)
    | .error _ => state

/-- Has the clock of this period its next turn on the timeline? -/
def isScheduled (set : ClockSet κ) (period : Period) : Bool :=
  (set.clocks.find? fun clock => clock.period = period).any fun clock => clock.scheduled

/-- Does a request start a clock whose next boundary does not fit 64 bits? -/
def overflowsOn (set : ClockSet κ) (now : Time) : ClockRequest κ → Bool
  | .register _ period _ => !set.isScheduled period && period.overflowsAfter now
  | .unregister _ => false

/-- Does one of the requests? A clock that is on the timeline stays there while they are carried
out, so the first handler for its period starts it and the state at the beginning decides. -/
def overflows (set : ClockSet κ) (requests : ClockRequests κ) (now : Time) : Bool :=
  requests.queued.any (set.overflowsOn now)

/-- Carry out all requests in order, at the present instant of the timeline. -/
def apply (set : ClockSet κ) (requests : ClockRequests κ) (timeline : Timeline π) :
    ClockSet κ × ClockRequests κ × Timeline π :=
  let (set, timeline) := requests.queued.foldl applyOne (set, timeline)
  (set, { requests with queued := [] }, timeline)

/-- The profiles of all handlers that ever were registered, by number. -/
def profile (set : ClockSet κ) : List HandlerProfile :=
  Ordered.sort (fun a b => a.handler < b.handler) (set.clocks.flatMap Clock.profile)

end ClockSet

end Lookahead
