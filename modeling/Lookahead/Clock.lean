import Lookahead.Config
import Lookahead.Handler.Program
import Lookahead.Profile
import Lookahead.Schedule.Timeline

/-!
Clocks: recurring activities that call their handlers once a cycle.

A clock is scheduled as long as it has handlers. One whose handlers are all gone lies dormant after
its next turn, until a handler is added again.
-/

namespace Lookahead

/-- A handler on a clock, and how often it was called. -/
structure Attached (κ : Type) where
  id : HandlerId
  handler : κ
  calls : Nat := 0

/-- A clock with its handlers in the order of registration. -/
structure Clock (κ : Type) where
  id : ClockId
  period : Period
  config : ClockConfig
  cycle : Nat := 0
  handlers : List (Attached κ) := []
  /-- Handlers that were removed. -/
  retired : List (Attached κ) := []
  scheduled : Bool := false

namespace Clock

variable {κ π : Type}

/-- When a clock that is started now fires first: at this very instant, if it is a boundary after
the start where the clock still has its turn and the policy allows it, and otherwise at the next
boundary, whose calculation is not guarded. -/
def firstFiring (clock : Clock κ) (timeline : Timeline π) : Time :=
  let now := timeline.now
  if clock.config.policy = .sameInstant ∧ timeline.priority < clock.config.priority ∧
      now ≠ Time.zero ∧ now.ticks % clock.period.factor = 0 then
    now
  else
    clock.period.nextAfter now

/-- Put a dormant clock on the timeline; it counts its cycles from the start of time. -/
def schedule (clock : Clock κ) (timeline : Timeline π) : Clock κ × Timeline π :=
  ({ clock with cycle := clock.period.cyclesAt timeline.now, scheduled := true },
    timeline.insert (clock.firstFiring timeline) clock.config.priority (.clock clock.id))

/-- Add a handler behind the others, and wake the clock if it is dormant. -/
def register (clock : Clock κ) (id : HandlerId) (handler : κ) (timeline : Timeline π) :
    Clock κ × Timeline π :=
  let clock := { clock with handlers := clock.handlers ++ [{ id := id, handler := handler }] }
  if clock.scheduled then (clock, timeline) else clock.schedule timeline

/-- Remove a handler, if it is there. The clock keeps its place on the timeline. -/
def unregister (clock : Clock κ) (id : HandlerId) : Clock κ :=
  match clock.handlers.find? fun entry => entry.id == id with
  | none => clock
  | some entry =>
    { clock with
      handlers := clock.handlers.eraseP fun entry => entry.id == id
      retired := clock.retired ++ [entry] }

/-- The cycle that the next firing hands out. -/
def nextCycle (clock : Clock κ) : Nat := clock.cycle + 1

def handlerProfile (clock : Clock κ) (entry : Attached κ) : HandlerProfile where
  factor := clock.period.factor
  handler := entry.id
  calls := entry.calls
  time := if clock.config.profile = .time then some Duration.zero else none

/-- Every handler that ever was on the clock, by number; nothing if profiling is off. -/
def profile (clock : Clock κ) : List HandlerProfile :=
  if clock.config.profile = .off then []
  else Ordered.sort (fun a b => a.handler < b.handler)
    ((clock.retired ++ clock.handlers).map clock.handlerProfile)

end Clock

end Lookahead
