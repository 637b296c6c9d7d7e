import Lookahead.Time

/-!
Activities: anything that is scheduled for an instant with a priority.

Activities are dispatched by time, then by priority (the smaller number first), then in the order in
which they were queued.
-/

namespace Lookahead

/-! ## Well-known priorities -/

namespace Priority

/-- Stops end a partition before anything else at their instant. -/
def stop : Int := 1

/-- Synchronization between the partitions of one process. -/
def threadSync : Int := 20

def rankSync : Int := 25

def clock : Int := 40

def event : Int := 50

/-- Callbacks that happen once. -/
def oneShot : Int := 80

/-- Events that have to see every other event of their instant. -/
def finalEvent : Int := 98

def exit : Int := 99

end Priority

/-! ## Activities -/

/-- Something due at `time`; `seq` is the number that its queue gave it, zero before that. -/
structure Activity (α : Type) where
  time : Time
  priority : Int
  payload : α
  seq : Nat := 0
deriving DecidableEq

variable {α : Type}

/-- Is `a` due strictly before `b`, by time and then by priority? -/
def Activity.before (a b : Activity α) : Bool :=
  a.time < b.time || (a.time = b.time && a.priority < b.priority)

/-- The same activity, not due before `now`. -/
def Activity.notBefore (a : Activity α) (now : Time) : Activity α :=
  { a with time := max now a.time }

end Lookahead
