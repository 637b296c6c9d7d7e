import Lookahead.Schedule.Activity
import Lookahead.Ordered

/-!
The activity queue of one partition.

The entries are held in the order in which they will be taken. A new entry goes behind those due at
the same time and priority, so ties leave in the order of arrival, and a queue fed the same
activities again answers in the same way.
-/

namespace Lookahead

/-- What can go wrong with a queue. -/
inductive QueueError where
  | empty
deriving DecidableEq

def QueueError.message : QueueError → String
  | .empty => "pop from empty activity queue"

/-- Activities in the order of dispatch, and how many were ever inserted. -/
structure Queue (α : Type) where
  entries : List (Activity α) := []
  inserted : Nat := 0

namespace Queue

variable {α : Type}

/-- Queue an activity under the next sequence number, whatever number it had. -/
def insert (q : Queue α) (a : Activity α) : Queue α where
  entries := Ordered.place Activity.before { a with seq := q.inserted } q.entries
  inserted := q.inserted + 1

/-- Take the activity that is due first. -/
def pop (q : Queue α) : Except QueueError (Activity α × Queue α) :=
  match q.entries with
  | [] => .error .empty
  | a :: rest => .ok (a, { q with entries := rest })

/-- Take all activities one after another. -/
def popAll (q : Queue α) : List (Activity α) × Queue α := (q.entries, { q with entries := [] })

def peek? (q : Queue α) : Option (Activity α) := q.entries.head?

def nextTime? (q : Queue α) : Option Time := q.peek?.map (·.time)

def size (q : Queue α) : Nat := q.entries.length

def isEmpty (q : Queue α) : Bool := q.entries.isEmpty

/-- Everything queued, in the order of dispatch. -/
def toList (q : Queue α) : List (Activity α) := q.entries

end Queue

end Lookahead
