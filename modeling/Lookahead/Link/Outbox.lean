import Lookahead.Event
import Lookahead.Total

/-!
Outboxes: what one partition has sent to another and not yet handed over.
-/

namespace Lookahead

/-- Activities bound for one destination, in the order of sending. -/
structure Outbox (π : Type) where
  activities : List (Scheduled π) := []

namespace Outbox

variable {π : Type}

def append (box : Outbox π) (activity : Scheduled π) : Outbox π :=
  ⟨box.activities ++ [activity]⟩

def size (box : Outbox π) : Nat := box.activities.length

def isEmpty (box : Outbox π) : Bool := box.activities.isEmpty

/-- Bytes that the buffered events count for. -/
def dataSize [DataSize π] (box : Outbox π) : Nat :=
  total (fun activity => activity.payload.dataSize) box.activities

@[simp] theorem activities_append (box : Outbox π) (activity : Scheduled π) :
    (box.append activity).activities = box.activities ++ [activity] := rfl

end Outbox

end Lookahead
