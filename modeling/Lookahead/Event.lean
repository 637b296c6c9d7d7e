import Lookahead.Schedule.Activity
import Lookahead.Identity

/-!
Events that travel over links, and the actions a partition takes when something comes due.
-/

namespace Lookahead

/-- Payloads know how many bytes to count for them when they are exchanged. -/
class DataSize (π : Type) where
  dataSize : π → Nat

export DataSize (dataSize)

/-- A payload addressed to a link end of the partition that it is delivered in. -/
structure Event (π : Type) where
  link : LinkId
  payload : π
deriving DecidableEq

/-- What a partition does when an activity comes due. -/
inductive Action (π : Type) where
  | deliver (event : Event π)
  | clock (id : ClockId)
  | sync
  | stop
deriving DecidableEq

/-- An activity of a running partition. -/
abbrev Scheduled (π : Type) := Activity (Action π)

variable {π : Type}

def Action.event? : Action π → Option (Event π)
  | .deliver event => some event
  | _ => none

/-- Only delivered events count for the volume of an exchange. -/
def Action.dataSize [DataSize π] (action : Action π) : Nat :=
  match action with
  | .deliver event => Lookahead.dataSize event.payload
  | _ => 0

end Lookahead
