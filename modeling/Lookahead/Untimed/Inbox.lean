import Lookahead.Event

/-!
Untimed events that wait to be read in one partition.

Events from other partitions become readable when they are delivered. Events that the partition
sends to itself are held back until the phase is over.
-/

namespace Lookahead

/-- Readable events in the order of arrival, and the held ones in the order of sending. -/
structure Inbox (π : Type) where
  readable : List (Event π) := []
  held : List (Event π) := []

namespace Inbox

variable {π : Type}

/-- Make an event readable on its link end. -/
def deliver (inbox : Inbox π) (event : Event π) : Inbox π :=
  { inbox with readable := inbox.readable ++ [event] }

/-- Hold an event back until the phase is over. -/
def hold (inbox : Inbox π) (event : Event π) : Inbox π :=
  { inbox with held := inbox.held ++ [event] }

/-- Make the held events readable, behind what is there. -/
def commit (inbox : Inbox π) : Inbox π := { readable := inbox.readable ++ inbox.held }

/-- Take the oldest readable event of a link end. -/
def take? (inbox : Inbox π) (link : LinkId) : Option (Event π × Inbox π) :=
  match inbox.readable.find? fun event => event.link == link with
  | none => none
  | some event =>
    some (event,
      { inbox with readable := inbox.readable.eraseP fun event => event.link == link })

def waiting (inbox : Inbox π) (link : LinkId) : Nat :=
  inbox.readable.countP fun event => event.link == link

def unread (inbox : Inbox π) : Nat := inbox.readable.length + inbox.held.length

/-- Drop everything that waits. -/
def clear (_ : Inbox π) : Inbox π := {}

end Inbox

end Lookahead
