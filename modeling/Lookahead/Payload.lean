import Lookahead.Event

/-!
Ready-made payloads: words of the usual widths, text, and stamps that know when they should arrive.
-/

namespace Lookahead

/-- A payload that carries its own expected arrival. -/
structure Stamp where
  id : Nat
  origin : PartitionId
  sentAt : Time
  expectedAt : Time
deriving DecidableEq

/-- What an event can carry. -/
inductive Payload where
  | unit
  | u8 (value : UInt8)
  | u16 (value : UInt16)
  | u32 (value : UInt32)
  | u64 (value : UInt64)
  | text (value : String)
  | stamp (value : Stamp)
deriving DecidableEq

namespace Payload

/-- The kinds of payload. -/
inductive Kind where
  | unit | u8 | u16 | u32 | u64 | text | stamp
deriving DecidableEq

def kind : Payload → Kind
  | .unit => .unit
  | .u8 _ => .u8
  | .u16 _ => .u16
  | .u32 _ => .u32
  | .u64 _ => .u64
  | .text _ => .text
  | .stamp _ => .stamp

/-- Bytes that a payload of this kind counts for. Text counts as the pointer, capacity and length
that hold it. -/
def Kind.size : Kind → Nat
  | .unit => 0
  | .u8 => 1
  | .u16 => 2
  | .u32 => 4
  | .u64 => 8
  | .text => 24
  | .stamp => 32

instance : DataSize Payload := ⟨fun payload => payload.kind.size⟩

/-- The hops that a word of 32 bits has left after one more, if it has any. -/
def nextHop? : Payload → Option Payload
  | .u32 value => if 0 < value then some (.u32 (value - 1)) else none
  | _ => none

def stamp? : Payload → Option Stamp
  | .stamp value => some value
  | _ => none

end Payload

namespace Event

def takeAs (event : Event Payload) (kind : Payload.Kind) : Except (Event Payload) Payload :=
  if event.payload.kind = kind then .ok event.payload else .error event

end Event

end Lookahead
