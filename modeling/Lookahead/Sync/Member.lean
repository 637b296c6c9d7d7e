import Lookahead.Link.Outbox
import Lookahead.Profile

/-!
A partition's side of the exchange between partitions.
-/

namespace Lookahead

/-- An outbox for each destination, the window of skip-ahead, the time of the next epoch, and what
was done so far. -/
structure Member (π : Type) where
  id : PartitionId
  outbound : List (Outbox π)
  window : Nat
  nextSync : Time
  epochs : Nat := 0
  exchanged : Nat := 0
  bytes : Nat := 0
  untimedRounds : Nat := 0
  profile : Option SyncProfile := none

namespace Member

variable {π : Type}

/-- A member that has done nothing yet. The first epoch is one window after the start. -/
def fresh (id : PartitionId) (destinations window : Nat) (profile : Option SyncProfile) :
    Member π where
  id := id
  outbound := List.replicate destinations {}
  window := window
  nextSync := Time.ofNat window
  profile := profile

def dataSize [DataSize π] (member : Member π) : Nat := total Outbox.dataSize member.outbound

def emptyOutbox (member : Member π) (target : PartitionId) : Member π :=
  { member with outbound := member.outbound.set target {} }

def startEpoch (member : Member π) : Member π :=
  { member with profile := member.profile.map SyncProfile.start }

/-- An epoch has handed over so many activities and bytes. -/
def addExchanged (member : Member π) (sent sentBytes : Nat) : Member π :=
  { member with exchanged := member.exchanged + sent, bytes := member.bytes + sentBytes }

def finishEpoch (member : Member π) : Member π := { member with epochs := member.epochs + 1 }

def finishUntimed (member : Member π) : Member π :=
  { member with untimedRounds := member.untimedRounds + 1 }

end Member

end Lookahead
