import Lookahead.Event
import Lookahead.Sync.Barrier

/-!
What the partitions of a run share: three barriers, the published minimums and the inboxes.
-/

namespace Lookahead

/-- The three barriers of a round. Behind `arrive` everyone has come, behind `exchanged` everything
has been handed over, and behind `published` everyone's minimum can be read. -/
inductive Gate where
  | arrive
  | exchanged
  | published
deriving DecidableEq

/-- What one partition hands to another in one round. -/
structure Batch (π : Type) where
  sender : PartitionId
  activities : List (Scheduled π)

/-- The state that all partitions see. An inbox holds its batches in the order in which they came,
and is `none` once its partition is gone. -/
structure Shared (π : Type) where
  arrive : Barrier
  exchanged : Barrier
  published : Barrier
  minimums : List Time
  inboxes : List (Option (List (Batch π)))

namespace Shared

variable {π : Type}

/-- The shared state of `parties` participants and as many inboxes as `inboxes` says. -/
def ofParties (parties inboxes : Nat) : Shared π where
  arrive := Barrier.ofParticipants parties
  exchanged := Barrier.ofParticipants parties
  published := Barrier.ofParticipants parties
  minimums := List.replicate parties Time.never
  inboxes := List.replicate inboxes (some [])

def barrier (shared : Shared π) : Gate → Barrier
  | .arrive => shared.arrive
  | .exchanged => shared.exchanged
  | .published => shared.published

def setBarrier (shared : Shared π) (gate : Gate) (barrier : Barrier) : Shared π :=
  match gate with
  | .arrive => { shared with arrive := barrier }
  | .exchanged => { shared with exchanged := barrier }
  | .published => { shared with published := barrier }

def abortAt (shared : Shared π) (gate : Gate) : Shared π :=
  shared.setBarrier gate (shared.barrier gate).abort

def abort (shared : Shared π) : Shared π :=
  ((shared.abortAt .arrive).abortAt .exchanged).abortAt .published

/-- A run is aborted at its first barrier first. -/
def isAborted (shared : Shared π) : Bool := shared.arrive.aborted

def parties (shared : Shared π) : Nat := shared.minimums.length

/-- Put a batch into an inbox, unless that inbox does not exist or is gone. -/
def post? (shared : Shared π) (target : PartitionId) (batch : Batch π) : Option (Shared π) :=
  match shared.inboxes[target]? with
  | some (some batches) =>
    some { shared with inboxes := shared.inboxes.set target (some (batches ++ [batch])) }
  | _ => none

/-- Take the batch that came first. -/
def fetch? (shared : Shared π) (owner : PartitionId) : Option (Batch π × Shared π) :=
  match shared.inboxes[owner]? with
  | some (some (batch :: rest)) =>
    some (batch, { shared with inboxes := shared.inboxes.set owner (some rest) })
  | _ => none

def close (shared : Shared π) (owner : PartitionId) : Shared π :=
  { shared with inboxes := shared.inboxes.set owner none }

/-- Publish the earliest instant that matters to a partition, if it has a place to do so. -/
def publish (shared : Shared π) (partition : PartitionId) (time : Time) : Shared π :=
  { shared with minimums := shared.minimums.set partition time }

end Shared

end Lookahead
