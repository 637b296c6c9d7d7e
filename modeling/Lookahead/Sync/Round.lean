import Lookahead.Schedule.Timeline
import Lookahead.Sync.Member
import Lookahead.Sync.Shared

/-!
Rounds of the exchange between partitions, and where in a round a partition can stand.

A round comes in two kinds. A timed round is an epoch: everything in the outboxes moves to the
timelines of its destinations, and from the least pending time of all partitions they compute the
same next time to meet, which is one window later. An untimed round hands over the untimed events of
one phase, and says whether anyone sent anything.
-/

namespace Lookahead

/-- Why a round fails: a destination is gone, or another partition failed. -/
inductive SyncError where
  | link (e : LinkError)
  | aborted
deriving DecidableEq

def SyncError.message : SyncError → String
  | .link e => e.message
  | .aborted => Barrier.abortedMessage

namespace Round

/-- The kind of a round. In an untimed one, `own` counts what the partition sent to itself. -/
inductive Kind where
  | epoch
  | untimed (own : Nat)
deriving DecidableEq

/-- Where in a round a partition stands: at a gate, at one of its outboxes, at its inbox with what
it got so far, about to publish, or at one of the minimums with the least so far. -/
inductive Position (π : Type) where
  | entering (gate : Gate)
  | waiting (gate : Gate) (generation : Nat)
  | handingOver (target : PartitionId)
  | collecting (got : List (Batch π))
  | publishing
  | reading (slot : Nat) (least : Time)

/-- How a round ends: with the next time to meet, with nothing left to do, or with the untimed
events for this partition and whether another round is needed. -/
inductive Outcome (π : Type) where
  | resume (nextSync : Time)
  | drained
  | untimed (received : List (Event π)) (more : Bool)

end Round

/-- A partition's progress in a round: where it stands, what it has handed over, and the untimed
events that it got. -/
structure Round (π : Type) where
  kind : Round.Kind
  position : Round.Position π := .entering .arrive
  sent : Nat := 0
  sentBytes : Nat := 0
  received : List (Event π) := []

namespace Round

variable {π : Type}

/-- Stand somewhere else. -/
def moveTo (round : Round π) (position : Position π) : Round π := { round with position }

def behind : Gate → Position π
  | .arrive => .handingOver 0
  | .exchanged => .collecting []
  | .published => .reading 0 Time.never

/-- Nothing is handed over for an instant before this one. -/
def horizon (round : Round π) (timeline : Timeline π) : Time :=
  match round.kind with
  | .epoch => timeline.now
  | .untimed _ => Time.zero

def inSenderOrder (batches : List (Batch π)) : List (Scheduled π) :=
  (Ordered.sort (fun a b : Batch π => a.sender < b.sender) batches).flatMap (·.activities)

/-- What a partition publishes: when its next activity is due, or whether it was busy. -/
def minimum (round : Round π) (timeline : Timeline π) : Time :=
  match round.kind with
  | .epoch => timeline.nextTime
  | .untimed own => if 0 < round.sent ∨ 0 < own then Time.zero else Time.never

end Round

end Lookahead
