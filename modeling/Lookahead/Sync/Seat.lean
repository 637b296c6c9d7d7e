import Lookahead.Sync.Round

/-!
The steps of one partition in a round of the exchange.

Every access to the shared state is a step of its own, so that any interleaving of the partitions
can be described. A step is impossible only for a partition that waits at a barrier, and once its
round is over.
-/

namespace Lookahead

/-- A round goes on or is over. -/
inductive Round.Progress (π : Type) where
  | going (round : Round π)
  | over (result : Except SyncError (Round.Outcome π))

/-- A partition in a round: its side of the exchange, its timeline and its progress. -/
structure Seat (π : Type) where
  member : Member π
  timeline : Timeline π
  progress : Round.Progress π

namespace Seat

variable {π : Type}

def begin (member : Member π) (timeline : Timeline π) (kind : Round.Kind) : Seat π where
  member :=
    match kind with
    | .epoch => member.startEpoch
    | .untimed _ => member
  timeline := timeline
  progress := .going { kind := kind }

def result? (seat : Seat π) : Option (Except SyncError (Round.Outcome π)) :=
  match seat.progress with
  | .over result => some result
  | .going _ => none

def goOn (seat : Seat π) (round : Round π) : Seat π := { seat with progress := .going round }

def finish (seat : Seat π) (result : Except SyncError (Round.Outcome π)) : Seat π :=
  { seat with progress := .over result }

/-! ## Gates -/

/-- What becomes of a partition that stands like this at a gate. -/
def stand (seat : Seat π) (round : Round π) (gate : Gate) : Standing → Seat π
  | .passed => seat.goOn (round.moveTo (Round.behind gate))
  | .turnedAway => seat.finish (.error .aborted)
  | .waiting generation => seat.goOn (round.moveTo (.waiting gate generation))

def enter (shared : Shared π) (seat : Seat π) (round : Round π) (gate : Gate) :
    Shared π × Seat π :=
  let (barrier, standing) := (shared.barrier gate).arrive
  (shared.setBarrier gate barrier, seat.stand round gate standing)

/-! ## Handing over -/

/-- All outboxes are done. Only epochs are counted. -/
def handedOver (seat : Seat π) (round : Round π) : Seat π :=
  let member :=
    match round.kind with
    | .epoch => seat.member.addExchanged round.sent round.sentBytes
    | .untimed _ => seat.member
  { seat with member, progress := .going (round.moveTo (.entering .exchanged)) }

/-- Hand one outbox over, or go to the next gate behind the last one. If the destination is gone,
everyone is told and the round fails. -/
def handOver [DataSize π] (shared : Shared π) (seat : Seat π) (round : Round π)
    (target : PartitionId) : Shared π × Seat π :=
  match seat.member.outbound[target]? with
  | none => (shared, seat.handedOver round)
  | some box =>
    if box.isEmpty then
      (shared, seat.goOn (round.moveTo (.handingOver (target + 1))))
    else
      let now := round.horizon seat.timeline
      let batch : Batch π :=
        ⟨seat.member.id, box.activities.map fun activity => activity.notBefore now⟩
      let seat := { seat with member := seat.member.emptyOutbox target }
      match shared.post? target batch with
      | none => (shared.abort, seat.finish (.error (.link (.noRoute target))))
      | some shared =>
        (shared,
          seat.goOn
            { round with
              position := .handingOver (target + 1)
              sent := round.sent + box.size
              sentBytes := round.sentBytes + box.dataSize })

/-! ## Taking in -/

/-- The inbox is empty: an epoch queues what it got, and an untimed round keeps the events. -/
def collected (seat : Seat π) (round : Round π) (got : List (Batch π)) : Seat π :=
  let activities := Round.inSenderOrder got
  match round.kind with
  | .epoch =>
    { seat with
      timeline := seat.timeline.addAll activities
      progress := .going (round.moveTo .publishing) }
  | .untimed _ =>
    let received := activities.filterMap fun activity => activity.payload.event?
    seat.goOn { round with received, position := .publishing }

/-- Take one batch out of the inbox, or go on when it is empty. -/
def collect (shared : Shared π) (seat : Seat π) (round : Round π) (got : List (Batch π)) :
    Shared π × Seat π :=
  match shared.fetch? seat.member.id with
  | some (batch, shared) => (shared, seat.goOn (round.moveTo (.collecting (got ++ [batch]))))
  | none => (shared, seat.collected round got)

def publish (shared : Shared π) (seat : Seat π) (round : Round π) : Shared π × Seat π :=
  (shared.publish seat.member.id (round.minimum seat.timeline),
    seat.goOn (round.moveTo (.entering .published)))

/-! ## Concluding -/

/-- The time of the next epoch, given the least pending time of all partitions. -/
def nextMeeting (least : Time) (window : Nat) : Time := max least (least.after window)

/-- End a round, given the least of all published minimums. -/
def conclude (seat : Seat π) (round : Round π) (least : Time) : Seat π :=
  match round.kind with
  | .epoch =>
    if least = Time.never then
      { seat with member := seat.member.finishEpoch, progress := .over (.ok .drained) }
    else
      let nextSync := nextMeeting least seat.member.window
      { member := { seat.member.finishEpoch with nextSync }
        timeline := seat.timeline.insert nextSync Priority.threadSync .sync
        progress := .over (.ok (.resume nextSync)) }
  | .untimed _ =>
    { seat with
      member := seat.member.finishUntimed
      progress := .over (.ok (.untimed round.received (least ≠ Time.never))) }

/-- Read one of the published minimums, or conclude behind the last one. -/
def read (shared : Shared π) (seat : Seat π) (round : Round π) (slot : Nat) (least : Time) :
    Shared π × Seat π :=
  match shared.minimums[slot]? with
  | some time => (shared, seat.goOn (round.moveTo (.reading (slot + 1) (min least time))))
  | none => (shared, seat.conclude round least)

/-! ## Steps -/

/-- The next step of a partition in a round. There is none while it waits, nor when the round is
over. -/
def step? [DataSize π] (shared : Shared π) (seat : Seat π) : Option (Shared π × Seat π) :=
  match seat.progress with
  | .over _ => none
  | .going round =>
    match round.position with
    | .entering gate => some (seat.enter shared round gate)
    | .waiting gate generation =>
      match (shared.barrier gate).look generation with
      | .waiting _ => none
      | standing => some (shared, seat.stand round gate standing)
    | .handingOver target => some (seat.handOver shared round target)
    | .collecting got => some (seat.collect shared round got)
    | .publishing => some (seat.publish shared round)
    | .reading slot least => some (seat.read shared round slot least)

end Seat

end Lookahead
