import Lookahead.Partition.Dispatch
import Lookahead.Partition.Phase

/-!
Threads: partitions in the middle of a run.

A thread is somewhere in its own work, in a round of the exchange, on its way out after a failure,
or at its end. Each of its steps is either its own affair or one access to what the partitions
share.
-/

namespace Lookahead

/-- What a thread is in the middle of. -/
inductive Work where
  | init (phase : Nat)
  | timed
  | complete (phase : Nat) (stop : StopReason)
deriving DecidableEq

/-- Where a partition is in its run. -/
inductive Thread (M : Model) where
  /-- Between two rounds. -/
  | running (work : Work) (p : Partition M)
  /-- In a round of the exchange. -/
  | syncing (work : Work) (p : Partition M) (round : Round M.Payload)
  /-- It has failed and is about to abort the barrier of a gate, and then those behind it. -/
  | aborting (gate : Gate) (e : RunError) (p : Partition M)
  | ended (result : Except RunError StopReason) (p : Partition M)

namespace Thread

variable {M : Model}

def start (p : Partition M) : Thread M :=
  .running (if p.lifecycle then .init 0 else .timed) p.start

def partition : Thread M → Partition M
  | .running _ p => p
  | .syncing _ p _ => p
  | .aborting _ _ p => p
  | .ended _ p => p

def result? : Thread M → Option (Except RunError StopReason)
  | .ended result _ => some result
  | _ => none

def beginRound (work : Work) (p : Partition M) (kind : Round.Kind) : Thread M :=
  let seat := Seat.begin p.member p.timeline kind
  .syncing work { p with member := seat.member } { kind := kind }

/-- A thread that fails aborts the barriers on its way out. -/
def fail (e : RunError) (p : Partition M) : Thread M := .aborting .arrive e p

/-- The timed run is over: the last stage follows, or the end. -/
def finishTimed (stop : StopReason) (p : Partition M) : Thread M :=
  if p.lifecycle then .running (.complete 0 stop) p.prepareComplete else .ended (.ok stop) p

def afterRound (work : Work) (p : Partition M) (kind : Round.Kind) :
    Round.Outcome M.Payload → Thread M
  | .resume _ => .running work p
  | .drained => finishTimed .drained p
  | .untimed received more =>
    let own := match kind with
      | .untimed own => own
      | .epoch => 0
    let p := p.receiveUntimed own received
    match work, more with
    | .init phase, true => .running (.init (phase + 1)) p
    | .init _, false => .running .timed p.dropUnread
    | .complete phase stop, true => .running (.complete (phase + 1) stop) p
    | .complete _ stop, false => .ended (.ok stop) p.dropUnread
    | .timed, _ => .running .timed p

def runPhase (work : Work) (stage : Stage) (phase : Nat) (p : Partition M) : Thread M :=
  match p.runPhase stage phase with
  | (.ok own, p) => beginRound work p (.untimed own)
  | (.error e, p) => fail e p

/-- One step of a partition's own work. -/
def workOn (work : Work) (p : Partition M) : Thread M :=
  match work with
  | .init phase => runPhase work .init phase p
  | .complete phase _ => runPhase work .complete phase p
  | .timed =>
    match p.dispatch with
    | .dispatch p => .running .timed p
    | .sync p => beginRound .timed p .epoch
    | .stop reason p => finishTimed reason p
    | .fail e p => fail e p

def syncOn (shared : Shared M.Payload) (work : Work) (p : Partition M)
    (round : Round M.Payload) : Option (Shared M.Payload × Thread M) :=
  match Seat.step? shared ⟨p.member, p.timeline, .going round⟩ with
  | none => none
  | some (shared, seat) =>
    let p := { p with member := seat.member, timeline := seat.timeline }
    match seat.progress with
    | .going round => some (shared, .syncing work p round)
    | .over (.ok outcome) => some (shared, afterRound work p round.kind outcome)
    | .over (.error e) => some (shared, fail (.ofSync p.id e) p)

def step? (shared : Shared M.Payload) : Thread M → Option (Shared M.Payload × Thread M)
  | .running work p => some (shared, workOn work p)
  | .syncing work p round => syncOn shared work p round
  | .aborting gate e p =>
    let shared := shared.abortAt gate
    match gate with
    | .arrive => some (shared, .aborting .exchanged e p)
    | .exchanged => some (shared, .aborting .published e p)
    | .published => some (shared, .ended (.error e) p)
  | .ended _ _ => none

end Thread

end Lookahead
