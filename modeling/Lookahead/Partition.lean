import Lookahead.Model
import Lookahead.Sync.Seat

/-!
A partition: everything that one thread of a simulation owns.
-/

namespace Lookahead

/-- What makes a run fail. -/
inductive RunError where
  | queue (e : QueueError)
  | link (e : LinkError)
  | unhandled (partition : PartitionId) (target : LinkId)
  | aborted (partition : PartitionId)
  | panicked (partition : PartitionId)
deriving DecidableEq

namespace RunError

def message : RunError → String
  | .queue e => "queue: " ++ e.message
  | .link e => "link: " ++ e.message
  | .unhandled partition target => s!"partition {partition}: no handler for link {target}"
  | .aborted partition => s!"partition {partition}: run aborted by a failed peer"
  | .panicked partition => s!"partition {partition} panicked"

/-- Did this partition only stop because another one failed? -/
def isAbort : RunError → Bool
  | .aborted _ => true
  | _ => false

/-- A failed round, as the failure of this partition's run. -/
def ofSync (partition : PartitionId) : SyncError → RunError
  | .link e => .link e
  | .aborted => .aborted partition

end RunError

/-- Why a partition stopped: at the configured time, because no partition had anything left, or, on
its own, because its queue was empty. -/
inductive StopReason where
  | stopAt
  | drained
  | exhausted
deriving DecidableEq

/-- What is counted while a partition runs. -/
structure Tally where
  events : Nat := 0
  clockFires : Nat := 0
  untimedReceived : Nat := 0
  untimedDropped : Nat := 0
deriving DecidableEq

/-- The state of one partition. -/
structure Partition (M : Model) where
  id : PartitionId
  timeline : Timeline M.Payload
  routes : RouteTable
  /-- The handler of each link end; an end without one can only send. -/
  receivers : List (Option M.Receiver)
  clocks : ClockSet M.Ticker
  requests : ClockRequests M.Ticker
  participants : List M.Participant
  inbox : Inbox M.Payload := {}
  member : Member M.Payload
  state : M.State := M.initial
  /-- Some partition has untimed handlers. -/
  lifecycle : Bool
  /-- There are other partitions. -/
  synchronized : Bool
  stopAt : Option Time
  tally : Tally := {}

namespace Partition

variable {M : Model}

/-- Put the first synchronization and the stop on the timeline. -/
def start (p : Partition M) : Partition M :=
  let timeline := p.timeline
  let timeline :=
    if p.synchronized then timeline.insert p.member.nextSync Priority.threadSync .sync
    else timeline
  let timeline :=
    match p.stopAt with
    | some time => timeline.insert time Priority.stop .stop
    | none => timeline
  { p with timeline }

/-! ## What handlers can reach -/

/-- What event and clock handlers can reach. -/
def context (p : Partition M) : M.Context where
  partition := p.id
  routes := p.routes
  timeline := p.timeline
  outbound := p.member.outbound
  requests := p.requests
  state := p.state

/-- Take back what a handler has changed. -/
def withContext (p : Partition M) (ctx : M.Context) : Partition M :=
  { p with
    timeline := ctx.timeline
    member := { p.member with outbound := ctx.outbound }
    requests := ctx.requests
    state := ctx.state }

/-- Carry out what the handlers requested of the clocks. -/
def applyRequests (p : Partition M) : Partition M :=
  let (clocks, requests, timeline) := p.clocks.apply p.requests p.timeline
  { p with clocks, requests, timeline }

/-- Does that start a clock whose next boundary does not fit 64 bits? -/
def overflows (p : Partition M) : Bool := p.clocks.overflows p.requests p.timeline.now

/-- Carry out what the handlers requested, unless an overflow makes the thread panic. -/
def applyRequests? (p : Partition M) : Option (Partition M) :=
  match M.overflow, p.overflows with
  | .panics, true => none
  | _, _ => some p.applyRequests

/-- What untimed handlers can reach. -/
def phaseContext (p : Partition M) : M.PhaseContext where
  partition := p.id
  routes := p.routes
  outbound := p.member.outbound
  inbox := p.inbox
  state := p.state

/-- Take back what an untimed handler has changed. -/
def withPhaseContext (p : Partition M) (ctx : M.PhaseContext) : Partition M :=
  { p with
    member := { p.member with outbound := ctx.outbound }
    inbox := ctx.inbox
    state := ctx.state }

end Partition

end Lookahead
