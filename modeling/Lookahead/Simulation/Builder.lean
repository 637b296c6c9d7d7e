import Lookahead.Link.Registry
import Lookahead.Simulation

/-!
Building simulations.

A builder collects the link ends, clocks, events and untimed handlers of each partition and pairs
the link ends as they come. Building checks that every link end found its other end, and that no
link between two partitions is faster than the window of skip-ahead.
-/

namespace Lookahead

/-- What one partition consists of so far. -/
structure PartitionSetup (M : Model) where
  timeline : Timeline M.Payload := {}
  receivers : List (Option M.Receiver) := []
  clocks : ClockSet M.Ticker
  participants : List M.Participant := []

/-- A simulation under construction. -/
structure Builder (M : Model) where
  config : Config
  tables : List RouteTable
  setups : List (PartitionSetup M)
  registry : Registry := {}

namespace Builder

variable {M : Model}

def ofConfig (config : Config) : Except ConfigError (Builder M) := do
  config.validate
  return {
    config := config
    tables := (List.range config.partitions).map fun id => { partition := id }
    setups := List.replicate config.partitions { clocks := { config := config.clock } } }

def partitions (b : Builder M) : Nat := b.setups.length

def setup (b : Builder M) (partition : PartitionId) : Except ConfigError (PartitionSetup M) :=
  match b.setups[partition]? with
  | some setup => .ok setup
  | none => .error (.partitionOutOfRange partition b.partitions)

def withSetup (b : Builder M) (partition : PartitionId) (setup : PartitionSetup M) : Builder M :=
  { b with setups := b.setups.set partition setup }

def table (b : Builder M) (partition : PartitionId) : RouteTable :=
  b.tables[partition]?.getD { partition := partition }

/-! ## Links and events -/

/-- Add a link end under a name, with the handler of the events that arrive on it, if it takes any.
It is wired as soon as there is another end of that name. -/
def addEnd (b : Builder M) (partition : PartitionId) (name : String) (latency : Nat)
    (receiver : Option M.Receiver) : Except ConfigError (LinkEnd × Builder M) := do
  let setup ← b.setup partition
  let table := b.table partition
  let linkEnd : LinkEnd := ⟨partition, table.nextLink⟩
  let tables := b.tables.set partition (table.push name latency)
  let (_, registry, tables) ← (b.registry.register tables name linkEnd).mapError .link
  let b := b.withSetup partition { setup with receivers := setup.receivers ++ [receiver] }
  return (linkEnd, { b with registry, tables })

def addLink (b : Builder M) (partition : PartitionId) (name : String) (latency : Nat)
    (receiver : M.Receiver) : Except ConfigError (LinkEnd × Builder M) :=
  b.addEnd partition name latency (some receiver)

def addOutputLink (b : Builder M) (partition : PartitionId) (name : String) (latency : Nat) :
    Except ConfigError (LinkEnd × Builder M) :=
  b.addEnd partition name latency none

def scheduleEvent (b : Builder M) (linkEnd : LinkEnd) (time : Time) (payload : M.Payload)
    (priority : Int := Priority.event) : Except ConfigError (Builder M) := do
  let setup ← b.setup linkEnd.partition
  let _ ← ((b.table linkEnd.partition).get linkEnd.link).mapError ConfigError.link
  let timeline := setup.timeline.insert time priority (.deliver ⟨linkEnd.link, payload⟩)
  return b.withSetup linkEnd.partition { setup with timeline }

/-! ## Clocks and untimed handlers -/

def registerClock (b : Builder M) (partition : PartitionId) (period : Period)
    (handler : M.Ticker) : Except ConfigError (ClockHandle × Builder M) := do
  let setup ← b.setup partition
  let (handle, clocks, timeline) := setup.clocks.register period handler setup.timeline
  return (handle, b.withSetup partition { setup with clocks, timeline })

/-- Add a clock handler with a period that is given as text. -/
def registerClockSpec (b : Builder M) (partition : PartitionId) (spec : String)
    (handler : M.Ticker) : Except ConfigError (ClockHandle × Builder M) := do
  let base ← b.config.base
  let period ← (base.period spec).mapError ConfigError.time
  b.registerClock partition period handler

/-- Remove a clock handler and say whether its clock has none left. -/
def unregisterClock (b : Builder M) (partition : PartitionId) (handle : ClockHandle) :
    Except ConfigError (Bool × Builder M) := do
  let setup ← b.setup partition
  let (empty, clocks) ← setup.clocks.unregister handle
  return (empty, b.withSetup partition { setup with clocks })

/-- Add a handler of the untimed stages. As soon as one partition has one, all run these stages. -/
def addParticipant (b : Builder M) (partition : PartitionId) (participant : M.Participant) :
    Except ConfigError (Builder M) := do
  let setup ← b.setup partition
  return b.withSetup partition { setup with participants := setup.participants ++ [participant] }

/-! ## Building -/

/-- Does a route lead to another partition? -/
def crosses (route : Route) : Bool :=
  match route.delivery with
  | .across _ => true
  | _ => false

/-- The routes that lead to another partition, by partition and then by link. -/
def crossRoutes (b : Builder M) : List Route :=
  b.tables.flatMap fun table => table.routes.filter crosses

/-- The first of the routes with the least latency. -/
def fastest? : List Route → Option Route
  | [] => none
  | route :: rest =>
    match fastest? rest with
    | none => some route
    | some other => if other.latency < route.latency then some other else some route

/-- The window of skip-ahead: the configured one, unless a link between two partitions is faster; or
else the least latency of such a link, which must not be zero. -/
def window (b : Builder M) : Except ConfigError Nat :=
  match b.config.window, fastest? b.crossRoutes with
  | some window, some route =>
    if route.latency < window then
      .error (.latencyBelowSyncWindow route.name route.latency window)
    else .ok window
  | some window, none => .ok window
  | none, some route => if route.latency = 0 then .error .zeroSyncWindow else .ok route.latency
  | none, none => .ok lastTick

def lifecycle (b : Builder M) : Bool := b.setups.any fun setup => !setup.participants.isEmpty

def partition (b : Builder M) (window : Nat) (id : PartitionId) (setup : PartitionSetup M) :
    Partition M where
  id := id
  timeline := setup.timeline
  routes := b.table id
  receivers := setup.receivers
  clocks := setup.clocks
  requests := setup.clocks.requests
  participants := setup.participants
  member := Member.fresh id b.partitions window (SyncProfile.ofMode b.config.syncProfile)
  lifecycle := b.lifecycle
  synchronized := 1 < b.partitions
  stopAt := b.config.stopAt

/-- Check the wiring and make the simulation. -/
def build (b : Builder M) : Except ConfigError (Simulation M) := do
  b.registry.finalize.mapError .link
  let window ← b.window
  return ⟨b.setups.mapIdx (b.partition window), window⟩

end Builder

end Lookahead
