import Lookahead.Schedule.Activity
import Lookahead.Link
import Lookahead.Time.Timebase

/-!
The configuration of a simulation and what can be wrong with it.
-/

namespace Lookahead

/-- What a profile measures. -/
inductive ProfileMode where
  | off
  | count
  | time
deriving DecidableEq

/-- Where a clock goes that is started at one of its own boundaries. -/
inductive ClockPolicy where
  /-- It fires at once if it would still have had its turn at this instant. -/
  | sameInstant
  /-- It always waits for the next boundary. -/
  | nextBoundary
deriving DecidableEq

/-- What the clocks of a partition have in common. -/
structure ClockConfig where
  priority : Int := Priority.clock
  policy : ClockPolicy := .sameInstant
  profile : ProfileMode := .off
deriving DecidableEq

/-- The configuration of a simulation. -/
structure Config where
  partitions : Nat := 1
  ranks : Nat := 1
  /-- The window of skip-ahead; if absent, the least latency between two partitions. -/
  window : Option Nat := none
  syncProfile : ProfileMode := .off
  clock : ClockConfig := {}
  /-- When every partition stops; if absent, when nothing is left to do. -/
  stopAt : Option Time := none
  /-- The length of a base unit; if absent, one picosecond. -/
  timebase : Option String := none
deriving DecidableEq

/-- What can be wrong with a configuration or with what is built on it. -/
inductive ConfigError where
  | noPartitions
  | multiRankUnsupported (ranks : Nat)
  | zeroSyncWindow
  | partitionOutOfRange (partition : PartitionId) (count : Nat)
  | latencyBelowSyncWindow (name : String) (latency window : Nat)
  | unknownClock (factor : Nat)
  | link (e : LinkError)
  | time (e : TimeError)
  | stopAtZero
deriving DecidableEq

def ConfigError.message : ConfigError → String
  | .noPartitions => "topology must have at least one partition"
  | .multiRankUnsupported ranks => s!"multi-rank runs are not supported (requested {ranks} ranks)"
  | .zeroSyncWindow => "max_period must be at least 1"
  | .partitionOutOfRange partition count =>
    s!"partition {partition} out of range for {count} partitions"
  | .latencyBelowSyncWindow name latency window =>
    s!"link '{name}' latency {latency} is below the sync window {window}"
  | .unknownClock factor => s!"no clock registered with period {factor}"
  | .link e => "link: " ++ e.message
  | .time e => "time: " ++ e.message
  | .stopAtZero => "stop_at must be greater than zero"

namespace Config

/-- More than one process takes part. -/
def isMultiRank (config : Config) : Bool := 1 < config.ranks

/-- The timebase that period texts are measured in. -/
def base (config : Config) : Except ConfigError Timebase :=
  match config.timebase with
  | none => .ok Timebase.picosecond
  | some spec => (Timebase.ofSpec spec).mapError .time

/-- The first fault of a configuration. -/
def validate (config : Config) : Except ConfigError Unit := do
  if config.partitions = 0 then throw .noPartitions
  if config.isMultiRank then throw (.multiRankUnsupported config.ranks)
  if config.window = some 0 then throw .zeroSyncWindow
  if config.stopAt = some Time.zero then throw .stopAtZero
  let _ ← config.base

end Config

end Lookahead
