import Lookahead.Partition

/-!
Reports: what the partitions of a run come to.
-/

namespace Lookahead

/-- What a partition reports at its end. -/
structure PartitionReport where
  partition : PartitionId
  stop : StopReason
  tally : Tally
  epochs : Nat
  exchanged : Nat
  bytes : Nat
  finalTime : Time
  pending : Nat
  syncProfile : Option SyncProfile
  clockProfile : List HandlerProfile
  untimedRounds : Nat
deriving DecidableEq

/-- Activities dispatched, synchronizations apart. -/
def PartitionReport.work (report : PartitionReport) : Nat :=
  report.tally.events + report.tally.clockFires

def Partition.report {M : Model} (p : Partition M) (stop : StopReason) : PartitionReport where
  partition := p.id
  stop := stop
  tally := p.tally
  epochs := p.member.epochs
  exchanged := p.member.exchanged
  bytes := p.member.bytes
  finalTime := p.timeline.now
  pending := p.timeline.pending.length
  syncProfile := p.member.profile
  clockProfile := p.clocks.profile
  untimedRounds := p.member.untimedRounds

/-- A run's report: one for each partition, and the window of skip-ahead. -/
structure RunReport where
  partitions : List PartitionReport
  window : Nat
deriving DecidableEq

namespace RunReport

def finalTime (report : RunReport) : Time :=
  report.partitions.foldl (fun latest p => max latest p.finalTime) Time.zero

def events (report : RunReport) : Nat := total (·.tally.events) report.partitions

def clockFires (report : RunReport) : Nat :=
  total (·.tally.clockFires) report.partitions

def exchanged (report : RunReport) : Nat := total (·.exchanged) report.partitions

end RunReport

end Lookahead
