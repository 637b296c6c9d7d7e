import Lookahead.Payload
import Lookahead.Simulation.Builder
import Lookahead.Sync.Assembly
import Lookahead.Text.Form

/-!
Structural texts of the library's values, for people who look into a simulation.

A queue, a timeline and the like are described by the figures that matter, not by their contents.
-/

namespace Lookahead

open Text (Form)

/-- Values that have a structural text. -/
class Describe (α : Type) where
  form : α → Form

export Describe (form)

def describe {α : Type} [Describe α] (a : α) : String := (form a).text

/-! ## Numbers and options -/

instance : Describe Nat := ⟨Form.nat⟩

instance : Describe Int := ⟨Form.int⟩

instance : Describe String := ⟨Form.quote⟩

instance : Describe Time := ⟨fun time => .nat time.ticks⟩

instance {α : Type} [Describe α] : Describe (Option α) := ⟨fun a => Form.option (a.map form)⟩

instance {α : Type} [Describe α] : Describe (List α) := ⟨fun items => .list (items.map form)⟩

instance : Describe Bool := ⟨fun b => .word (if b then "true" else "false")⟩

/-- Identities are shown with their kind. -/
def partitionForm (id : PartitionId) : Form := .call "PartitionId" (.nat id)

def linkForm (id : LinkId) : Form := .call "LinkId" (.nat id)

def clockForm (id : ClockId) : Form := .call "ClockId" (.nat id)

/-! ## Payloads and events -/

instance : Describe Stamp where
  form stamp := .record "Stamp" [
    ("id", form stamp.id),
    ("origin", partitionForm stamp.origin),
    ("sent_at", form stamp.sentAt),
    ("expected_at", form stamp.expectedAt)]

instance : Describe Payload where
  form
    | .unit => .word "()"
    | .u8 value => .nat value.toNat
    | .u16 value => .nat value.toNat
    | .u32 value => .nat value.toNat
    | .u64 value => .nat value.toNat
    | .text value => .quote value
    | .stamp value => form value

variable {π : Type} {κ : Type} {M : Model}

instance [Describe π] : Describe (Event π) where
  form event := .record "Event" [("link", linkForm event.link), ("payload", form event.payload)]

/-! ## Queues and timelines -/

instance {α : Type} : Describe (Queue α) where
  form queue := .record "ActivityQueue" [
    ("len", form queue.size),
    ("next_time", form queue.nextTime?),
    ("total_inserted", form queue.inserted)]

instance : Describe (Timeline π) where
  form timeline := .record "Timeline" [
    ("queue", form timeline.queue),
    ("now", form timeline.now),
    ("current_priority", form timeline.priority)]

/-! ## Configurations -/

instance : Describe ProfileMode where
  form
    | .off => .word "Off"
    | .count => .word "Count"
    | .time => .word "Time"

instance : Describe ClockPolicy where
  form
    | .sameInstant => .word "SameInstant"
    | .nextBoundary => .word "NextBoundary"

instance : Describe ClockConfig where
  form config := .record "ClockConfig" [
    ("priority", form config.priority),
    ("policy", form config.policy),
    ("profile", form config.profile)]

instance : Describe Config where
  form config := .record "SimConfig" [
    ("topology", .record "Topology" [
      ("partitions", form config.partitions),
      ("ranks", form config.ranks)]),
    ("sync", .record "SyncConfig" [
      ("max_period", form config.window),
      ("profile", form config.syncProfile)]),
    ("clock", form config.clock),
    ("stop_at", form config.stopAt),
    ("timebase", form config.timebase)]

/-! ## Clocks -/

instance : Describe (Clock κ) where
  form clock := .record "Clock" [
    ("id", clockForm clock.id),
    ("factor", form clock.period.factor),
    ("priority", form clock.config.priority),
    ("current_cycle", form clock.cycle),
    ("handlers", form clock.handlers.length),
    ("scheduled", form clock.scheduled)]

instance : Describe (ClockRequests κ) where
  form requests := .record "ClockRequests" [
    ("next_handler", form requests.nextHandler),
    ("queued", form requests.queued.length)]

instance : Describe (ClockSet κ) where
  form set := .record "ClockSet" [
    ("clocks", .map (set.clocks.map fun clock => (form clock.period.factor, form clock))),
    ("config", form set.config),
    ("next_handler", form set.nextHandler),
    ("fired", form set.fired)]

/-! ## Links -/

instance : Describe LinkEnd where
  form linkEnd := .record "LinkEnd" [
    ("partition", partitionForm linkEnd.partition),
    ("link", linkForm linkEnd.link)]

instance : Describe Registry where
  form registry := .record "LinkRegistry" [
    ("pending", .map (registry.pending.map fun (name, linkEnd) => (form name, form linkEnd))),
    ("wired", form registry.wired)]

/-! ## Synchronization -/

instance : Describe Barrier where
  form barrier := .record "Barrier" [
    ("participants", form barrier.participants),
    ("generation", form barrier.generation)]

instance : Describe (Shared π) where
  form shared := .record "SyncShared" [
    ("partitions", form shared.parties),
    ("barriers", .record "SyncBarriers" [
      ("arrive", form shared.arrive),
      ("exchanged", form shared.exchanged),
      ("published", form shared.published)])]

instance : Describe (Member π) where
  form member := .record "ThreadSync" [
    ("partition", partitionForm member.id),
    ("max_period", form member.window),
    ("next_sync_time", form member.nextSync),
    ("epochs", form member.epochs),
    ("exchanged", form member.exchanged)]

/-! ## Simulations -/

instance : Describe (Partition M) where
  form p := .record "Partition" [
    ("id", partitionForm p.id),
    ("timeline", form p.timeline),
    ("links", form p.routes.size),
    ("clocks", form p.clocks.clocks.length),
    ("untimed", form p.participants.length),
    ("sync", form p.member)]

instance : Describe (Builder M) where
  form b := .record "SimulationBuilder" [
    ("config", form b.config),
    ("partitions", form b.partitions),
    ("registry", form b.registry)]

instance : Describe (Simulation M) where
  form simulation := .record "Simulation" [
    ("partitions", form simulation.partitions),
    ("max_period", form simulation.window),
    ("shared", form (some simulation.shared))]

end Lookahead
