import Lookahead.Proofs.Halting
import Lookahead.Proofs.Options

/-!
A rollover: a clock whose first cycle ends beyond the last instant.

The clock is started when more than half of time is over and its period is longer than half of time.
If the program was built to wrap around, the clock fires near the beginning of time, and what its
handler sends is due long before what was sent already. If it was built to panic, the partition
fails instead. The theorems that hold as long as no clock overflows are tried on it.
-/

namespace Lookahead.Rollover

/-- Half of time and one instant more. -/
def long : Period := ⟨9223372036854775809, by decide, by decide⟩

structure Parcel where
  number : Nat
deriving DecidableEq

/-- Two partitions with a link between them. The receiver of the first one sends and starts the
clock, whose only handler sends once more. -/
def model (overflow : Overflow) : Model where
  Payload := Parcel
  dataSize := ⟨fun _ => 8⟩
  State := Unit
  initial := ()
  Receiver := Bool
  Ticker := Unit
  Participant := Empty
  receive := fun starts _ _ => do
    if starts then
      let _ ← Program.transmit 0 0 ⟨1⟩
      let _ ← Program.attach long ()
    return .ok starts
  tick := fun _ _ _ => do
    let _ ← Program.transmit 0 0 ⟨2⟩
    return none
  phase := fun participant => nomatch participant
  overflow

variable (overflow : Overflow)

def outset : Time := Time.ofNat 9223372036854775813

def blank : Builder (model overflow) where
  config := { partitions := 2 }
  tables := [⟨0, []⟩, ⟨1, []⟩]
  setups := [{ clocks := {} }, { clocks := {} }]

def builder : Builder (model overflow) where
  config := { partitions := 2 }
  tables := [⟨0, [⟨"link", 10, .across ⟨1, 0⟩⟩]⟩, ⟨1, [⟨"link", 10, .across ⟨0, 0⟩⟩]⟩]
  setups := [
    { timeline := ({} : Timeline Parcel).insert outset Priority.event (.deliver ⟨0, ⟨0⟩⟩)
      receivers := [some true]
      clocks := {} },
    { receivers := [some false], clocks := {} }]
  registry := { wired := 1 }

def log : List (Planned Parcel) := [⟨⟨0, 0⟩, outset, Priority.event, ⟨0⟩⟩]

def simulation : Simulation (model overflow) :=
  ⟨(builder overflow).setups.mapIdx ((builder overflow).partition 10), 10⟩

theorem made : (builder overflow).Made log := by
  have hblank : Builder.ofConfig { partitions := 2 } = .ok (blank overflow) := rfl
  obtain ⟨b, hfirst⟩ : ∃ b, (blank overflow).addEnd 0 "link" 10 (some true) = .ok (⟨0, 0⟩, b) :=
    ⟨_, rfl⟩
  obtain ⟨c, hsecond⟩ : ∃ c, b.addEnd 1 "link" 10 (some false) = .ok (⟨1, 0⟩, c) := by
    cases hfirst
    exact ⟨_, rfl⟩
  have hevent : c.scheduleEvent ⟨0, 0⟩ outset ⟨0⟩ = .ok (builder overflow) := by
    cases hfirst
    cases hsecond
    rfl
  exact .scheduleEvent (.addEnd (.addEnd (.ofConfig hblank) hfirst) hsecond) hevent

theorem build_eq : (builder overflow).build = .ok (simulation overflow) := rfl

section

variable {overflow : Overflow} (simulation : Simulation (model overflow))
  (schedule : List PartitionId)

def run : List (PartitionId × Dispatch (model overflow)) × Machine (model overflow) :=
  (Machine.system (model overflow)).follow simulation.machine schedule

theorem reaches_run : simulation.Reaches (run simulation schedule).1 (run simulation schedule).2 :=
  System.run_follow _ _ schedule

end

def turns : List PartitionId := (List.range 128).map fun k => k % 2

example : (run (simulation .panics) turns).2.outcome? 10 = some (.error (.panicked 0)) := rfl

end Lookahead.Rollover
