import Lookahead.Proofs.Halting

/-!
A metronome: one partition with a link to itself. An event on either end of the link puts a handler
on the clock of ten units, and the handler can ring the other end when it is called.

It is about the least that clocks can be started and started again with, and the theorems about
clocks are tried on it.
-/

namespace Lookahead.Metronome

/-- A clock handler: how often it is to be called after the next time, and whether it rings. -/
structure Beat where
  left : Nat
  rings : Bool := false

def ten : Period := ⟨10, by decide, by decide⟩

def ring (rings : Bool) : Program Beat Unit Unit Unit := do
  if rings then
    let _ ← Program.transmit 0 0 ()

/-- A receiver is the handler that it puts on the clock. -/
def model : Model where
  Payload := Unit
  dataSize := ⟨fun _ => 0⟩
  State := Unit
  initial := ()
  Receiver := Beat
  Ticker := Beat
  Participant := Empty
  receive := fun beat _ _ => do
    let _ ← Program.attach ten beat
    return .ok beat
  tick := fun beat _ _ => do
    ring beat.rings
    return if beat.left = 0 then none else some { beat with left := beat.left - 1 }
  phase := fun participant => nomatch participant

/-- When an event is due, and in which priority. -/
structure Cue where
  time : Time
  priority : Int

/-- The partition before anything was asked for. -/
def blank (clock : ClockConfig) : Builder model where
  config := { clock }
  tables := [⟨0, []⟩]
  setups := [{ clocks := { config := clock } }]

/-- One event for each end of the link. -/
def builder (clock : ClockConfig) (home away : Beat) (first second : Cue) : Builder model where
  config := { clock }
  tables := [⟨0, [⟨"bell", 0, .within 1⟩, ⟨"bell", 0, .within 0⟩]⟩]
  setups := [
    { timeline :=
        (({} : Timeline Unit).insert first.time first.priority (.deliver ⟨0, ()⟩)).insert
          second.time second.priority (.deliver ⟨1, ()⟩)
      receivers := [some home, some away]
      clocks := { config := clock } }]
  registry := { wired := 1 }

def log (first second : Cue) : List (Planned Unit) :=
  [⟨⟨0, 0⟩, first.time, first.priority, ()⟩, ⟨⟨0, 1⟩, second.time, second.priority, ()⟩]

def simulation (clock : ClockConfig) (home away : Beat) (first second : Cue) : Simulation model :=
  ⟨(builder clock home away first second).setups.mapIdx
    ((builder clock home away first second).partition lastTick), lastTick⟩

theorem made (clock : ClockConfig) (home away : Beat) (first second : Cue) :
    (builder clock home away first second).Made (log first second) := by
  have hblank : Builder.ofConfig { clock } = .ok (blank clock) := rfl
  obtain ⟨b, hhome⟩ : ∃ b, (blank clock).addEnd 0 "bell" 0 (some home) = .ok (⟨0, 0⟩, b) := ⟨_, rfl⟩
  obtain ⟨c, haway⟩ : ∃ c, b.addEnd 0 "bell" 0 (some away) = .ok (⟨0, 1⟩, c) := by
    cases hhome
    exact ⟨_, rfl⟩
  obtain ⟨d, hfirst⟩ : ∃ d, c.scheduleEvent ⟨0, 0⟩ first.time () first.priority = .ok d := by
    cases hhome
    cases haway
    exact ⟨_, rfl⟩
  have hsecond : d.scheduleEvent ⟨0, 1⟩ second.time () second.priority =
      .ok (builder clock home away first second) := by
    cases hhome
    cases haway
    cases hfirst
    rfl
  exact .scheduleEvent (.scheduleEvent (.addEnd (.addEnd (.ofConfig hblank) hhome) haway) hfirst)
    hsecond

theorem build_eq (clock : ClockConfig) (home away : Beat) (first second : Cue) :
    (builder clock home away first second).build =
      .ok (simulation clock home away first second) := rfl

def run (simulation : Simulation model) (steps : Nat) :
    List (PartitionId × Dispatch model) × Machine model :=
  (Machine.system model).follow simulation.machine (List.replicate steps 0)

theorem reaches_run (simulation : Simulation model) (steps : Nat) :
    simulation.Reaches (run simulation steps).1 (run simulation steps).2 :=
  System.run_follow _ _ (List.replicate steps 0)

/-- Two handlers on one clock: the first is added ahead of its turn at 20 and stays for three more
cycles, the second is added for one cycle at 25. -/
def duet : Simulation model :=
  simulation {} ⟨3, false⟩ ⟨0, false⟩ ⟨Time.ofNat 20, 20⟩ ⟨Time.ofNat 25, 50⟩

theorem made_duet : (builder {} ⟨3, false⟩ ⟨0, false⟩ ⟨Time.ofNat 20, 20⟩ ⟨Time.ofNat 25, 50⟩).Made
    (log ⟨Time.ofNat 20, 20⟩ ⟨Time.ofNat 25, 50⟩) := made ..

theorem build_duet :
    (builder {} ⟨3, false⟩ ⟨0, false⟩ ⟨Time.ofNat 20, 20⟩ ⟨Time.ofNat 25, 50⟩).build = .ok duet :=
  build_eq ..

/-- Clocks have their turn after events. The handler that an event at 10 puts on the clock rings
when it is called, and so another one is put there at 10 as well. -/
def echo : Simulation model :=
  simulation { priority := 60 } ⟨0, true⟩ ⟨0, false⟩ ⟨Time.ofNat 10, 50⟩ ⟨Time.ofNat 25, 50⟩

end Lookahead.Metronome
