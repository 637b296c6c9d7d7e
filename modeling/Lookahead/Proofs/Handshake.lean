import Lookahead.Proofs.Deeds

/-!
A handshake: two partitions whose untimed handlers talk over the link on which events go, too.

In each stage one of the handlers begins with two words. Whoever hears a word reads it, one in each
phase, and the second handler answers it with the next word. It is about the least that untimed
stages can have to do, and the theorem about them is tried on it.
-/

namespace Lookahead.Handshake

/-- An untimed handler: the stage in which it begins and the word that it begins with, whether it
answers, and what it has heard. -/
structure Guest where
  stage : Stage
  word : Nat
  answers : Bool
  heard : List Nat := []

/-- Begin with two words, or read one and perhaps answer it. -/
def talk (guest : Guest) (view : PhaseView) : PhaseProgram Unit Nat (Except LinkError Guest) :=
  if view.stage = guest.stage ∧ view.phase = 0 then do
    let _ ← PhaseProgram.transmit 0 guest.word
    let sent ← PhaseProgram.transmit 0 (guest.word + 1)
    return sent.map fun _ => guest
  else do
    let answer ← PhaseProgram.read 0
    match answer with
    | none => return .ok guest
    | some word =>
      if guest.answers then
        let sent ← PhaseProgram.transmit 0 (word + 1)
        return sent.map fun _ => { guest with heard := guest.heard ++ [word] }
      else return .ok { guest with heard := guest.heard ++ [word] }

/-- Events are numbers, and a number is passed on as the one before it. -/
def model : Model where
  Payload := Nat
  dataSize := ⟨fun _ => 8⟩
  State := Unit
  initial := ()
  Receiver := Unit
  Ticker := Empty
  Participant := Guest
  receive := fun _ event _ =>
    match event.payload with
    | 0 => return .ok ()
    | n + 1 => Program.transmit 0 0 n
  tick := fun ticker => nomatch ticker
  phase := talk

/-- Two partitions before anything was asked for. -/
def blank : Builder model where
  config := { partitions := 2 }
  tables := [⟨0, []⟩, ⟨1, []⟩]
  setups := [{ clocks := {} }, { clocks := {} }]

def home : Guest := ⟨.init, 7, false, []⟩

def away : Guest := ⟨.complete, 9, true, []⟩

/-- One event in the first partition, which is passed on to the second one. -/
def builder : Builder model where
  config := { partitions := 2 }
  tables := [
    ⟨0, [⟨"handshake", 3, .across ⟨1, 0⟩⟩]⟩,
    ⟨1, [⟨"handshake", 3, .across ⟨0, 0⟩⟩]⟩]
  setups := [
    { timeline := ({} : Timeline Nat).insert (Time.ofNat 5) Priority.event (.deliver ⟨0, 1⟩)
      receivers := [some ()]
      clocks := {}
      participants := [home] },
    { receivers := [some ()], clocks := {}, participants := [away] }]
  registry := { wired := 1 }

def log : List (Planned Nat) := [⟨⟨0, 0⟩, Time.ofNat 5, Priority.event, 1⟩]

def simulation : Simulation model := ⟨builder.setups.mapIdx (builder.partition 3), 3⟩

theorem made : builder.Made log := by
  have hblank : Builder.ofConfig { partitions := 2 } = .ok blank := rfl
  obtain ⟨b, hb⟩ : ∃ b, blank.addEnd 0 "handshake" 3 (some ()) = .ok (⟨0, 0⟩, b) := ⟨_, rfl⟩
  obtain ⟨c, hc⟩ : ∃ c, b.addEnd 1 "handshake" 3 (some ()) = .ok (⟨1, 0⟩, c) := by
    cases hb
    exact ⟨_, rfl⟩
  obtain ⟨d, hd⟩ : ∃ d, c.addParticipant 0 home = .ok d := by
    cases hb
    cases hc
    exact ⟨_, rfl⟩
  obtain ⟨e, he⟩ : ∃ e, d.addParticipant 1 away = .ok e := by
    cases hb
    cases hc
    cases hd
    exact ⟨_, rfl⟩
  have hevent : e.scheduleEvent ⟨0, 0⟩ (Time.ofNat 5) (1 : Nat) = .ok builder := by
    cases hb
    cases hc
    cases hd
    cases he
    rfl
  exact .scheduleEvent (.addParticipant (.addParticipant
    (.addEnd (.addEnd (.ofConfig hblank) hb) hc) hd) he) hevent

theorem build_eq : builder.build = .ok simulation := rfl

/-- What is done when both partitions take their steps in turns, and where it leads to. -/
def run : List (PartitionId × Deed model) × Machine model :=
  (Machine.deeds model).follow simulation.machine ((List.range 280).map fun k => k % 2)

theorem run_run : ∃ schedule, (Machine.deeds model).Run simulation.machine schedule run.1 run.2 :=
  System.run_follow _ _ _

set_option maxRecDepth 4000 in
theorem exists_report : ∃ report : RunReport, run.2.outcome? 3 = some (.ok report) ∧
    report.partitions.map (fun r => (r.tally.untimedReceived, r.tally.untimedDropped)) =
      [(4, 1), (2, 0)] ∧
    report.partitions.map (fun r => (r.tally.events, r.exchanged)) = [(1, 1), (1, 0)] :=
  ⟨_, rfl, rfl, rfl⟩

end Lookahead.Handshake
