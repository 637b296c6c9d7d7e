import Lookahead.Proofs.Build

/-!
Options that a builder only keeps until the simulation is built.

Nothing that is asked of a builder looks at the window of skip-ahead or at the stop. So whatever was
asked of one builder could have been asked in the same way of one with another window
(`Builder.Made.withWindow`) or with another stop (`Builder.Made.withStop`).
-/

namespace Lookahead

variable {M : Model}

/-- A change of configuration that a builder does not notice until the simulation is built. -/
structure Config.Late (change : Config → Config) : Prop where
  partitions : ∀ config, (change config).partitions = config.partitions
  clock : ∀ config, (change config).clock = config.clock
  valid : ∀ config, config.validate = .ok () → (change config).validate = .ok ()

def Simulation.withStop (simulation : Simulation M) (stopAt : Option Time) : Simulation M :=
  { simulation with partitions := simulation.partitions.map fun p => { p with stopAt := stopAt } }

namespace Builder

def adjust (b : Builder M) (change : Config → Config) : Builder M :=
  { b with config := change b.config }

def withWindow (b : Builder M) (window : Option Nat) : Builder M :=
  { b with config := { b.config with window := window } }

def withStop (b : Builder M) (stopAt : Option Time) : Builder M :=
  { b with config := { b.config with stopAt := stopAt } }

section

variable {b b' : Builder M} {partition : PartitionId} {change : Config → Config}

theorem ofConfig_adjust (hlate : Config.Late change) {config : Config}
    (h : ofConfig config = .ok b) : ofConfig (change config) = .ok (b.adjust change) := by
  obtain ⟨_, _, _, rfl⟩ := ofConfig_eq_ok h
  obtain ⟨_, hvalid, _⟩ := bind_eq_ok_iff.mp h
  refine bind_eq_ok_iff.mpr ⟨(), hlate.valid config hvalid, ?_⟩
  simp only [adjust, hlate.partitions, hlate.clock]
  rfl

theorem addEnd_adjust {name : String} {latency : Nat} {receiver : Option M.Receiver}
    {linkEnd : LinkEnd} (h : b.addEnd partition name latency receiver = .ok (linkEnd, b')) :
    (b.adjust change).addEnd partition name latency receiver =
      .ok (linkEnd, b'.adjust change) := by
  obtain ⟨setup, hsetup, h⟩ := bind_eq_ok_iff.mp h
  obtain ⟨_, hregister, h⟩ := bind_eq_ok_iff.mp h
  cases h
  exact bind_eq_ok_iff.mpr ⟨setup, hsetup, bind_eq_ok_iff.mpr ⟨_, hregister, rfl⟩⟩

theorem scheduleEvent_adjust {linkEnd : LinkEnd} {time : Time} {payload : M.Payload}
    {priority : Int} (h : b.scheduleEvent linkEnd time payload priority = .ok b') :
    (b.adjust change).scheduleEvent linkEnd time payload priority =
      .ok (b'.adjust change) := by
  obtain ⟨setup, hsetup, h⟩ := bind_eq_ok_iff.mp h
  obtain ⟨_, hroute, h⟩ := bind_eq_ok_iff.mp h
  cases h
  exact bind_eq_ok_iff.mpr ⟨setup, hsetup, bind_eq_ok_iff.mpr ⟨_, hroute, rfl⟩⟩

theorem registerClock_adjust {period : Period} {handler : M.Ticker} {handle : ClockHandle}
    (h : b.registerClock partition period handler = .ok (handle, b')) :
    (b.adjust change).registerClock partition period handler =
      .ok (handle, b'.adjust change) := by
  obtain ⟨setup, hsetup, h⟩ := bind_eq_ok_iff.mp h
  cases h
  exact bind_eq_ok_iff.mpr ⟨setup, hsetup, rfl⟩

theorem unregisterClock_adjust {handle : ClockHandle} {empty : Bool}
    (h : b.unregisterClock partition handle = .ok (empty, b')) :
    (b.adjust change).unregisterClock partition handle = .ok (empty, b'.adjust change) := by
  obtain ⟨setup, hsetup, h⟩ := bind_eq_ok_iff.mp h
  obtain ⟨_, hclocks, h⟩ := bind_eq_ok_iff.mp h
  cases h
  exact bind_eq_ok_iff.mpr ⟨setup, hsetup, bind_eq_ok_iff.mpr ⟨_, hclocks, rfl⟩⟩

theorem addParticipant_adjust {participant : M.Participant}
    (h : b.addParticipant partition participant = .ok b') :
    (b.adjust change).addParticipant partition participant = .ok (b'.adjust change) := by
  obtain ⟨setup, hsetup, h⟩ := bind_eq_ok_iff.mp h
  cases h
  exact bind_eq_ok_iff.mpr ⟨setup, hsetup, rfl⟩

/-- Whatever is asked of a builder, it could have been asked after such a change. -/
theorem Made.adjust {log : List (Planned M.Payload)} (h : b.Made log)
    (hlate : Config.Late change) : (b.adjust change).Made log := by
  induction h with
  | ofConfig h => exact .ofConfig (ofConfig_adjust hlate h)
  | addEnd _ h ih => exact ih.addEnd (addEnd_adjust h)
  | scheduleEvent _ h ih => exact ih.scheduleEvent (scheduleEvent_adjust h)
  | registerClock _ h ih => exact ih.registerClock (registerClock_adjust h)
  | unregisterClock _ h ih => exact ih.unregisterClock (unregisterClock_adjust h)
  | addParticipant _ h ih => exact ih.addParticipant (addParticipant_adjust h)

theorem Made.withWindow {log : List (Planned M.Payload)} (h : b.Made log) {window : Option Nat}
    (hwindow : window ≠ some 0) : (b.withWindow window).Made log := by
  have hlate : Config.Late fun config => { config with window := window } := by
    refine ⟨fun _ => rfl, fun _ => rfl, fun config hvalid => ?_⟩
    have hbefore : config.window ≠ some 0 := (ofConfig_eq_ok (M := M)
      (bind_eq_ok_iff.mpr ⟨(), hvalid, rfl⟩)).2.1
    unfold Config.validate at hvalid ⊢
    rw [if_neg hbefore] at hvalid
    rw [if_neg hwindow]
    exact hvalid
  exact h.adjust hlate

theorem Made.withStop {log : List (Planned M.Payload)} (h : b.Made log) {stopAt : Option Time}
    (hstop : stopAt ≠ some Time.zero) : (b.withStop stopAt).Made log := by
  have hlate : Config.Late fun config => { config with stopAt := stopAt } := by
    refine ⟨fun _ => rfl, fun _ => rfl, fun config hvalid => ?_⟩
    have hbefore : config.stopAt ≠ some Time.zero := (ofConfig_eq_ok (M := M)
      (bind_eq_ok_iff.mpr ⟨(), hvalid, rfl⟩)).2.2.1
    unfold Config.validate at hvalid ⊢
    rw [if_neg hbefore] at hvalid
    rw [if_neg hstop]
    exact hvalid
  exact h.adjust hlate

/-- The stop is no concern of building, which only hands it on to the partitions. -/
theorem build_withStop {simulation : Simulation M} (h : b.build = .ok simulation)
    (stopAt : Option Time) : (b.withStop stopAt).build = .ok (simulation.withStop stopAt) := by
  obtain ⟨_, hfinal, h⟩ := bind_eq_ok_iff.mp h
  obtain ⟨window, hwindow, h⟩ := bind_eq_ok_iff.mp h
  cases h
  refine bind_eq_ok_iff.mpr ⟨_, hfinal, bind_eq_ok_iff.mpr ⟨window, hwindow, ?_⟩⟩
  have hpartitions : (b.withStop stopAt).setups.mapIdx ((b.withStop stopAt).partition window) =
      (b.setups.mapIdx (b.partition window)).map fun p => { p with stopAt := stopAt } := by
    refine List.ext_getElem? fun i => ?_
    rw [List.getElem?_map, List.getElem?_mapIdx, List.getElem?_mapIdx, Option.map_map]
    rfl
  exact congrArg (fun partitions => Except.ok (Simulation.mk partitions window)) hpartitions

end

end Builder

end Lookahead
