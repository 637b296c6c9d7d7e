import Lookahead.Proofs.Halting
import Lookahead.Proofs.Options
import Lookahead.Workload.Ring

/-!
A relay: two partitions that pass a token to and fro over one link.

It is about the least that partitions can have to do with each other, and the theorems about runs
are tried on it.
-/

namespace Lookahead.Relay

open Lookahead.Ring

/-- Sends the token back without a delay. -/
def runner : Hopper := ⟨0, fun _ => 0, 0⟩

/-- Two partitions before anything was asked for. -/
def blank : Builder model where
  config := { partitions := 2 }
  tables := [⟨0, []⟩, ⟨1, []⟩]
  setups := [{ clocks := {} }, { clocks := {} }]

/-- The token starts at the first partition and makes so many hops, each of which takes one unit
more than the lag. -/
def builder (lag hops : Nat) : Builder model where
  config := { partitions := 2 }
  tables := [
    ⟨0, [⟨"relay", lag + 1, .across ⟨1, 0⟩⟩]⟩,
    ⟨1, [⟨"relay", lag + 1, .across ⟨0, 0⟩⟩]⟩]
  setups := [
    { timeline := ({} : Timeline Token).insert Time.zero Priority.event (.deliver ⟨0, ⟨hops⟩⟩)
      receivers := [some runner]
      clocks := {} },
    { receivers := [some runner], clocks := {} }]
  registry := { wired := 1 }

def log (hops : Nat) : List (Planned Token) := [⟨⟨0, 0⟩, Time.zero, Priority.event, ⟨hops⟩⟩]

def simulation (lag hops window : Nat) : Simulation model :=
  ⟨(builder lag hops).setups.mapIdx ((builder lag hops).partition window), window⟩

def crew (lag hops : Nat) (home away : Option Hopper) : Builder model where
  config := { partitions := 2 }
  tables := (builder lag hops).tables
  setups := [
    { timeline := ({} : Timeline Token).insert Time.zero Priority.event (.deliver ⟨0, ⟨hops⟩⟩)
      receivers := [home]
      clocks := {} },
    { receivers := [away], clocks := {} }]
  registry := { wired := 1 }

def crewed (lag hops : Nat) (home away : Option Hopper) : Simulation model :=
  ⟨(crew lag hops home away).setups.mapIdx ((crew lag hops home away).partition (lag + 1)), lag + 1⟩

theorem made_crew (lag hops : Nat) (home away : Option Hopper) :
    (crew lag hops home away).Made (log hops) := by
  have hblank : Builder.ofConfig { partitions := 2 } = .ok blank := rfl
  obtain ⟨first, hfirst⟩ : ∃ b, blank.addEnd 0 "relay" (lag + 1) home = .ok (⟨0, 0⟩, b) := ⟨_, rfl⟩
  obtain ⟨second, hsecond⟩ :
      ∃ b, first.addEnd 1 "relay" (lag + 1) away = .ok (⟨1, 0⟩, b) := by
    cases hfirst
    exact ⟨_, rfl⟩
  have hstart :
      second.scheduleEvent ⟨0, 0⟩ Time.zero ⟨hops⟩ = .ok (crew lag hops home away) := by
    cases hfirst
    cases hsecond
    rfl
  exact .scheduleEvent (.addEnd (.addEnd (.ofConfig hblank) hfirst) hsecond) hstart

theorem made (lag hops : Nat) : (builder lag hops).Made (log hops) :=
  made_crew lag hops (some runner) (some runner)

theorem crossRoutes_crew (lag hops : Nat) (home away : Option Hopper) :
    (crew lag hops home away).crossRoutes =
      [⟨"relay", lag + 1, .across ⟨1, 0⟩⟩, ⟨"relay", lag + 1, .across ⟨0, 0⟩⟩] := rfl

/-- Unless the window is configured, it is as long as a hop. -/
theorem build_crew (lag hops : Nat) (home away : Option Hopper) :
    (crew lag hops home away).build = .ok (crewed lag hops home away) := by
  have hwindow : (crew lag hops home away).window = .ok (lag + 1) := by
    unfold Builder.window
    rw [crossRoutes_crew]
    simp [Builder.fastest?, crew]
  unfold Builder.build
  rw [hwindow]
  rfl

theorem build_eq (lag hops : Nat) :
    (builder lag hops).build = .ok (simulation lag hops (lag + 1)) :=
  build_crew lag hops (some runner) (some runner)

theorem build_withWindow (lag hops : Nat) {window : Nat} (h : window ≤ lag + 1) :
    ((builder lag hops).withWindow (some window)).build = .ok (simulation lag hops window) := by
  have hwindow : ((builder lag hops).withWindow (some window)).window = .ok window := by
    have hroutes : ((builder lag hops).withWindow (some window)).crossRoutes =
        (crew lag hops (some runner) (some runner)).crossRoutes := rfl
    unfold Builder.window
    rw [hroutes, crossRoutes_crew]
    simp [Builder.fastest?, Builder.withWindow, Nat.not_lt.mpr h]
  unfold Builder.build
  rw [hwindow]
  rfl

theorem latency_of_routeAt (lag hops : Nat) {e : LinkEnd} {route : Route}
    (h : routeAt (builder lag hops).tables e = some route) : route.latency = lag + 1 := by
  obtain ⟨table, htable, hroute⟩ := Option.bind_eq_some_iff.mp h
  have hmem : route ∈ (builder lag hops).tables.flatMap (·.routes) :=
    List.mem_flatMap.mpr ⟨table, List.mem_of_getElem? htable, List.mem_of_getElem? hroute⟩
  rcases List.mem_cons.mp hmem with rfl | hmem
  · rfl
  · rw [List.mem_singleton.mp hmem]

def run (simulation : Simulation model) (schedule : List PartitionId) :
    List (PartitionId × Dispatch model) × Machine model :=
  (Machine.system model).follow simulation.machine schedule

theorem reaches_run (simulation : Simulation model) (schedule : List PartitionId) :
    simulation.Reaches (run simulation schedule).1 (run simulation schedule).2 :=
  System.run_follow _ _ schedule

def turns (first : Nat) : List PartitionId := (List.range 128).map fun k => (k + first) % 2

end Lookahead.Relay
