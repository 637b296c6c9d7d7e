import Lookahead.Machine

/-!
Simulations: wired partitions that are ready to run at the same time.
-/

namespace Lookahead

/-- Wired partitions, ready to run, and the window of skip-ahead. -/
structure Simulation (M : Model) where
  partitions : List (Partition M)
  window : Nat

namespace Simulation

variable {M : Model}

def shared (simulation : Simulation M) : Shared M.Payload :=
  Shared.ofParties simulation.partitions.length simulation.partitions.length

def machine (simulation : Simulation M) : Machine M :=
  ⟨simulation.shared, simulation.partitions.map Thread.start⟩

/-- Run for at most so many steps, with one thread until it has to wait and then with the first that
can go. -/
def run (simulation : Simulation M) (steps : Nat) : Machine M := simulation.machine.run 0 steps

end Simulation

end Lookahead
