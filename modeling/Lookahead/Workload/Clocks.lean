import Lookahead.Simulation.Builder

/-!
One partition with clocks of the periods 1, 2, 3 and so on, which all stop after the same number of
cycles.
-/

namespace Lookahead.Clocks

/-- A clock handler is the cycle that it goes in. -/
def model : Model where
  Payload := Unit
  dataSize := ⟨fun _ => 0⟩
  State := Unit
  initial := ()
  Receiver := Empty
  Ticker := Nat
  Participant := Empty
  receive := fun receiver => nomatch receiver
  tick := fun last cycle _ => return if last ≤ cycle then none else some last
  phase := fun participant => nomatch participant

def addClock (cycles : Nat) (b : Builder model) (factor : Nat) :
    Except ConfigError (Builder model) := do
  let period ← (Period.ofFactor factor).mapError ConfigError.time
  return (← b.registerClock 0 period cycles).2

/-- The clocks of the periods up to `clocks`. -/
def simulation (clocks cycles : Nat) : Except ConfigError (Simulation model) := do
  let b ← Builder.ofConfig {}
  let b ← ((List.range clocks).map (· + 1)).foldlM (addClock cycles) b
  b.build

end Lookahead.Clocks
