import Lookahead.Simulation.Builder

/-!
A ring of partitions in which tokens go around.

Each partition sends to the next one over a link whose latency is the window of skip-ahead. Its
tokens start at random times, make their hops with random delays of at most one window, and then
vanish.
-/

namespace Lookahead.Ring

/-- A sequence of random numbers. -/
abbrev Source := Nat → Nat

/-- A token and the hops that it has left. -/
structure Token where
  hopsLeft : Nat
deriving DecidableEq

instance : DataSize Token := ⟨fun _ => 4⟩

/-- Sends tokens on with delays of at most `maxDelay`; `drawn` of its random numbers are used up. -/
structure Hopper where
  maxDelay : Nat
  source : Source
  drawn : Nat := 0

/-- The link end on which every partition sends to the next. -/
def out : LinkId := 0

def hop (hopper : Hopper) (event : Event Token) (_ : View) :
    Program Empty Unit Token (Except LinkError Hopper) :=
  match event.payload.hopsLeft with
  | 0 => return .ok hopper
  | hopsLeft + 1 => do
    let delay := hopper.source hopper.drawn % (hopper.maxDelay + 1)
    let answer ← Program.transmit out delay ⟨hopsLeft⟩
    return answer.map fun _ => { hopper with drawn := hopper.drawn + 1 }

/-- Partitions without clocks whose only handlers send tokens on. -/
def model : Model where
  Payload := Token
  State := Unit
  initial := ()
  Receiver := Hopper
  Ticker := Empty
  Participant := Empty
  receive := hop
  tick := fun ticker => nomatch ticker
  phase := fun participant => nomatch participant

/-- Where the random numbers of a ring come from. -/
structure Sources where
  /-- The start times of tokens, in the order of scheduling. -/
  starts : Source
  /-- The delays of tokens that come around, by the number of the link. -/
  around : Nat → Source
  /-- The delays of tokens that start, by partition. -/
  kicks : Nat → Source

/-- The number in the name of a ring link is that of the partition which it leaves. -/
def linkName (i : Nat) : String := s!"ring-{i}"

def addOutputs (n window : Nat) (b : Builder model) : Except ConfigError (Builder model) :=
  (List.range n).foldlM (fun b i => return (← b.addOutputLink i (linkName i) window).2) b

/-- Add the receiving end of every link. -/
def addInputs (n window : Nat) (sources : Sources) (b : Builder model) :
    Except ConfigError (Builder model) :=
  (List.range n).foldlM
    (fun b i =>
      return (← b.addLink ((i + 1) % n) (linkName i) window ⟨window, sources.around i, 0⟩).2) b

/-- Start the tokens of partition `i`. -/
def addTokens (window tokens hops : Nat) (sources : Sources) (b : Builder model) (i : Nat) :
    Except ConfigError (Builder model) := do
  let (start, b) ← b.addLink i "start" 0 ⟨window, sources.kicks i, 0⟩
  let (_, b) ← b.addOutputLink i "start" 0
  (List.range tokens).foldlM
    (fun b k =>
      let time := Time.ofNat (sources.starts (i * tokens + k) % (window * 4))
      b.scheduleEvent start time ⟨hops⟩) b

/-- A ring of `n` partitions, each with so many tokens that make so many hops. -/
def simulation (n window tokens hops : Nat) (sources : Sources) :
    Except ConfigError (Simulation model) := do
  let b ← Builder.ofConfig { partitions := n, window := some window }
  let b ← addOutputs n window b
  let b ← addInputs n window sources b
  let b ← (List.range n).foldlM (addTokens window tokens hops sources) b
  b.build

/-! ## Random numbers -/

/-- One step of a linear congruential generator on 64 bits. -/
def nextState (state : Nat) : Nat :=
  (state * 6364136223846793005 + 1442695040888963407) % 18446744073709551616

/-- The numbers that follow from a seed. Each is the upper half of a state that is reached in two
steps from the seed and its own position. -/
def ofSeed (seed : Nat) : Source := fun k => nextState (nextState (seed + k)) / 4294967296

def Sources.ofSeed (seed : Nat) : Sources where
  starts := Ring.ofSeed seed
  around := fun i => Ring.ofSeed (seed + 2 * i + 1)
  kicks := fun i => Ring.ofSeed (seed + 2 * i + 2)

end Lookahead.Ring
