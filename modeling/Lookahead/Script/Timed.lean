import Lookahead.Clock.Firing
import Lookahead.Script.Journal

/-!
Scripts of event and clock handlers.

A script is a list of steps that are taken in order each time its handler is called. A step counts
how often it was reached and acts only on some of these turns; an event script can tie a step to a
payload. The first request that fails ends the script.
-/

namespace Lookahead.Script

/-! ## Turns -/

/-- On which of its turns a step acts: not on the first `skip`, and then on `times` of them. -/
structure Turns where
  skip : Nat := 0
  times : Option Nat := none
  /-- How often the step was reached. -/
  reached : Nat := 0

namespace Turns

/-- The step was reached once more. -/
def next (turns : Turns) : Turns := { turns with reached := turns.reached + 1 }

/-- If the step acts on this turn, the number of its earlier acts. -/
def index? (turns : Turns) : Option Nat :=
  if turns.reached < turns.skip then none
  else
    let index := turns.reached - turns.skip
    match turns.times with
    | none => some index
    | some times => if index < times then some index else none

end Turns

/-- Delays that a step goes through from act to act, over and over. -/
structure Delays where
  delays : List Nat

/-- The delay of an act; none at all if there is nothing to choose from. -/
def Delays.pick (delays : Delays) (index : Nat) : Nat :=
  delays.delays[index % delays.delays.length]?.getD 0

/-! ## Steps -/

/-- What a step does. Clock handlers that it can add are of type `κ`. -/
inductive Deed (κ : Type) where
  | send (link : LinkId) (delays : Delays) (payload : Payload)
  /-- Send, and write down how that went instead of failing. -/
  | trySend (link : LinkId) (delays : Delays) (payload : Payload)
  /-- Send on what arrived with one hop less, if it has one left. -/
  | forward (link : LinkId) (delays : Delays)
  /-- Send a stamp that says when it should arrive. -/
  | stamp (link : LinkId) (delays : Delays) (id : Nat)
  | latency (link : LinkId)
  | register (factor : Nat) (handler : κ)
  | unregister (handle : ClockHandle)
  | panic

/-- One step of a script. -/
structure Step (κ : Type) where
  /-- The payload that the step is tied to. -/
  only : Option Payload := none
  turns : Turns := {}
  deed : Deed κ

/-- A scripted clock handler; it goes when it has been called `fires` times. -/
inductive Ticker where
  | mk (name : String) (fires : Option Nat) (calls : Nat) (steps : List (Step Ticker))

/-- Programs of scripted handlers. -/
abbrev Run (α : Type) := Program Ticker Journal Payload α

/-- Write a line into the journal. -/
def note (entry : Entry) : Run Unit := Program.modify fun journal => journal.note entry

/-- Do what a step says, on the act with this index, with the payload that arrived if there is one.
-/
def Deed.perform (view : View) (got : Option Payload) (index : Nat) :
    Deed Ticker → Run (Except LinkError Unit)
  | .send link delays payload => Program.transmit link (delays.pick index) payload
  | .trySend link delays payload => do
    let answer ← Program.transmit link (delays.pick index) payload
    note (.sent link answer)
    return .ok ()
  | .forward link delays =>
    match got.bind Payload.nextHop? with
    | none => return .ok ()
    | some payload => Program.transmit link (delays.pick index) payload
  | .stamp link delays id => do
    match ← Program.latencyOf link with
    | .error e => return .error e
    | .ok needed =>
      let delay := delays.pick index
      let stamp : Stamp :=
        { id
          origin := view.partition
          sentAt := view.now
          expectedAt := (view.now.after needed).after delay }
      Program.transmit link delay (.stamp stamp)
  | .latency link => do
    let answer ← Program.latencyOf link
    note (.latency link answer)
    return .ok ()
  | .register factor handler => do
    match Period.ofFactor factor with
    | .error e => note (.registered (.error e))
    | .ok period =>
      let handle ← Program.attach period handler
      note (.registered (.ok handle))
    return .ok ()
  | .unregister handle => do
    Program.detach handle
    return .ok ()
  | .panic => Program.panic

def Step.isReached {κ : Type} (step : Step κ) (got : Option Payload) : Bool :=
  step.only.all fun payload => got = some payload

/-- Take the steps of a script in order. It ends with the steps as they are afterwards. -/
def runSteps (view : View) (got : Option Payload) :
    List (Step Ticker) → Run (List (Step Ticker) × Except LinkError Unit)
  | [] => return ([], .ok ())
  | step :: rest => do
    let (after, answer) ←
      if step.isReached got then
        let after := { step with turns := step.turns.next }
        match step.turns.index? with
        | none => pure (after, .ok ())
        | some index => do
          let answer ← step.deed.perform view got index
          pure (after, answer)
      else pure (step, .ok ())
    match answer with
    | .error e => return (after :: rest, .error e)
    | .ok () =>
      let (rest, answer) ← runSteps view got rest
      return (after :: rest, answer)

/-! ## Handlers -/

/-- Handlers of events: a script, or a recorder of what arrives. -/
inductive Receiver where
  | script (steps : List (Step Ticker))
  | recorder

def receive (receiver : Receiver) (event : Event Payload) (view : View) :
    Run (Except LinkError Receiver) :=
  match receiver with
  | .recorder => do
    Program.modify fun journal =>
      journal.record ⟨view.now, event.link, event.payload.stamp?⟩
    return .ok .recorder
  | .script steps => do
    note (.event view.now view.priority event)
    let (steps, answer) ← runSteps view (some event.payload) steps
    return answer.map fun _ => .script steps

/-- A clock handler takes note of a failure and stays in business. -/
def tick (ticker : Ticker) (cycle : Nat) (view : View) : Run (Option Ticker) :=
  match ticker with
  | .mk name fires calls steps => do
    note (.clock view.now view.priority name cycle)
    let (steps, answer) ← runSteps view none steps
    match answer with
    | .error e => note (.clockError e)
    | .ok () => pure ()
    if fires.any fun fires => fires ≤ calls + 1 then
      return none
    else
      return some (.mk name fires (calls + 1) steps)

end Lookahead.Script
