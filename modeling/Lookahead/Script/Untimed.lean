import Lookahead.Script.Timed

/-!
Scripts of untimed handlers. A step can be tied to a stage and to a phase.
-/

namespace Lookahead.Script

/-- What a step does. -/
inductive PhaseDeed where
  | send (link : LinkId) (payload : Payload)
  /-- Send, and write down how that went instead of failing. -/
  | trySend (link : LinkId) (payload : Payload)
  | receive (link : LinkId)
  | receiveAll (link : LinkId)
  /-- Receive, and send on what came with one hop less, if it has one left. -/
  | relay (link target : LinkId)
  | panic

/-- One step of an untimed script. -/
structure PhaseStep where
  /-- The stage that the step is tied to. -/
  stage : Option Stage := none
  /-- The phase that the step is tied to. -/
  phase : Option Nat := none
  turns : Turns := {}
  deed : PhaseDeed

/-- A scripted untimed handler. -/
structure Participant where
  name : String
  steps : List PhaseStep

/-- Programs of scripted untimed handlers. -/
abbrev PhaseRun (α : Type) := PhaseProgram Journal Payload α

namespace PhaseRun

/-- Write a line into the journal. -/
def note (entry : Entry) : PhaseRun Unit := PhaseProgram.modify fun journal => journal.note entry

/-- Read one event and write down what it was. -/
def receive (link : LinkId) : PhaseRun (Option Payload) := do
  let payload ← PhaseProgram.read link
  note (.received link payload)
  return payload

/-- Read so many events. -/
def receiveMany (link : LinkId) : Nat → PhaseRun Unit
  | 0 => return ()
  | n + 1 => do
    let _ ← receive link
    receiveMany link n

end PhaseRun

/-- Do what a step says. -/
def PhaseDeed.perform : PhaseDeed → PhaseRun (Except LinkError Unit)
  | .send link payload => PhaseProgram.transmit link payload
  | .trySend link payload => do
    let answer ← PhaseProgram.transmit link payload
    PhaseRun.note (.sent link answer)
    return .ok ()
  | .receive link => do
    let _ ← PhaseRun.receive link
    return .ok ()
  | .receiveAll link => do
    PhaseRun.receiveMany link (← PhaseProgram.count link)
    return .ok ()
  | .relay link target => do
    match (← PhaseRun.receive link).bind Payload.nextHop? with
    | none => return .ok ()
    | some payload => PhaseProgram.transmit target payload
  | .panic => PhaseProgram.panic

def PhaseStep.isReached (step : PhaseStep) (view : PhaseView) : Bool :=
  step.stage.all (· = view.stage) && step.phase.all (· = view.phase)

/-- Take the steps of a script in order. It ends with the steps as they are afterwards. -/
def runPhaseSteps (view : PhaseView) :
    List PhaseStep → PhaseRun (List PhaseStep × Except LinkError Unit)
  | [] => return ([], .ok ())
  | step :: rest => do
    let (after, answer) ←
      if step.isReached view then
        let after := { step with turns := step.turns.next }
        match step.turns.index? with
        | none => pure (after, .ok ())
        | some _ => do
          let answer ← step.deed.perform
          pure (after, answer)
      else pure (step, .ok ())
    match answer with
    | .error e => return (after :: rest, .error e)
    | .ok () =>
      let (rest, answer) ← runPhaseSteps view rest
      return (after :: rest, answer)

/-- Run the script of an untimed handler for a phase. -/
def phase (participant : Participant) (view : PhaseView) :
    PhaseRun (Except LinkError Participant) := do
  PhaseRun.note (.phase view participant.name)
  let (steps, answer) ← runPhaseSteps view participant.steps
  return answer.map fun _ => { participant with steps }

end Lookahead.Script
