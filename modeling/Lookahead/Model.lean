import Lookahead.Clock.Firing

/-!
Models: the handlers of a simulation, as data with a meaning.

A model says what payloads and handlers are and what each handler does when it is called. A handler
ends a call with its next self, so it can change from call to call; what the handlers of a partition
share is the partition's state. Nothing is shared between partitions.
-/

namespace Lookahead

/-- The types of a simulation and what its handlers do. -/
structure Model where
  Payload : Type
  [dataSize : DataSize Payload]
  /-- What the handlers of one partition share. -/
  State : Type
  /-- The state of a partition at the start. -/
  initial : State
  /-- Handlers of events. -/
  Receiver : Type
  /-- Handlers of clock cycles. -/
  Ticker : Type
  /-- Handlers of untimed phases. -/
  Participant : Type
  /-- A handler receives an event. If it ends with an error, the run fails. -/
  receive : Receiver → Event Payload → View →
    Program Ticker State Payload (Except LinkError Receiver)
  /-- A handler is called for a cycle. If it ends without a next self, it is removed. -/
  tick : Tick Ticker State Payload
  /-- A handler is called for a phase of a stage. If it ends with an error, the run fails. -/
  phase : Participant → PhaseView → PhaseProgram State Payload (Except LinkError Participant)
  /-- How the program was built. -/
  overflow : Overflow := .panics

namespace Model

variable (M : Model)

instance : DataSize M.Payload := M.dataSize

/-- The context of event and clock handlers. -/
abbrev Context : Type := Lookahead.Context M.Ticker M.State M.Payload

/-- The context of untimed handlers. -/
abbrev PhaseContext : Type := Lookahead.PhaseContext M.State M.Payload

end Model

end Lookahead
