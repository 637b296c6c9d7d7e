import Lookahead.Link
import Lookahead.Time.Period

/-!
What a handler does when it is called.

A handler is a program of requests to its partition: read or replace the state that the handlers of
the partition share, send on links, and add or remove clock handlers. Each request is answered at
once and the program goes on with the answer, so a handler can do nothing that is not listed here.
-/

namespace Lookahead

/-- Names one registered clock handler: the factor of its clock, and its number. -/
structure ClockHandle where
  factor : Nat
  handler : HandlerId
deriving DecidableEq

/-- What a handler is told when it is called. -/
structure View where
  partition : PartitionId
  now : Time
  priority : Int

/-- A handler's program. Clock handlers are of type `κ`, the shared state of type `σ`, payloads of
type `π`, and the program ends with a value of type `α`. -/
inductive Program (κ σ π α : Type) where
  | done (value : α)
  | panic
  | recall (next : σ → Program κ σ π α)
  | remember (state : σ) (next : Program κ σ π α)
  | latency (link : LinkId) (next : Except LinkError Nat → Program κ σ π α)
  | send (link : LinkId) (delay : Nat) (payload : π)
      (next : Except LinkError Unit → Program κ σ π α)
  | register (period : Period) (handler : κ) (next : ClockHandle → Program κ σ π α)
  | unregister (handle : ClockHandle) (next : Program κ σ π α)

namespace Program

variable {κ σ π α β : Type}

def bind : Program κ σ π α → (α → Program κ σ π β) → Program κ σ π β
  | .done value, f => f value
  | .panic, _ => .panic
  | .recall next, f => .recall fun state => (next state).bind f
  | .remember state next, f => .remember state (next.bind f)
  | .latency link next, f => .latency link fun answer => (next answer).bind f
  | .send link delay payload next, f => .send link delay payload fun answer => (next answer).bind f
  | .register period handler next, f => .register period handler fun handle => (next handle).bind f
  | .unregister handle next, f => .unregister handle (next.bind f)

instance : Monad (Program κ σ π) where
  pure := .done
  bind := bind

def modify (f : σ → σ) : Program κ σ π Unit := .recall fun state => .remember (f state) (.done ())

/-- Send `payload` on `link`, `delay` later than its latency makes it. -/
def transmit (link : LinkId) (delay : Nat) (payload : π) : Program κ σ π (Except LinkError Unit) :=
  .send link delay payload .done

def latencyOf (link : LinkId) : Program κ σ π (Except LinkError Nat) := .latency link .done

def attach (period : Period) (handler : κ) : Program κ σ π ClockHandle :=
  .register period handler .done

def detach (handle : ClockHandle) : Program κ σ π Unit := .unregister handle (.done ())

end Program

/-! ## Untimed handlers -/

/-- The stages outside simulated time: before the first dispatch and after the last. -/
inductive Stage where
  | init
  | complete
deriving DecidableEq

/-- The largest number of a phase, which has 32 bits. -/
def lastPhase : Nat := 4294967295

/-- What an untimed handler is told when it is called. -/
structure PhaseView where
  partition : PartitionId
  stage : Stage
  /-- How many phases of the stage are over, as far as 32 bits can say. -/
  phase : Nat

/-- What is told in a phase that comes after so many others. -/
def PhaseView.after (partition : PartitionId) (stage : Stage) (phases : Nat) : PhaseView :=
  ⟨partition, stage, phases % (lastPhase + 1)⟩

/-- The program of an untimed handler, which may only send and read untimed events, and ask how many
wait on a link end. -/
inductive PhaseProgram (σ π α : Type) where
  | done (value : α)
  | panic
  | recall (next : σ → PhaseProgram σ π α)
  | remember (state : σ) (next : PhaseProgram σ π α)
  | send (link : LinkId) (payload : π) (next : Except LinkError Unit → PhaseProgram σ π α)
  | receive (link : LinkId) (next : Option π → PhaseProgram σ π α)
  | waiting (link : LinkId) (next : Nat → PhaseProgram σ π α)

namespace PhaseProgram

variable {σ π α β : Type}

def bind : PhaseProgram σ π α → (α → PhaseProgram σ π β) → PhaseProgram σ π β
  | .done value, f => f value
  | .panic, _ => .panic
  | .recall next, f => .recall fun state => (next state).bind f
  | .remember state next, f => .remember state (next.bind f)
  | .send link payload next, f => .send link payload fun answer => (next answer).bind f
  | .receive link next, f => .receive link fun answer => (next answer).bind f
  | .waiting link next, f => .waiting link fun answer => (next answer).bind f

instance : Monad (PhaseProgram σ π) where
  pure := .done
  bind := bind

def modify (f : σ → σ) : PhaseProgram σ π Unit :=
  .recall fun state => .remember (f state) (.done ())

/-- Send `payload` on `link`; the other end can read it in the next phase. -/
def transmit (link : LinkId) (payload : π) : PhaseProgram σ π (Except LinkError Unit) :=
  .send link payload .done

/-- Read the oldest untimed event that waits on `link`. -/
def read (link : LinkId) : PhaseProgram σ π (Option π) := .receive link .done

/-- Ask how many untimed events wait on `link`. -/
def count (link : LinkId) : PhaseProgram σ π Nat := .waiting link .done

end PhaseProgram

end Lookahead
