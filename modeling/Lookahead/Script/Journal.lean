import Lookahead.Handler.Program
import Lookahead.Payload

/-!
Journals: what scripted handlers and recorders write down while a partition runs.
-/

namespace Lookahead.Script

/-- One line of a journal. -/
inductive Entry where
  | event (now : Time) (priority : Int) (event : Event Payload)
  | clock (now : Time) (priority : Int) (name : String) (cycle : Nat)
  | clockError (e : LinkError)
  | phase (view : PhaseView) (name : String)
  | sent (link : LinkId) (answer : Except LinkError Unit)
  | latency (link : LinkId) (answer : Except LinkError Nat)
  | registered (answer : Except TimeError ClockHandle)
  | received (link : LinkId) (payload : Option Payload)

/-- A delivery that a recorder saw. -/
structure Record where
  time : Time
  link : LinkId
  stamp : Option Stamp
deriving DecidableEq

/-- Lines and records in the order in which they were written. -/
structure Journal where
  entries : List Entry := []
  records : List Record := []

namespace Journal

def note (journal : Journal) (entry : Entry) : Journal :=
  { journal with entries := journal.entries ++ [entry] }

def record (journal : Journal) (record : Record) : Journal :=
  { journal with records := journal.records ++ [record] }

end Journal

end Lookahead.Script
