import Lookahead.Model
import Lookahead.Script.Untimed

/-!
The model of scripted simulations: handlers are scripts, and each partition keeps a journal.
-/

namespace Lookahead

/-- Handlers are scripts and recorders, and the state of a partition is its journal. -/
def Script.model : Model where
  Payload := Payload
  State := Script.Journal
  initial := {}
  Receiver := Script.Receiver
  Ticker := Script.Ticker
  Participant := Script.Participant
  receive := Script.receive
  tick := Script.tick
  phase := Script.phase

end Lookahead
