/-!
Reusable barriers.

A barrier lets its participants pass in rounds: whoever arrives waits until all have arrived, and
the last arrival opens the round for everyone. Aborting a barrier turns away everyone who is not
part of a completed round. Arriving and looking again after waking up are the two steps of a waiting
thread.
-/

namespace Lookahead

/-- `generation` counts the completed rounds, `waiting` the arrivals of the open one. -/
structure Barrier where
  participants : Nat
  waiting : Nat := 0
  generation : Nat := 0
  aborted : Bool := false
deriving DecidableEq

/-- Where a thread stands that has come to a barrier. -/
inductive Standing where
  | passed
  | turnedAway
  | waiting (generation : Nat)
deriving DecidableEq

namespace Barrier

def ofParticipants (n : Nat) : Barrier := { participants := max n 1 }

def arrive (barrier : Barrier) : Barrier × Standing :=
  if barrier.aborted then (barrier, .turnedAway)
  else if barrier.waiting + 1 = barrier.participants then
    ({ barrier with waiting := 0, generation := barrier.generation + 1 }, .passed)
  else
    ({ barrier with waiting := barrier.waiting + 1 }, .waiting barrier.generation)

/-- Look again after waiting in the round that was open when `generation` rounds were complete. -/
def look (barrier : Barrier) (generation : Nat) : Standing :=
  if barrier.generation ≠ generation then .passed
  else if barrier.aborted then .turnedAway
  else .waiting generation

/-- Turn away everyone who waits in the open round, and everyone who comes later. -/
def abort (barrier : Barrier) : Barrier := { barrier with aborted := true }

/-- What happens to someone who is turned away. -/
def abortedMessage : String := "barrier aborted by a failed participant"

/-- Let `n` threads arrive one after another. -/
def arriveMany (barrier : Barrier) : Nat → Barrier × List Standing
  | 0 => (barrier, [])
  | n + 1 =>
    let (barrier, standing) := barrier.arrive
    let (barrier, standings) := barrier.arriveMany n
    (barrier, standing :: standings)

/-- Let everyone who waits look again. -/
def lookAll (barrier : Barrier) (standings : List Standing) : List Standing :=
  standings.map fun standing =>
    match standing with
    | .waiting generation => barrier.look generation
    | settled => settled

end Barrier

end Lookahead
