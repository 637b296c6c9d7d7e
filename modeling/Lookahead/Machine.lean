import Lookahead.Machine.Thread
import Lookahead.Partition.Report

/-!
Machines: all threads of a run at some moment.

A step lets one of the threads go on, and any order of steps is an interleaving of the partitions.
Once all threads have ended, the run comes to a report or to a failure.
-/

namespace Lookahead

/-- All threads of a run, and what they share. -/
structure Machine (M : Model) where
  shared : Shared M.Payload
  threads : List (Thread M)

namespace Machine

variable {M : Model}

/-- Let the thread at this position take its next step. A thread that ends leaves its inbox. -/
def step? (machine : Machine M) (position : Nat) : Option (Machine M) :=
  match machine.threads[position]? with
  | none => none
  | some thread =>
    match thread.step? machine.shared with
    | none => none
    | some (shared, thread) =>
      let shared := if thread.result?.isSome then shared.close position else shared
      some ⟨shared, machine.threads.set position thread⟩

/-- Let the first thread go that can, and say which it is. -/
def next? (machine : Machine M) : Option (Nat × Machine M) :=
  (List.range machine.threads.length).findSome? fun position =>
    (machine.step? position).map fun machine => (position, machine)

/-- Go on for at most so many steps: with the thread at this position as long as it can go, and then
with the first that can. -/
def run (machine : Machine M) (position : Nat) : Nat → Machine M
  | 0 => machine
  | steps + 1 =>
    match machine.step? position with
    | some machine => machine.run position steps
    | none =>
      match machine.next? with
      | none => machine
      | some (position, machine) => machine.run position steps

def results? (machine : Machine M) : Option (List (Except RunError StopReason)) :=
  machine.threads.mapM Thread.result?

/-- The failures of a run in partition order. -/
def failures (results : List (Except RunError StopReason)) : List RunError :=
  results.filterMap fun result =>
    match result with
    | .ok _ => none
    | .error e => some e

/-- The failure that a run reports: the first that has a cause of its own, or else the first. -/
def failure? (results : List (Except RunError StopReason)) : Option RunError :=
  match (failures results).find? fun e => !e.isAbort with
  | some e => some e
  | none => (failures results).head?

def reportOf? (thread : Thread M) : Option PartitionReport :=
  match thread with
  | .ended (.ok stop) p => some (p.report stop)
  | _ => none

/-- What the run comes to, once all threads have ended. -/
def outcome? (machine : Machine M) (window : Nat) : Option (Except RunError RunReport) :=
  match machine.results? with
  | none => none
  | some results =>
    match failure? results with
    | some e => some (.error e)
    | none => some (.ok ⟨machine.threads.filterMap reportOf?, window⟩)

end Machine

end Lookahead
