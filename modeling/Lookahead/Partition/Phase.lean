import Lookahead.Partition

/-!
The untimed stages of a partition: phases in which its untimed handlers are called, and what happens
to untimed events between them.
-/

namespace Lookahead.Partition

variable {M : Model}

/-- Call the untimed handlers of a phase in order, until one of them fails. -/
def callParticipants (view : PhaseView) : List M.Participant → M.PhaseContext →
    M.PhaseContext × Option (Except LinkError (List M.Participant))
  | [], ctx => (ctx, some (.ok []))
  | participant :: rest, ctx =>
    match (M.phase participant view).run ctx with
    | (ctx, none) => (ctx, none)
    | (ctx, some (.error e)) => (ctx, some (.error e))
    | (ctx, some (.ok participant)) =>
      match callParticipants view rest ctx with
      | (ctx, some (.ok rest)) => (ctx, some (.ok (participant :: rest)))
      | failed => failed

def losesCount (M : Model) (phases : Nat) : Bool :=
  match M.overflow with
  | .panics => lastPhase < phases
  | .wraps => false

/-- Run the phase that comes after so many others of its stage. What the partition sent to itself
becomes readable, and how much that is is the answer. -/
def runPhase (p : Partition M) (stage : Stage) (phase : Nat) :
    Except RunError Nat × Partition M :=
  if losesCount M phase then (.error (.panicked p.id), p)
  else
    match callParticipants (.after p.id stage phase) p.participants p.phaseContext with
    | (ctx, none) => (.error (.panicked p.id), p.withPhaseContext ctx)
    | (ctx, some (.error e)) => (.error (.link e), p.withPhaseContext ctx)
    | (ctx, some (.ok participants)) =>
      (.ok ctx.inbox.held.length,
        { p.withPhaseContext ctx with participants, inbox := ctx.inbox.commit })

/-- Take in what an untimed round brought, besides the `own` events of the partition. -/
def receiveUntimed (p : Partition M) (own : Nat) (received : List (Event M.Payload)) :
    Partition M :=
  { p with
    inbox := received.foldl Inbox.deliver p.inbox
    tally :=
      { p.tally with
        untimedReceived := p.tally.untimedReceived + own + received.length } }

/-- Drop the untimed events that nobody has read. -/
def dropUnread (p : Partition M) : Partition M :=
  { p with
    inbox := p.inbox.clear
    tally := { p.tally with untimedDropped := p.tally.untimedDropped + p.inbox.unread } }

/-- Discard the timed sends that no epoch has handed over, so that the last stage exchanges nothing
but untimed events. -/
def prepareComplete (p : Partition M) : Partition M :=
  { p with member := { p.member with outbound := p.member.outbound.map fun _ => {} } }.dropUnread

end Lookahead.Partition
