import Lookahead.Partition

/-!
Dispatching: a partition takes the activity that is due first and acts on it.

Events and clock firings are handled on the spot. A synchronization is left to the exchange, and a
stop or an empty queue ends the timed run.
-/

namespace Lookahead.Partition

variable {M : Model}

/-- What follows a dispatch: the next one, a round of the exchange, or the end of the timed run. -/
inductive Next (M : Model) where
  | dispatch (p : Partition M)
  | sync (p : Partition M)
  | stop (reason : StopReason) (p : Partition M)
  | fail (e : RunError) (p : Partition M)

/-- Hand an event to the handler of its link end. -/
def deliver (p : Partition M) (event : Event M.Payload) : Next M :=
  match p.receivers[event.link]? with
  | some (some receiver) =>
    match (M.receive receiver event p.context.view).run p.context with
    | (ctx, none) => .fail (.panicked p.id) (p.withContext ctx)
    | (ctx, some (.error e)) => .fail (.link e) (p.withContext ctx)
    | (ctx, some (.ok receiver)) =>
      match (p.withContext ctx).applyRequests? with
      | none => .fail (.panicked p.id) (p.withContext ctx)
      | some p =>
        .dispatch { p with
          receivers := p.receivers.set event.link (some receiver)
          tally := { p.tally with events := p.tally.events + 1 } }
  | _ => .fail (.unhandled p.id event.link) p

def fire (p : Partition M) (id : ClockId) : Next M :=
  match p.clocks.fire M.tick id p.context with
  | (ctx, none) => .fail (.panicked p.id) (p.withContext ctx)
  | (ctx, some clocks) =>
    match { p.withContext ctx with clocks }.applyRequests? with
    | none => .fail (.panicked p.id) (p.withContext ctx)
    | some p =>
      .dispatch { p with tally := { p.tally with clockFires := p.tally.clockFires + 1 } }

/-- Act on an activity that has come due. -/
def act (p : Partition M) : Action M.Payload → Next M
  | .deliver event => p.deliver event
  | .clock id => p.fire id
  | .sync => .sync p
  | .stop => .stop .stopAt p

/-- Dispatch the activity that is due first. -/
def dispatch (p : Partition M) : Next M :=
  if p.timeline.isEmpty then .stop .exhausted p
  else
    match p.timeline.advance with
    | .error e => .fail (.queue e) p
    | .ok (activity, timeline) => { p with timeline }.act activity.payload

end Lookahead.Partition
