import Lookahead.Clock.Set
import Lookahead.Link.Outbox
import Lookahead.Untimed.Inbox

/-!
Running the programs of handlers.

A context is the part of a partition that a handler can reach through its requests. Running a
program gives the context that it leaves behind and the value that it ends with; there is no value
if the program panics.
-/

namespace Lookahead

/-! ## Timed handlers -/

/-- What event and clock handlers work on. -/
structure Context (κ σ π : Type) where
  partition : PartitionId
  routes : RouteTable
  timeline : Timeline π
  outbound : List (Outbox π)
  requests : ClockRequests κ
  state : σ

namespace Context

variable {κ σ π α : Type}

/-- What a handler is told when it is called. -/
def view (ctx : Context κ σ π) : View where
  partition := ctx.partition
  now := ctx.timeline.now
  priority := ctx.timeline.priority

/-- Send on a link: at once onto the partition's own timeline, or into the outbox of the other
partition. The event is due after the link's latency and the delay. -/
def send (ctx : Context κ σ π) (link : LinkId) (delay : Nat) (payload : π) :
    Except LinkError (Context κ σ π) := do
  let route ← ctx.routes.get link
  let time := (ctx.timeline.now.after route.latency).after delay
  match route.delivery with
  | .unwired => throw (.unwired route.name)
  | .within target =>
    return { ctx with
      timeline := ctx.timeline.insert time Priority.event (.deliver ⟨target, payload⟩) }
  | .across peer =>
    match ctx.outbound[peer.partition]? with
    | none => throw (.noRoute peer.partition)
    | some box =>
      let activity : Scheduled π :=
        { time, priority := Priority.event, payload := .deliver ⟨peer.link, payload⟩ }
      return { ctx with outbound := ctx.outbound.set peer.partition (box.append activity) }

end Context

def Program.run {κ σ π α : Type} : Program κ σ π α → Context κ σ π → Context κ σ π × Option α
  | .done value, ctx => (ctx, some value)
  | .panic, ctx => (ctx, none)
  | .recall next, ctx => (next ctx.state).run ctx
  | .remember state next, ctx => next.run { ctx with state }
  | .latency link next, ctx => (next ((ctx.routes.get link).map (·.latency))).run ctx
  | .send link delay payload next, ctx =>
    match ctx.send link delay payload with
    | .ok ctx => (next (.ok ())).run ctx
    | .error e => (next (.error e)).run ctx
  | .register period handler next, ctx =>
    let (handle, requests) := ctx.requests.register period handler
    (next handle).run { ctx with requests }
  | .unregister handle next, ctx =>
    next.run { ctx with requests := ctx.requests.unregister handle }

/-! ## Untimed handlers -/

/-- What untimed handlers work on. -/
structure PhaseContext (σ π : Type) where
  partition : PartitionId
  routes : RouteTable
  outbound : List (Outbox π)
  inbox : Inbox π
  state : σ

/-- Send an untimed event: held back within the partition, or into the outbox of the other one. -/
def PhaseContext.send {σ π : Type} (ctx : PhaseContext σ π) (link : LinkId) (payload : π) :
    Except LinkError (PhaseContext σ π) := do
  let route ← ctx.routes.get link
  match route.delivery with
  | .unwired => throw (.unwired route.name)
  | .within target => return { ctx with inbox := ctx.inbox.hold ⟨target, payload⟩ }
  | .across peer =>
    match ctx.outbound[peer.partition]? with
    | none => throw (.noRoute peer.partition)
    | some box =>
      let activity : Scheduled π :=
        { time := Time.zero, priority := Priority.event, payload := .deliver ⟨peer.link, payload⟩ }
      return { ctx with outbound := ctx.outbound.set peer.partition (box.append activity) }

/-- Run the program of an untimed handler from a context. -/
def PhaseProgram.run {σ π α : Type} :
    PhaseProgram σ π α → PhaseContext σ π → PhaseContext σ π × Option α
  | .done value, ctx => (ctx, some value)
  | .panic, ctx => (ctx, none)
  | .recall next, ctx => (next ctx.state).run ctx
  | .remember state next, ctx => next.run { ctx with state }
  | .send link payload next, ctx =>
    match ctx.send link payload with
    | .ok ctx => (next (.ok ())).run ctx
    | .error e => (next (.error e)).run ctx
  | .receive link next, ctx =>
    match ctx.inbox.take? link with
    | some (event, inbox) => (next (some event.payload)).run { ctx with inbox }
    | none => (next none).run ctx
  | .waiting link next, ctx => (next (ctx.inbox.waiting link)).run ctx

end Lookahead
