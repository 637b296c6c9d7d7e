import Lookahead.Handler.Context

/-!
Firing a clock: every handler that is on it is called once with the same cycle, in the order of
registration, and those that want to go are removed.
-/

namespace Lookahead

variable {κ σ π : Type}

/-- What a clock handler does in a cycle. It ends with its next self, or with `none` to be removed.
-/
abbrev Tick (κ σ π : Type) := κ → Nat → View → Program κ σ π (Option κ)

/-- Call the handlers one after another. The result holds those that stay and those that go, unless
one of them panics. -/
def callAll (tick : Tick κ σ π) (cycle : Nat) : List (Attached κ) → Context κ σ π →
    Context κ σ π × Option (List (Attached κ) × List (Attached κ))
  | [], ctx => (ctx, some ([], []))
  | entry :: rest, ctx =>
    let called := { entry with calls := entry.calls + 1 }
    match (tick entry.handler cycle ctx.view).run ctx with
    | (ctx, none) => (ctx, none)
    | (ctx, some next) =>
      match callAll tick cycle rest ctx with
      | (ctx, none) => (ctx, none)
      | (ctx, some (staying, going)) =>
        match next with
        | some handler => (ctx, some ({ called with handler } :: staying, going))
        | none => (ctx, some (staying, called :: going))

/-- Fire one cycle. A clock without handlers goes dormant; one that still has handlers afterwards is
queued again one period later. There is no clock left if a handler panics. -/
def Clock.fire (tick : Tick κ σ π) (clock : Clock κ) (ctx : Context κ σ π) :
    Context κ σ π × Option (Clock κ) :=
  if clock.handlers.isEmpty then
    (ctx, some { clock with scheduled := false })
  else
    match callAll tick clock.nextCycle clock.handlers ctx with
    | (ctx, none) => (ctx, none)
    | (ctx, some (staying, going)) =>
      let fired :=
        { clock with
          cycle := clock.nextCycle
          handlers := staying
          retired := clock.retired ++ going }
      if staying.isEmpty then
        (ctx, some { fired with scheduled := false })
      else
        let next := ctx.timeline.now.after clock.period.factor
        let timeline := ctx.timeline.insert next clock.config.priority (.clock clock.id)
        ({ ctx with timeline }, some fired)

/-- Fire the clock with this identity; one that does not exist is passed over. -/
def ClockSet.fire (tick : Tick κ σ π) (set : ClockSet κ) (id : ClockId) (ctx : Context κ σ π) :
    Context κ σ π × Option (ClockSet κ) :=
  match set.clocks[id]? with
  | none => (ctx, some set)
  | some clock =>
    match clock.fire tick ctx with
    | (ctx, none) => (ctx, none)
    | (ctx, some clock) =>
      (ctx, some { set with clocks := set.clocks.set id clock, fired := set.fired + 1 })

end Lookahead
