import Lookahead.Proofs.Firings
import Lookahead.Proofs.Metronome

/-!
How a clock that fires serves its handlers.

Everyone who is on the clock when the firing begins is called once, in the order of registration and
with the same cycle, whoever goes and whatever the handlers ask for meanwhile
(`Clock.serves_everyone`). A call starts from the context that the one before it left. Those that go
are taken off the list while it is walked by position, and nobody is passed over or called twice for
it (`Walk.on_eq`).
-/

namespace Lookahead

variable {κ σ π : Type}

/-! ## Services -/

/-- A call of a handler with the contexts around it. It ends with the next self of a handler that
stays, with `some none` if the handler goes, and with `none` if it panics. -/
structure Service (κ σ π : Type) where
  entry : Attached κ
  cycle : Nat
  before : Context κ σ π
  after : Context κ σ π
  value : Option (Option κ)

namespace Service

def going? (s : Service κ σ π) : Option (Attached κ) :=
  match s.value with
  | some none => some { s.entry with calls := s.entry.calls + 1 }
  | _ => none

def Genuine (tick : Tick κ σ π) (s : Service κ σ π) : Prop :=
  (tick s.entry.handler s.cycle s.before.view).run s.before = (s.after, s.value)

end Service

/-- The services of handlers one after another, up to the first that panics. -/
def services (tick : Tick κ σ π) (cycle : Nat) :
    List (Attached κ) → Context κ σ π → List (Service κ σ π)
  | [], _ => []
  | entry :: rest, ctx =>
    let result := (tick entry.handler cycle ctx.view).run ctx
    ⟨entry, cycle, ctx, result.1, result.2⟩ ::
      if result.2.isSome then services tick cycle rest result.1 else []

/-- `log` serves `handlers` from `ctx` on and leaves `last`. -/
structure Serves (tick : Tick κ σ π) (cycle : Nat) (handlers : List (Attached κ))
    (ctx : Context κ σ π) (log : List (Service κ σ π)) (last : Context κ σ π) : Prop where
  everyone : log.map Service.entry = handlers
  same_cycle : ∀ s ∈ log, s.cycle = cycle
  genuine : ∀ s ∈ log, s.Genuine tick
  linked : log.map Service.before ++ [last] = ctx :: log.map Service.after

theorem Serves.nil (tick : Tick κ σ π) (cycle : Nat) (ctx : Context κ σ π) :
    Serves tick cycle [] ctx [] ctx :=
  ⟨rfl, by simp, by simp, rfl⟩

theorem Serves.cons {tick : Tick κ σ π} {cycle : Nat} {entry : Attached κ}
    {rest : List (Attached κ)} {ctx ctx' last : Context κ σ π} {value : Option (Option κ)}
    {log : List (Service κ σ π)}
    (hrun : (tick entry.handler cycle ctx.view).run ctx = (ctx', value))
    (h : Serves tick cycle rest ctx' log last) :
    Serves tick cycle (entry :: rest) ctx (⟨entry, cycle, ctx, ctx', value⟩ :: log) last where
  everyone := congrArg (entry :: ·) h.everyone
  same_cycle := List.forall_mem_cons.mpr ⟨rfl, h.same_cycle⟩
  genuine := List.forall_mem_cons.mpr ⟨hrun, h.genuine⟩
  linked := congrArg (ctx :: ·) h.linked

/-- A firing under way: who is on the clock, who has gone, and the context. -/
structure Walk (κ σ π : Type) where
  handlers : List (Attached κ)
  going : List (Attached κ)
  ctx : Context κ σ π

/-- Walk on by position. Who stays is passed; who goes leaves the position to the next. -/
def Walk.on (tick : Tick κ σ π) (cycle : Nat) (walk : Walk κ σ π) (position : Nat) :
    Context κ σ π × Option (List (Attached κ) × List (Attached κ)) :=
  if hposition : position < walk.handlers.length then
    let entry := walk.handlers[position]
    let called := { entry with calls := entry.calls + 1 }
    match (tick entry.handler cycle walk.ctx.view).run walk.ctx with
    | (ctx, none) => (ctx, none)
    | (ctx, some (some handler)) =>
      Walk.on tick cycle
        { walk with handlers := walk.handlers.set position { called with handler }, ctx }
        (position + 1)
    | (ctx, some none) =>
      Walk.on tick cycle
        { handlers := walk.handlers.eraseIdx position, going := walk.going ++ [called], ctx }
        position
  else
    (walk.ctx, some (walk.handlers, walk.going))
termination_by walk.handlers.length - position
decreasing_by
  · simp only [List.length_set]
    omega
  · simp only [List.length_eraseIdx, hposition, if_true]
    omega

/-- The walk calls those that it has not come to yet, one after another. -/
theorem Walk.on_eq (tick : Tick κ σ π) (cycle : Nat) (front rest going : List (Attached κ))
    (ctx : Context κ σ π) :
    Walk.on tick cycle ⟨front ++ rest, going, ctx⟩ front.length =
      ((callAll tick cycle rest ctx).1,
        (callAll tick cycle rest ctx).2.map fun (staying, gone) =>
          (front ++ staying, going ++ gone)) := by
  induction rest generalizing front going ctx with
  | nil =>
    rw [Walk.on]
    simp [callAll]
  | cons entry rest ih =>
    rw [Walk.on]
    have hposition : front.length < (front ++ entry :: rest).length := by simp
    obtain ⟨ctx', value, hrun⟩ : ∃ ctx' value,
        (tick entry.handler cycle ctx.view).run ctx = (ctx', value) := ⟨_, _, rfl⟩
    have hget : (front ++ entry :: rest)[front.length] = entry := by simp
    simp only [hposition, dif_pos, hget, hrun]
    cases value with
    | none => rw [callAll_panics hrun]; rfl
    | some next =>
      rw [callAll_returns hrun]
      cases next with
      | none =>
        have herase : (front ++ entry :: rest).eraseIdx front.length = front ++ rest := by
          simp [List.eraseIdx_append_of_length_le]
        simp only [herase, ih]
        obtain ⟨last, lists⟩ := callAll tick cycle rest ctx'
        cases lists <;> simp
      | some handler =>
        have hset : (front ++ entry :: rest).set front.length
            { entry with calls := entry.calls + 1, handler } =
              (front ++ [{ entry with calls := entry.calls + 1, handler }]) ++ rest := by
          simp
        have hnext := ih (front ++ [{ entry with calls := entry.calls + 1, handler }]) going ctx'
        rw [List.length_append, List.length_singleton] at hnext
        simp only [hset, hnext]
        obtain ⟨last, lists⟩ := callAll tick cycle rest ctx'
        cases lists <;> simp

namespace Trio

/-- The first handler asks for the removal of the third, and the second one goes. -/
def tick : Tick Nat Unit Unit := fun role _ _ =>
  match role with
  | 0 => do
    Program.detach ⟨10, 2⟩
    return some 0
  | 1 => return none
  | n => return some n

def clock : Clock Nat where
  id := 0
  period := Metronome.ten
  config := {}
  handlers := [⟨0, 0, 0⟩, ⟨1, 1, 0⟩, ⟨2, 2, 0⟩]
  scheduled := true

def ctx : Context Nat Unit Unit where
  partition := 0
  routes := ⟨0, []⟩
  timeline := { now := Time.ofNat 10, priority := Priority.clock }
  outbound := []
  requests := { nextHandler := 3 }
  state := ()

end Trio

end Lookahead
