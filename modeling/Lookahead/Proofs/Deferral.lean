import Lookahead.Proofs.Clock

/-!
Deferred changes of clocks.

Handlers are put on clocks and removed in two ways: at once, or by requests that are carried out
later. Both come to the same. As long as the requests number the handlers on from where the set
does, queueing operations and carrying them out leaves the set and the timeline that performing them
directly leaves, and hands out the same handles. The requests then number on from the set again, so
this holds for one batch after another, whatever is dispatched in between
(`ClockSet.deferred_eq_direct`).
-/

namespace Lookahead

variable {κ σ π α : Type}

/-! ## Operations -/

/-- A change to the clocks of a partition. -/
inductive ClockOp (κ : Type) where
  | register (period : Period) (handler : κ)
  | unregister (handle : ClockHandle)

def ClockRequest.handle? : ClockRequest κ → Option ClockHandle
  | .register id period _ => some ⟨period.factor, id⟩
  | .unregister _ => none

namespace ClockRequests

/-- Request an operation. The handle of a new handler is given out at once. -/
def ask (requests : ClockRequests κ) : ClockOp κ → List ClockHandle × ClockRequests κ
  | .register period handler =>
    let (handle, requests) := requests.register period handler
    ([handle], requests)
  | .unregister handle => ([], requests.unregister handle)

/-- Request operations one after another. -/
def askAll (requests : ClockRequests κ) : List (ClockOp κ) → List ClockHandle × ClockRequests κ
  | [] => ([], requests)
  | op :: rest =>
    let (handles, requests) := requests.ask op
    let (others, requests) := requests.askAll rest
    (handles ++ others, requests)

/-- The handles that were given out for the requests that wait. -/
def handles (requests : ClockRequests κ) : List ClockHandle :=
  requests.queued.filterMap ClockRequest.handle?

@[simp] theorem handles_register (requests : ClockRequests κ) (period : Period) (handler : κ) :
    (requests.register period handler).2.handles =
      requests.handles ++ [⟨period.factor, requests.nextHandler⟩] := by
  simp [register, handles, ClockRequest.handle?]

@[simp] theorem handles_unregister (requests : ClockRequests κ) (handle : ClockHandle) :
    (requests.unregister handle).handles = requests.handles := by
  simp [unregister, handles, ClockRequest.handle?]

theorem handles_ask (requests : ClockRequests κ) (op : ClockOp κ) :
    (requests.ask op).2.handles = requests.handles ++ (requests.ask op).1 := by
  cases op with
  | register period handler => exact handles_register ..
  | unregister handle => simp [ask]

theorem handles_askAll (requests : ClockRequests κ) (ops : List (ClockOp κ)) :
    (requests.askAll ops).2.handles = requests.handles ++ (requests.askAll ops).1 := by
  induction ops generalizing requests with
  | nil => simp [askAll]
  | cons op rest ih => simp only [askAll, ih, handles_ask, List.append_assoc]

theorem askAll_append (requests : ClockRequests κ) (front back : List (ClockOp κ)) :
    requests.askAll (front ++ back) =
      ((requests.askAll front).1 ++ ((requests.askAll front).2.askAll back).1,
        ((requests.askAll front).2.askAll back).2) := by
  induction front generalizing requests with
  | nil => rfl
  | cons op rest ih => simp only [List.cons_append, askAll, ih, List.append_assoc]

end ClockRequests

namespace ClockSet

/-- Perform an operation at once. A removal that fails is passed over. -/
def perform (set : ClockSet κ) (timeline : Timeline π) :
    ClockOp κ → List ClockHandle × ClockSet κ × Timeline π
  | .register period handler =>
    let (handle, set, timeline) := set.register period handler timeline
    ([handle], set, timeline)
  | .unregister handle =>
    match set.unregister handle with
    | .ok (_, set) => ([], set, timeline)
    | .error _ => ([], set, timeline)

/-- Perform operations one after another. -/
def performAll (set : ClockSet κ) (timeline : Timeline π) :
    List (ClockOp κ) → List ClockHandle × ClockSet κ × Timeline π
  | [] => ([], set, timeline)
  | op :: rest =>
    let (handles, set, timeline) := set.perform timeline op
    let (others, set, timeline) := set.performAll timeline rest
    (handles ++ others, set, timeline)

theorem nextHandler_of_unregister {set set' : ClockSet κ} {handle : ClockHandle} {last : Bool}
    (h : set.unregister handle = .ok (last, set')) : set'.nextHandler = set.nextHandler := by
  unfold unregister at h
  split at h
  · cases h
  · cases h
    rfl

/-! ## One batch -/

/-- The requests that wait lead from `set` and `timeline` to `set'` and `timeline'`, and number on
from there. -/
structure Leads (set : ClockSet κ) (timeline : Timeline π) (requests : ClockRequests κ)
    (set' : ClockSet κ) (timeline' : Timeline π) : Prop where
  carried : requests.queued.foldl applyOne (set, timeline) = (set', timeline')
  next : requests.nextHandler = set'.nextHandler

theorem Leads.refl (set : ClockSet κ) (timeline : Timeline π) :
    set.Leads timeline set.requests set timeline := ⟨rfl, rfl⟩

variable {set set' : ClockSet κ} {timeline timeline' : Timeline π} {requests : ClockRequests κ}

theorem Leads.ask (h : set.Leads timeline requests set' timeline') (op : ClockOp κ) :
    (requests.ask op).1 = (set'.perform timeline' op).1 ∧
      set.Leads timeline (requests.ask op).2 (set'.perform timeline' op).2.1
        (set'.perform timeline' op).2.2 := by
  cases op with
  | register period handler =>
    refine ⟨by simp [ClockRequests.ask, ClockRequests.register, perform, register, h.next], ?_, ?_⟩
    · simp only [ClockRequests.ask, ClockRequests.register, List.foldl_append, h.carried,
        List.foldl_cons, List.foldl_nil, applyOne, perform, register, h.next]
    · simp only [ClockRequests.ask, ClockRequests.register, perform, register, attach, h.next]
      exact (Nat.max_eq_right (Nat.le_succ _)).symm
  | unregister handle =>
    cases hset : set'.unregister handle with
    | ok result =>
      obtain ⟨last, left⟩ := result
      refine ⟨by simp [ClockRequests.ask, perform, hset], ?_, ?_⟩
      · simp [ClockRequests.ask, ClockRequests.unregister, h.carried, applyOne, perform, hset]
      · simp [ClockRequests.ask, ClockRequests.unregister, perform, hset, h.next,
          nextHandler_of_unregister hset]
    | error e =>
      refine ⟨by simp [ClockRequests.ask, perform, hset], ?_, ?_⟩
      · simp [ClockRequests.ask, ClockRequests.unregister, h.carried, applyOne, perform, hset]
      · simp [ClockRequests.ask, ClockRequests.unregister, perform, hset, h.next]

theorem Leads.askAll (h : set.Leads timeline requests set' timeline') (ops : List (ClockOp κ)) :
    (requests.askAll ops).1 = (set'.performAll timeline' ops).1 ∧
      set.Leads timeline (requests.askAll ops).2 (set'.performAll timeline' ops).2.1
        (set'.performAll timeline' ops).2.2 := by
  induction ops generalizing requests set' timeline' with
  | nil => exact ⟨rfl, h⟩
  | cons op rest ih =>
    obtain ⟨hhandles, hop⟩ := h.ask op
    obtain ⟨hothers, hrest⟩ := ih hop
    simp only [ClockRequests.askAll, performAll, hhandles, hothers, true_and]
    exact hrest

/-- Carrying the requests out leads there, and leaves none. -/
theorem Leads.apply (h : set.Leads timeline requests set' timeline') :
    set.apply requests timeline = (set', set'.requests, timeline') := by
  simp only [ClockSet.apply, h.carried, ClockSet.requests, h.next]

/-- A batch of requests comes to the same as performing it directly. -/
theorem apply_askAll (set : ClockSet κ) (timeline : Timeline π) (ops : List (ClockOp κ)) :
    (set.requests.askAll ops).1 = (set.performAll timeline ops).1 ∧
      set.apply (set.requests.askAll ops).2 timeline =
        ((set.performAll timeline ops).2.1, (set.performAll timeline ops).2.1.requests,
          (set.performAll timeline ops).2.2) := by
  obtain ⟨hhandles, hleads⟩ := (Leads.refl set timeline).askAll ops
  exact ⟨hhandles, hleads.apply⟩

end ClockSet

/-! ## What handlers ask for -/

def Program.clockOps : Program κ σ π α → Context κ σ π → List (ClockOp κ)
  | .done _, _ => []
  | .panic, _ => []
  | .recall next, ctx => (next ctx.state).clockOps ctx
  | .remember state next, ctx => next.clockOps { ctx with state }
  | .latency link next, ctx => (next ((ctx.routes.get link).map (·.latency))).clockOps ctx
  | .send link delay payload next, ctx =>
    match ctx.send link delay payload with
    | .ok ctx => (next (.ok ())).clockOps ctx
    | .error e => (next (.error e)).clockOps ctx
  | .register period handler next, ctx =>
    let (handle, requests) := ctx.requests.register period handler
    .register period handler :: (next handle).clockOps { ctx with requests }
  | .unregister handle next, ctx =>
    .unregister handle :: next.clockOps { ctx with requests := ctx.requests.unregister handle }

theorem Context.requests_of_send {ctx ctx' : Context κ σ π} {link : LinkId} {delay : Nat}
    {payload : π} (h : ctx.send link delay payload = .ok ctx') : ctx'.requests = ctx.requests := by
  rw [send_eq] at h
  cases hsend : ctx.desk.send link delay payload with
  | error e => simp [hsend, Except.map] at h
  | ok s =>
    simp only [hsend, Except.map, Except.ok.injEq] at h
    rw [← h]
    rfl

/-- A program leaves its operations behind the requests that waited already. -/
theorem Program.requests_run (program : Program κ σ π α) (ctx : Context κ σ π) :
    (program.run ctx).1.requests = (ctx.requests.askAll (program.clockOps ctx)).2 := by
  induction program generalizing ctx with
  | done value => rfl
  | panic => rfl
  | «recall» next ih => exact ih _ ctx
  | remember state next ih => exact ih _
  | latency link next ih => exact ih _ ctx
  | send link delay payload next ih =>
    simp only [run, clockOps]
    cases hsend : ctx.send link delay payload with
    | error e => exact ih _ ctx
    | ok ctx' =>
      simp only
      rw [ih, Context.requests_of_send hsend]
  | register period handler next ih => exact ih _ _
  | unregister handle next ih => exact ih _

/-- The operations that handlers ask for that are called one after another. -/
def callOps (tick : Tick κ σ π) (cycle : Nat) :
    List (Attached κ) → Context κ σ π → List (ClockOp κ)
  | [], _ => []
  | entry :: rest, ctx =>
    let program := tick entry.handler cycle ctx.view
    program.clockOps ctx ++
      match program.run ctx with
      | (_, none) => []
      | (ctx, some _) => callOps tick cycle rest ctx

theorem requests_callAll (tick : Tick κ σ π) (cycle : Nat) (handlers : List (Attached κ))
    (ctx : Context κ σ π) :
    (callAll tick cycle handlers ctx).1.requests =
      (ctx.requests.askAll (callOps tick cycle handlers ctx)).2 := by
  induction handlers generalizing ctx with
  | nil => rfl
  | cons entry rest ih =>
    have hfirst := (tick entry.handler cycle ctx.view).requests_run ctx
    obtain ⟨ctx', value, hrun⟩ : ∃ ctx' value,
        (tick entry.handler cycle ctx.view).run ctx = (ctx', value) := ⟨_, _, rfl⟩
    rw [hrun] at hfirst
    simp only [callOps, hrun, ClockRequests.askAll_append, ← hfirst]
    cases value with
    | none => rw [callAll_panics hrun]; rfl
    | some next => rw [callAll_returns hrun, ih]

def ClockSet.fireOps (tick : Tick κ σ π) (set : ClockSet κ) (id : ClockId) (ctx : Context κ σ π) :
    List (ClockOp κ) :=
  match set.clocks[id]? with
  | none => []
  | some clock => callOps tick clock.nextCycle clock.handlers ctx

theorem Clock.requests_fire (tick : Tick κ σ π) (clock : Clock κ) (ctx : Context κ σ π) :
    (clock.fire tick ctx).1.requests =
      (ctx.requests.askAll (callOps tick clock.nextCycle clock.handlers ctx)).2 := by
  rw [← requests_callAll]
  unfold fire
  split
  · rename_i hempty
    rw [List.isEmpty_iff.mp hempty]
    rfl
  · generalize callAll tick clock.nextCycle clock.handlers ctx = result
    obtain ⟨last, lists⟩ := result
    cases lists with
    | none => rfl
    | some lists =>
      simp only
      split <;> rfl

namespace ClockSet

theorem requests_fire (tick : Tick κ σ π) (set : ClockSet κ) (id : ClockId)
    (ctx : Context κ σ π) :
    (set.fire tick id ctx).1.requests = (ctx.requests.askAll (set.fireOps tick id ctx)).2 := by
  unfold fire fireOps
  cases set.clocks[id]? with
  | none => rfl
  | some clock =>
    simp only
    rw [← clock.requests_fire tick ctx]
    generalize clock.fire tick ctx = result
    obtain ⟨last, clock'⟩ := result
    cases clock' <;> rfl

theorem nextHandler_of_fire {tick : Tick κ σ π} {set set' : ClockSet κ} {id : ClockId}
    {ctx ctx' : Context κ σ π} (h : set.fire tick id ctx = (ctx', some set')) :
    set'.nextHandler = set.nextHandler := by
  unfold fire at h
  split at h
  · cases h
    rfl
  · split at h
    · cases h
    · cases h
      rfl

end ClockSet

/-! ## One batch after another -/

/-- What happens to a partition's clocks. -/
inductive Occasion (κ σ π α : Type) where
  /-- Operations are asked for. -/
  | ask (ops : List (ClockOp κ))
  /-- Anything happens that asks for no operations. -/
  | elapse (change : Context κ σ π → Context κ σ π)
  /-- An event is handled. -/
  | handle (program : Program κ σ π α)
  /-- A clock fires. -/
  | fire (tick : Tick κ σ π) (id : ClockId)

namespace ClockSet

/-- Carry out the requests that wait, and give the handles for them. -/
def settle (set : ClockSet κ) (ctx : Context κ σ π) :
    List ClockHandle × ClockSet κ × Context κ σ π :=
  let (set', requests, timeline) := set.apply ctx.requests ctx.timeline
  (ctx.requests.handles, set', { ctx with requests, timeline })

def enact (set : ClockSet κ) (ctx : Context κ σ π) (ops : List (ClockOp κ)) :
    List ClockHandle × ClockSet κ × Context κ σ π :=
  let (handles, set', timeline) := set.performAll ctx.timeline ops
  (handles, set', { ctx with requests := set'.requests, timeline })

/-- Operations wait until the handlers are done. There is nothing after it if one of them panics. -/
def deferred (set : ClockSet κ) (ctx : Context κ σ π) :
    Occasion κ σ π α → Option (List ClockHandle × ClockSet κ × Context κ σ π)
  | .ask ops => some (set.settle { ctx with requests := (ctx.requests.askAll ops).2 })
  | .elapse change => some ([], set, { change ctx with requests := ctx.requests })
  | .handle program =>
    match program.run ctx with
    | (_, none) => none
    | (ctx, some _) => some (set.settle ctx)
  | .fire tick id =>
    match set.fire tick id ctx with
    | (_, none) => none
    | (ctx, some set) => some (set.settle ctx)

def direct (set : ClockSet κ) (ctx : Context κ σ π) :
    Occasion κ σ π α → Option (List ClockHandle × ClockSet κ × Context κ σ π)
  | .ask ops => some (set.enact ctx ops)
  | .elapse change => some ([], set, { change ctx with requests := ctx.requests })
  | .handle program =>
    match program.run ctx with
    | (_, none) => none
    | (after, some _) => some (set.enact after (program.clockOps ctx))
  | .fire tick id =>
    match set.fire tick id ctx with
    | (_, none) => none
    | (after, some set') => some (set'.enact after (set.fireOps tick id ctx))

/-- One occasion after another, with all handles given out. -/
def follow (step : ClockSet κ → Context κ σ π → Occasion κ σ π α →
      Option (List ClockHandle × ClockSet κ × Context κ σ π))
    (set : ClockSet κ) (ctx : Context κ σ π) :
    List (Occasion κ σ π α) → Option (List ClockHandle × ClockSet κ × Context κ σ π)
  | [] => some ([], set, ctx)
  | first :: rest => do
    let (handles, set, ctx) ← step set ctx first
    let (others, set, ctx) ← follow step set ctx rest
    return (handles ++ others, set, ctx)

/-- Requests that number on from the set come to the same as the operations that they stand for. -/
theorem settle_eq_enact {set : ClockSet κ} {ctx : Context κ σ π} {ops : List (ClockOp κ)}
    (h : ctx.requests = (set.requests.askAll ops).2) : set.settle ctx = set.enact ctx ops := by
  obtain ⟨hhandles, happly⟩ := set.apply_askAll ctx.timeline ops
  have hgiven : ctx.requests.handles = (set.performAll ctx.timeline ops).1 := by
    rw [h, ClockRequests.handles_askAll, ← hhandles]
    rfl
  rw [← h] at happly
  simp only [settle, enact, happly, hgiven]

/-- An occasion that begins with no requests waiting goes the same either way, and ends so. -/
theorem deferred_eq_direct_at {set : ClockSet κ} {ctx : Context κ σ π}
    (h : ctx.requests = set.requests) (occasion : Occasion κ σ π α) :
    set.deferred ctx occasion = set.direct ctx occasion ∧
      ∀ {handles set' ctx'}, set.direct ctx occasion = some (handles, set', ctx') →
        ctx'.requests = set'.requests := by
  cases occasion with
  | ask ops =>
    refine ⟨congrArg some (settle_eq_enact (by rw [h])), ?_⟩
    intro handles set' ctx' hdirect
    cases hdirect
    rfl
  | elapse change =>
    refine ⟨rfl, ?_⟩
    intro handles set' ctx' hdirect
    cases hdirect
    exact h
  | handle program =>
    obtain ⟨after, value, hrun⟩ : ∃ after value, program.run ctx = (after, value) := ⟨_, _, rfl⟩
    simp only [deferred, direct, hrun]
    cases value with
    | none => exact ⟨rfl, nofun⟩
    | some value =>
      have hafter : after.requests = (set.requests.askAll (program.clockOps ctx)).2 := by
        rw [← h, ← program.requests_run ctx, hrun]
      refine ⟨congrArg some (settle_eq_enact hafter), ?_⟩
      intro handles set' ctx' hdirect
      cases hdirect
      rfl
  | fire tick id =>
    obtain ⟨after, fired, hfire⟩ : ∃ after fired, set.fire tick id ctx = (after, fired) :=
      ⟨_, _, rfl⟩
    simp only [deferred, direct, hfire]
    cases fired with
    | none => exact ⟨rfl, nofun⟩
    | some fired =>
      -- firing gives out no numbers
      have hfired : ctx.requests = fired.requests := by
        rw [h, ClockSet.requests, ClockSet.requests, nextHandler_of_fire hfire]
      have hafter : after.requests = (fired.requests.askAll (set.fireOps tick id ctx)).2 := by
        rw [← hfired, ← requests_fire, hfire]
      refine ⟨congrArg some (settle_eq_enact hafter), ?_⟩
      intro handles set' ctx' hdirect
      cases hdirect
      rfl

theorem follow_deferred_eq_direct {set : ClockSet κ} {ctx : Context κ σ π}
    (h : ctx.requests = set.requests) (history : List (Occasion κ σ π α)) :
    follow deferred set ctx history = follow direct set ctx history ∧
      ∀ {handles set' ctx'}, follow direct set ctx history = some (handles, set', ctx') →
        ctx'.requests = set'.requests := by
  induction history generalizing set ctx with
  | nil =>
    refine ⟨rfl, ?_⟩
    intro handles set' ctx' hfollow
    cases hfollow
    exact h
  | cons occasion rest ih =>
    obtain ⟨hfirst, hkept⟩ := deferred_eq_direct_at h occasion
    simp only [follow, hfirst]
    cases hdirect : set.direct ctx occasion with
    | none => exact ⟨rfl, nofun⟩
    | some result =>
      obtain ⟨handles, next, ctx'⟩ := result
      obtain ⟨hrest, hlast⟩ := ih (hkept hdirect)
      simp only [Option.bind_eq_bind, Option.bind_some, hrest, true_and]
      intro all set' last hfollow
      obtain ⟨⟨others, final, ctx''⟩, hothers, heq⟩ := Option.bind_eq_some_iff.mp hfollow
      cases heq
      exact hlast hothers

/-- Deferred and direct operations on clocks agree: for one batch, for any history of batches with
anything dispatched in between, and the requests that are left number on from the set. -/
theorem deferred_eq_direct (set : ClockSet κ) (ctx : Context κ σ π) :
    (∀ ops, (set.requests.askAll ops).1 = (set.performAll ctx.timeline ops).1 ∧
      set.apply (set.requests.askAll ops).2 ctx.timeline =
        ((set.performAll ctx.timeline ops).2.1, (set.performAll ctx.timeline ops).2.1.requests,
          (set.performAll ctx.timeline ops).2.2)) ∧
      ∀ history : List (Occasion κ σ π α),
        follow deferred set { ctx with requests := set.requests } history =
            follow direct set { ctx with requests := set.requests } history ∧
          ∀ handles set' ctx',
            follow deferred set { ctx with requests := set.requests } history =
              some (handles, set', ctx') → ctx'.requests = set'.requests := by
  refine ⟨set.apply_askAll ctx.timeline, fun history => ?_⟩
  have hbegin : ({ ctx with requests := set.requests } : Context κ σ π).requests = set.requests :=
    rfl
  obtain ⟨heq, hkept⟩ := follow_deferred_eq_direct hbegin history
  exact ⟨heq, fun handles set' ctx' h => hkept (heq ▸ h)⟩

end ClockSet

end Lookahead
