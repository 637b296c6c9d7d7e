import Lookahead.Proofs.Errors
import Lookahead.Proofs.Incidents

/-!
The handlers of clocks, from the building of a simulation to the end of a run.

Handles are numbered by the set of clocks while a partition is built, and by its requests once it
runs. No number is ever given out twice. A removal takes away the handler under its handle, if it is
still there, and no other, and a handler that has gone is not called any more
(`Draft.handlers_keep_identity`).
-/

namespace Lookahead

variable {κ σ π α : Type} {M : Model}

/-! ## Requests -/

theorem Clock.on_register (clock : Clock κ) (id : HandlerId) (handler : κ) (timeline : Timeline π) :
    (clock.register id handler timeline).1.on = clock.on ++ [⟨clock.period.factor, id⟩] := by
  unfold Clock.register
  dsimp only
  split <;> simp [Clock.on, Clock.schedule]

namespace ClockSet

theorem flatMap_registerIn {f : Clock κ → List α} {new : α} (config : ClockConfig) (id : HandlerId)
    (period : Period) (handler : κ) (timeline : Timeline π)
    (hjoins : ∀ clock : Clock κ, clock.period = period →
      (f (clock.register id handler timeline).1).Perm (new :: f clock))
    (hblank : ∀ position, f { id := position, period, config } = []) (position : Nat)
    (clocks : List (Clock κ)) :
    ((registerIn config id period handler timeline position clocks).1.flatMap f).Perm
      (new :: clocks.flatMap f) := by
  induction clocks generalizing position with
  | nil =>
    have hjoined := hjoins { id := position, period, config } rfl
    rw [hblank] at hjoined
    simpa [registerIn] using hjoined
  | cons clock rest ih =>
    simp only [registerIn]
    split
    · rename_i hperiod
      simp only [List.flatMap_cons]
      exact (hjoins clock hperiod).append_right _
    · simp only [List.flatMap_cons]
      exact ((ih (position + 1)).append_left (f clock)).trans List.perm_middle

theorem on_attach (set : ClockSet κ) (id : HandlerId) (period : Period) (handler : κ)
    (timeline : Timeline π) :
    (set.attach id period handler timeline).1.on.Perm (⟨period.factor, id⟩ :: set.on) := by
  refine flatMap_registerIn set.config id period handler timeline ?_ (fun _ => rfl) 0 set.clocks
  rintro clock rfl
  rw [Clock.on_register]
  exact List.perm_append_comm

end ClockSet

def ClockRequest.wish : ClockRequest κ → Wish
  | .register id period _ => .join ⟨period.factor, id⟩
  | .unregister handle => .removal handle

def ClockRequests.wishes (requests : ClockRequests κ) : List Wish :=
  requests.queued.map ClockRequest.wish

def Incident.ofRequest (before after : ClockSet κ) : ClockRequest κ → Incident κ
  | .register id period _ => .joined ⟨period.factor, id⟩
  | .unregister handle => .removed handle before after

def requestIncidents : ClockSet κ × Timeline π → List (ClockRequest κ) → List (Incident κ)
  | _, [] => []
  | state, request :: rest =>
    let next := ClockSet.applyOne state request
    .ofRequest state.1 next.1 request :: requestIncidents next rest

namespace Ledger

variable {history : List (Incident κ)} {next : HandlerId} {on : List ClockHandle}

/-- Carrying out requests fulfils all that is wished for. -/
theorem applies {state : ClockSet κ × Timeline π} {queued : List (ClockRequest κ)}
    (h : Ledger history next (queued.map ClockRequest.wish) state.1.on) :
    Ledger (history ++ requestIncidents state queued) next []
      (queued.foldl ClockSet.applyOne state).1.on := by
  induction queued generalizing history state with
  | nil => simpa [requestIncidents] using h
  | cons request rest ih =>
    obtain ⟨set, timeline⟩ := state
    rw [requestIncidents, List.append_cons]
    cases request with
    | register id period handler => exact ih (h.joins (set.on_attach id period handler timeline))
    | unregister handle =>
      exact ih (h.removes (ClockSet.removes_applyOne h.distinct timeline handle))

theorem apply {set : ClockSet κ} {requests : ClockRequests κ} (timeline : Timeline π)
    (h : Ledger history requests.nextHandler requests.wishes set.on) :
    Ledger (history ++ requestIncidents (set, timeline) requests.queued)
      (set.apply requests timeline).2.1.nextHandler [] (set.apply requests timeline).1.on :=
  applies h

end Ledger

/-! ## Handlers at work -/

def Program.incidents : Program κ σ π α → Context κ σ π → List (Incident κ)
  | .done _, _ => []
  | .panic, _ => []
  | .recall next, ctx => (next ctx.state).incidents ctx
  | .remember state next, ctx => next.incidents { ctx with state }
  | .latency link next, ctx => (next ((ctx.routes.get link).map (·.latency))).incidents ctx
  | .send link delay payload next, ctx =>
    match ctx.send link delay payload with
    | .ok ctx => (next (.ok ())).incidents ctx
    | .error e => (next (.error e)).incidents ctx
  | .register period handler next, ctx =>
    let (handle, requests) := ctx.requests.register period handler
    .granted handle :: (next handle).incidents { ctx with requests }
  | .unregister handle next, ctx =>
    .dismissed handle :: next.incidents { ctx with requests := ctx.requests.unregister handle }

/-- Handles are given out in the order of their numbers. -/
theorem Ledger.runs {history : List (Incident κ)} {on : List ClockHandle} {ctx : Context κ σ π}
    (h : Ledger history ctx.requests.nextHandler ctx.requests.wishes on)
    (program : Program κ σ π α) :
    Ledger (history ++ program.incidents ctx) (program.run ctx).1.requests.nextHandler
      (program.run ctx).1.requests.wishes on := by
  induction program generalizing history ctx with
  | done value => simpa [Program.incidents, Program.run] using h
  | panic => simpa [Program.incidents, Program.run] using h
  | «recall» next ih => exact ih _ h
  | remember state next ih => exact ih h
  | latency link next ih => exact ih _ h
  | send link delay payload next ih =>
    simp only [Program.incidents, Program.run]
    cases hsend : ctx.send link delay payload with
    | error e => exact ih _ h
    | ok ctx' =>
      have hsame := Context.requests_of_send hsend
      exact ih _ (hsame ▸ h)
  | register period handler next ih =>
    rw [Program.incidents, List.append_cons]
    refine ih _ ?_
    simpa [ClockRequests.wishes, ClockRequests.register, ClockRequest.wish]
      using h.grants period.factor
  | unregister handle next ih =>
    rw [Program.incidents, List.append_cons]
    refine ih ?_
    simpa [ClockRequests.wishes, ClockRequests.unregister, ClockRequest.wish]
      using h.dismisses handle

def Service.incidents (tick : Tick κ σ π) (s : Service κ σ π) : List (Incident κ) :=
  .called s.entry.id ::
    ((tick s.entry.handler s.cycle s.before.view).incidents s.before ++
      if s.going?.isSome then [.left s.entry.id] else [])

theorem Ledger.serves {history : List (Incident κ)} {factor : Nat} {handlers : List (Attached κ)}
    {ctx : Context κ σ π} {others : List ClockHandle}
    (h : Ledger history ctx.requests.nextHandler ctx.requests.wishes
      (others ++ handlers.map fun entry => ⟨factor, entry.id⟩))
    (tick : Tick κ σ π) (cycle : Nat) :
    ∃ on, Ledger
        (history ++ (services tick cycle handlers ctx).flatMap (Service.incidents tick))
        (callAll tick cycle handlers ctx).1.requests.nextHandler
        (callAll tick cycle handlers ctx).1.requests.wishes on ∧
      ∀ staying going, (callAll tick cycle handlers ctx).2 = some (staying, going) →
        on = others ++ staying.map fun entry => ⟨factor, entry.id⟩ := by
  induction handlers generalizing history ctx others with
  | nil =>
    refine ⟨others, by simpa [services, callAll] using h, fun staying going hcall => ?_⟩
    cases hcall
    simp
  | cons entry rest ih =>
    let handle : ClockHandle := ⟨factor, entry.id⟩
    have hhandle : handle ∈ others ++ (entry :: rest).map fun entry => ⟨factor, entry.id⟩ := by
      simp [handle]
    have hcalled := (h.calls hhandle).runs (tick entry.handler cycle ctx.view)
    obtain ⟨ctx', value, hrun⟩ : ∃ ctx' value,
        (tick entry.handler cycle ctx.view).run ctx = (ctx', value) := ⟨_, _, rfl⟩
    rw [hrun] at hcalled
    simp only [services, hrun, List.flatMap_cons]
    cases value with
    | none =>
      rw [callAll_panics hrun]
      refine ⟨others ++ (entry :: rest).map fun entry => ⟨factor, entry.id⟩, ?_, ?_⟩
      · simpa [Service.incidents, Service.going?, handle] using hcalled
      · intro staying going hcall
        cases hcall
    | some next =>
      rw [callAll_returns hrun]
      cases next with
      | none =>
        obtain ⟨on, hledger, hon⟩ := ih (hcalled.leaves List.perm_middle)
        refine ⟨on, by simpa [Service.incidents, Service.going?, handle] using hledger, ?_⟩
        intro staying going hcall
        obtain ⟨⟨staying', going'⟩, hrest, heq⟩ := Option.map_eq_some_iff.mp hcall
        cases heq
        exact hon staying going' hrest
      | some handler =>
        rw [List.map_cons, List.append_cons others] at hcalled
        obtain ⟨on, hledger, hon⟩ := ih hcalled
        refine ⟨on, by simpa [Service.incidents, Service.going?, handle] using hledger, ?_⟩
        intro staying going hcall
        obtain ⟨⟨staying', going'⟩, hrest, heq⟩ := Option.map_eq_some_iff.mp hcall
        cases heq
        rw [hon staying' going hrest, List.map_cons, ← List.append_cons]

theorem Clock.staying_of_fire {tick : Tick κ σ π} {clock clock' : Clock κ}
    {ctx ctx' : Context κ σ π} (h : clock.fire tick ctx = (ctx', some clock')) :
    clock'.period = clock.period ∧ clock'.config = clock.config ∧
      ∃ going, clock'.retired = clock.retired ++ going ∧
        (callAll tick clock.nextCycle clock.handlers ctx).2 = some (clock'.handlers, going) := by
  unfold fire at h
  split at h
  · rename_i hempty
    cases h
    have hnone := List.isEmpty_iff.mp hempty
    exact ⟨rfl, rfl, [], by simp, by simp [hnone, callAll]⟩
  · split at h
    · cases h
    · rename_i last staying going hcall
      rw [hcall]
      dsimp only at h
      split at h <;> cases h <;> exact ⟨rfl, rfl, going, rfl, rfl⟩

theorem exists_flatMap_set {β : Type} {items : List α} {i : Nat} {a : α} (h : items[i]? = some a)
    (f : α → List β) :
    ∃ others, (items.flatMap f).Perm (others ++ f a) ∧
      ∀ b, ((items.set i b).flatMap f).Perm (others ++ f b) := by
  obtain ⟨hlt, hitem⟩ := List.getElem?_eq_some_iff.mp h
  have hsplit : items = items.take i ++ a :: items.drop (i + 1) := by
    rw [← hitem, ← List.drop_eq_getElem_cons hlt, List.take_append_drop]
  have hmove : ∀ (front back : List α) (b : α),
      ((front ++ b :: back).flatMap f).Perm ((front.flatMap f ++ back.flatMap f) ++ f b) := by
    intro front back b
    rw [List.flatMap_append, List.flatMap_cons, List.append_assoc]
    exact List.perm_append_comm.append_left _
  refine ⟨(items.take i).flatMap f ++ (items.drop (i + 1)).flatMap f, ?_, fun b => ?_⟩
  · exact (List.Perm.of_eq (congrArg (·.flatMap f) hsplit)).trans (hmove ..)
  · rw [List.set_eq_take_append_cons_drop, if_pos hlt]
    exact hmove ..

namespace ClockSet

/-- What happens when a clock fires, before requests are carried out. -/
def fireIncidents (tick : Tick κ σ π) (set : ClockSet κ) (id : ClockId) (ctx : Context κ σ π) :
    List (Incident κ) :=
  match set.clocks[id]? with
  | none => []
  | some clock =>
    (services tick clock.nextCycle clock.handlers ctx).flatMap (Service.incidents tick)

end ClockSet

theorem Ledger.fires {history : List (Incident κ)} {set : ClockSet κ} {ctx : Context κ σ π}
    (h : Ledger history ctx.requests.nextHandler ctx.requests.wishes set.on) (tick : Tick κ σ π)
    (id : ClockId) :
    ∃ on, Ledger (history ++ set.fireIncidents tick id ctx)
        (set.fire tick id ctx).1.requests.nextHandler (set.fire tick id ctx).1.requests.wishes on ∧
      ∀ set', (set.fire tick id ctx).2 = some set' → on.Perm set'.on := by
  unfold ClockSet.fire ClockSet.fireIncidents
  cases hclock : set.clocks[id]? with
  | none =>
    refine ⟨set.on, by simpa using h, fun set' hset => ?_⟩
    cases hset
    exact List.Perm.refl _
  | some clock =>
    obtain ⟨others, hon, hreplaced⟩ := exists_flatMap_set hclock Clock.on
    obtain ⟨on, hledger, hstaying⟩ := (h.perm hon).serves tick clock.nextCycle
    obtain ⟨ctx', fired, hfire⟩ : ∃ ctx' fired, clock.fire tick ctx = (ctx', fired) := ⟨_, _, rfl⟩
    have hrequests : (callAll tick clock.nextCycle clock.handlers ctx).1.requests =
        ctx'.requests := by
      rw [requests_callAll, ← clock.requests_fire tick ctx, hfire]
    rw [hrequests] at hledger
    simp only [hfire]
    cases fired with
    | none => exact ⟨on, hledger, nofun⟩
    | some clock' =>
      refine ⟨on, hledger, fun set' hset => ?_⟩
      cases hset
      obtain ⟨hperiod, _, going, _, hcall⟩ := Clock.staying_of_fire hfire
      rw [hstaying _ _ hcall, ← hperiod]
      exact (hreplaced clock').symm

/-! ## Partitions -/

namespace Partition

/-- What happens to handlers when a partition acts. -/
def incidents (p : Partition M) : Action M.Payload → List (Incident M.Ticker)
  | .deliver event =>
    match p.receivers[event.link]? with
    | some (some receiver) =>
      let program := M.receive receiver event p.context.view
      program.incidents p.context ++
        match program.run p.context with
        | (ctx, some (.ok _)) => requestIncidents (p.clocks, ctx.timeline) ctx.requests.queued
        | _ => []
    | _ => []
  | .clock id =>
    p.clocks.fireIncidents M.tick id p.context ++
      match p.clocks.fire M.tick id p.context with
      | (ctx, some clocks) => requestIncidents (clocks, ctx.timeline) ctx.requests.queued
      | (_, none) => []
  | _ => []

/-- No requests wait, and a ledger goes along with the partition. -/
structure Books (p : Partition M) (history : List (Incident M.Ticker)) : Prop where
  settled : p.requests.queued = []
  ledger : Ledger history p.requests.nextHandler [] p.clocks.on

variable {p : Partition M} {history : List (Incident M.Ticker)}

theorem Books.waits (h : p.Books history) :
    Ledger history p.context.requests.nextHandler p.context.requests.wishes p.clocks.on := by
  have hnone : p.context.requests.wishes = [] := by
    show p.requests.queued.map _ = []
    rw [h.settled]
    rfl
  rw [hnone]
  exact h.ledger

/-- Once a handler is done its requests are carried out. -/
theorem books_applyRequests {q : Partition M}
    (h : Ledger history q.requests.nextHandler q.requests.wishes q.clocks.on) :
    q.applyRequests.Books
      (history ++ requestIncidents (q.clocks, q.timeline) q.requests.queued) :=
  ⟨rfl, h.apply q.timeline⟩

/-- Firing a clock keeps the books, unless a handler panics. -/
theorem Books.fire (h : p.Books history) (id : ClockId) :
    Orderly (history ++ p.incidents (.clock id)) ∧
      ((∀ e q, p.fire id ≠ .fail e q) →
        (p.fire id).partition.Books (history ++ p.incidents (.clock id))) := by
  obtain ⟨on, hledger, hperm⟩ := h.waits.fires M.tick id
  obtain ⟨ctx, fired, hfire⟩ : ∃ ctx fired, p.clocks.fire M.tick id p.context = (ctx, fired) :=
    ⟨_, _, rfl⟩
  simp only [Partition.fire, incidents, hfire] at hledger hperm ⊢
  cases fired with
  | none =>
    rw [List.append_nil]
    exact ⟨⟨_, _, _, hledger⟩, fun hgoes => absurd rfl (hgoes _ _)⟩
  | some clocks =>
    have hbooks := books_applyRequests (q := { p.withContext ctx with clocks })
      (hledger.perm (hperm clocks rfl))
    rw [List.append_assoc] at hbooks
    refine ⟨⟨_, _, _, hbooks.ledger⟩, fun hgoes => ?_⟩
    cases happlied : { p.withContext ctx with clocks }.applyRequests? with
    | none =>
      simp only [happlied] at hgoes
      exact absurd rfl (hgoes _ _)
    | some q =>
      simp only [happlied]
      obtain ⟨rfl, _⟩ := applyRequests?_eq_some happlied
      exact ⟨hbooks.settled, hbooks.ledger⟩

/-- So does delivering an event, unless there is no handler for it or the handler fails. -/
theorem Books.deliver (h : p.Books history) (event : Event M.Payload) :
    Orderly (history ++ p.incidents (.deliver event)) ∧
      ((∀ e q, p.deliver event ≠ .fail e q) →
        (p.deliver event).partition.Books (history ++ p.incidents (.deliver event))) := by
  rcases hhandler : p.receivers[event.link]? with _ | _ | receiver
  · simp only [Partition.deliver, incidents, hhandler, List.append_nil]
    exact ⟨⟨_, _, _, h.ledger⟩, fun hgoes => absurd rfl (hgoes _ _)⟩
  · simp only [Partition.deliver, incidents, hhandler, List.append_nil]
    exact ⟨⟨_, _, _, h.ledger⟩, fun hgoes => absurd rfl (hgoes _ _)⟩
  · have hledger := h.waits.runs (M.receive receiver event p.context.view)
    obtain ⟨ctx, value, hrun⟩ : ∃ ctx value,
        (M.receive receiver event p.context.view).run p.context = (ctx, value) := ⟨_, _, rfl⟩
    simp only [Partition.deliver, incidents, hhandler, hrun] at hledger ⊢
    rcases value with _ | e | receiver'
    · rw [List.append_nil]
      exact ⟨⟨_, _, _, hledger⟩, fun hgoes => absurd rfl (hgoes _ _)⟩
    · rw [List.append_nil]
      exact ⟨⟨_, _, _, hledger⟩, fun hgoes => absurd rfl (hgoes _ _)⟩
    · have hbooks := books_applyRequests (q := p.withContext ctx) hledger
      rw [List.append_assoc] at hbooks
      refine ⟨⟨_, _, _, hbooks.ledger⟩, fun hgoes => ?_⟩
      cases happlied : (p.withContext ctx).applyRequests? with
      | none =>
        simp only [happlied] at hgoes
        exact absurd rfl (hgoes _ _)
      | some q =>
        simp only [happlied]
        obtain ⟨rfl, _⟩ := applyRequests?_eq_some happlied
        exact ⟨hbooks.settled, hbooks.ledger⟩

theorem Books.act (h : p.Books history) (action : Action M.Payload) :
    Orderly (history ++ p.incidents action) ∧
      ((∀ e q, p.act action ≠ .fail e q) →
        (p.act action).partition.Books (history ++ p.incidents action)) := by
  cases action with
  | deliver event => exact h.deliver event
  | clock id => exact h.fire id
  | sync =>
    simp only [incidents, List.append_nil]
    exact ⟨⟨_, _, _, h.ledger⟩, fun _ => h⟩
  | stop =>
    simp only [incidents, List.append_nil]
    exact ⟨⟨_, _, _, h.ledger⟩, fun _ => h⟩

/-- Nothing changes between dispatches. -/
theorem Books.idles {q : Partition M} (h : p.Books history) (hidles : p.Idles q) :
    q.Books history := by
  refine ⟨hidles.requests ▸ h.settled, ?_⟩
  rw [hidles.requests, hidles.clocks]
  exact h.ledger

end Partition

/-! ## Runs -/

def Dispatch.incidents (d : Dispatch M) : List (Incident M.Ticker) :=
  d.partition.incidents d.activity.payload

namespace Thread

variable {shared shared' : Shared M.Payload} {t t' : Thread M} {p : Partition M} {d : Dispatch M}
  {history : List (Incident M.Ticker)}

/-- All has been orderly, and a ledger goes along unless the thread has failed. -/
structure Books (t : Thread M) (history : List (Incident M.Ticker)) : Prop where
  orderly : Orderly history
  partition : t.error? = none → t.partition.Books history

theorem error?_of_step? (h : t.step? shared = some (shared', t')) (hgoes : t'.error? = none) :
    t.error? = none := by
  cases t with
  | running work p => rfl
  | syncing work p round => rfl
  | aborting gate e p =>
    cases gate <;> cases h <;> cases hgoes
  | ended result p => cases h

theorem act_of_workOn (h : p.next? = some d) (hgoes : (workOn .timed p).error? = none)
    (e : RunError) (q : Partition M) : d.partition.act d.activity.payload ≠ .fail e q := by
  intro hfail
  simp only [workOn, dispatch_eq h, hfail] at hgoes
  cases hgoes

theorem Books.idle (h : t.Books history) (hnone : t.dispatch? = none)
    (hstep : t.step? shared = some (shared', t')) : t'.Books history :=
  ⟨h.orderly, fun hgoes => (h.partition (error?_of_step? hstep hgoes)).idles
    (idles_step? hnone hstep)⟩

theorem Books.dispatch (h : (Thread.running .timed p).Books history) (hnext : p.next? = some d) :
    (workOn .timed p).Books (history ++ d.incidents) := by
  have hbooks := (h.partition rfl).idles (Partition.Idles.next? hnext)
  obtain ⟨horderly, hacts⟩ := hbooks.act d.activity.payload
  exact ⟨horderly, fun hgoes =>
    (hacts (act_of_workOn hnext hgoes)).idles (workOn_of_next? hnext).1⟩

end Thread

/-- Wherever a run gets to, a ledger has gone along with each partition. -/
theorem Simulation.Reaches.books {simulation : Simulation M} {machine : Machine M}
    {trace : List (PartitionId × Dispatch M)} {j : PartitionId} {first : Partition M} {t : Thread M}
    {history : List (Incident M.Ticker)} (h : simulation.Reaches trace machine)
    (hfirst : simulation.partitions[j]? = some first) (hbooks : first.Books history)
    (ht : machine.threads[j]? = some t) :
    t.Books (history ++ (System.seenOf j trace).flatMap Dispatch.incidents) := by
  refine h.thread_induction
    (P := fun t seen => t.Books (history ++ seen.flatMap Dispatch.incidents))
    hfirst ht ?_ Thread.Books.idle ?_
  · rw [List.flatMap_nil, List.append_nil]
    exact ⟨⟨_, _, _, hbooks.ledger⟩, fun _ => hbooks.idles (.start first)⟩
  · intro trace x p d _ _ hbefore hnext
    rw [List.flatMap_append, List.flatMap_singleton, ← List.append_assoc]
    exact hbefore.dispatch hnext

/-! ## Building -/

def Builder.registering (j partition : PartitionId) :
    Except ConfigError (ClockHandle × Builder M) → List (Incident M.Ticker)
  | .ok (handle, _) => if partition = j then [.granted handle, .joined handle] else []
  | .error _ => []

/-- What happens to them when a builder is asked for something. A removal is asked for and carried
out at once, also where it is refused. -/
def Draft.incident (j : PartitionId) (draft : Draft M) : Builder.Call M → List (Incident M.Ticker)
  | .registerClock partition period handler =>
    Builder.registering j partition (draft.builder.registerClock partition period handler)
  | .registerClockSpec partition spec handler =>
    Builder.registering j partition (draft.builder.registerClockSpec partition spec handler)
  | .unregisterClock partition handle =>
    let next := draft.call (.unregisterClock partition handle)
    match draft.builder.setups[partition]?, next.builder.setups[partition]? with
    | some before, some after =>
      if partition = j then [.dismissed handle, .removed handle before.clocks after.clocks] else []
    | _, _ => []
  | _ => []

/-- What happens to them while a builder is asked for one thing after another. -/
def Draft.incidents (j : PartitionId) : Draft M → List (Builder.Call M) → List (Incident M.Ticker)
  | _, [] => []
  | draft, c :: rest => draft.incident j c ++ (draft.call c).incidents j rest

def Builder.Books (b : Builder M) (j : PartitionId) (history : List (Incident M.Ticker)) : Prop :=
  ∀ setup, b.setups[j]? = some setup →
    Ledger history setup.clocks.nextHandler [] setup.clocks.on

theorem Builder.Books.ofConfig {config : Config} {b : Builder M} {j : PartitionId}
    (h : Builder.ofConfig config = .ok b) : b.Books j [] := by
  obtain ⟨_, _, _, rfl⟩ := Builder.ofConfig_eq_ok h
  intro setup hsetup
  rw [List.eq_of_mem_replicate (List.mem_of_getElem? hsetup)]
  exact .start

/-- What a call does to the clocks of a partition, and what happens to its handlers then. -/
inductive Builder.Changes (setup changed : PartitionSetup M) : List (Incident M.Ticker) → Prop
  | keeps (hclocks : changed.clocks = setup.clocks) : Changes setup changed []
  | registers (period : Period) (handler : M.Ticker)
    (hclocks : changed.clocks =
      (setup.clocks.attach setup.clocks.nextHandler period handler setup.timeline).1) :
    Changes setup changed [.granted ⟨period.factor, setup.clocks.nextHandler⟩,
      .joined ⟨period.factor, setup.clocks.nextHandler⟩]
  | removes (handle : ClockHandle)
    (hclocks : changed.clocks =
      (ClockSet.applyOne (setup.clocks, setup.timeline) (.unregister handle)).1) :
    Changes setup changed [.dismissed handle, .removed handle setup.clocks changed.clocks]

namespace Draft

variable {draft : Draft M} {j partition : PartitionId} {history : List (Incident M.Ticker)}
  {setup next : PartitionSetup M}

/-- These incidents are what becomes of partition `j` in a call. -/
def Turns (draft draft' : Draft M) (j : PartitionId) (incidents : List (Incident M.Ticker)) :
    Prop :=
  ∀ changed, draft'.builder.setups[j]? = some changed →
    ∃ setup, draft.builder.setups[j]? = some setup ∧ Builder.Changes setup changed incidents

namespace Turns

variable {draft' : Draft M} {incidents : List (Incident M.Ticker)}

theorem refl (draft : Draft M) (j : PartitionId) : draft.Turns draft j [] :=
  fun changed hchanged => ⟨changed, hchanged, .keeps rfl⟩

/-- The setup of one partition is replaced, and nothing happens to the handlers of the others. -/
theorem of_set (hsetup : draft.builder.setups[partition]? = some setup)
    (hset : draft'.builder.setups = draft.builder.setups.set partition next)
    (hself : partition = j → Builder.Changes setup next incidents)
    (hothers : partition ≠ j → incidents = []) : draft.Turns draft' j incidents := by
  intro changed hchanged
  rw [hset] at hchanged
  by_cases hpartition : partition = j
  · subst hpartition
    rw [List.getElem?_set_self (List.getElem?_eq_some_iff.mp hsetup).1] at hchanged
    cases hchanged
    exact ⟨setup, hsetup, hself rfl⟩
  · rw [List.getElem?_set_ne hpartition] at hchanged
    rw [hothers hpartition]
    exact ⟨changed, hchanged, .keeps rfl⟩

/-- Nothing happens where the clocks stay the same. -/
theorem keep (hsetup : draft.builder.setups[partition]? = some setup)
    (hset : draft'.builder.setups = draft.builder.setups.set partition next)
    (hclocks : next.clocks = setup.clocks) : draft.Turns draft' j [] :=
  of_set hsetup hset (fun _ => .keeps hclocks) fun _ => rfl

theorem replace {x : Except ConfigError (Builder M)}
    (hx : ∀ b, x = .ok b → ∃ (i : PartitionId) (setup next : PartitionSetup M),
      draft.builder.setups[i]? = some setup ∧ b = draft.builder.withSetup i next ∧
        next.clocks = setup.clocks) : draft.Turns (draft.replace x) j [] := by
  cases x with
  | error e => exact refl draft j
  | ok b =>
    obtain ⟨i, setup, next, hi, rfl, hclocks⟩ := hx b rfl
    exact keep hi rfl hclocks

theorem addEnd (draft : Draft M) (j partition : PartitionId) (name : String) (latency : Nat)
    (receiver : Option M.Receiver) :
    draft.Turns (draft.addEnd partition name latency receiver) j [] := by
  unfold Draft.addEnd
  split
  · rename_i hok
    obtain ⟨setup, _, _, _, hsetup, _, rfl⟩ := Builder.addEnd_eq_ok hok
    exact keep hsetup rfl rfl
  · exact refl draft j

/-- A handler is registered under the next number. -/
theorem register {x : Except ConfigError (ClockHandle × Builder M)}
    (hx : ∀ handle b, x = .ok (handle, b) → ∃ period handler,
      draft.builder.registerClock partition period handler = .ok (handle, b)) :
    draft.Turns (draft.replace (x.map (·.2))) j (Builder.registering j partition x) := by
  cases x with
  | error e => exact refl draft j
  | ok result =>
    obtain ⟨handle, b⟩ := result
    obtain ⟨period, handler, hok⟩ := hx handle b rfl
    obtain ⟨setup, hsetup, hok⟩ := bind_eq_ok_iff.mp hok
    cases hok
    refine of_set (Builder.setup_eq_ok hsetup) rfl (fun hpartition => ?_) fun hne => if_neg hne
    rw [Builder.registering, if_pos hpartition]
    exact .registers period handler rfl

/-- A removal from a partition that exists is carried out, also where it is refused. -/
theorem setups_unregister (hsetup : draft.builder.setups[partition]? = some setup)
    (handle : ClockHandle) :
    (draft.call (.unregisterClock partition handle)).builder.setups =
      draft.builder.setups.set partition { setup with
        clocks := (ClockSet.applyOne (setup.clocks, setup.timeline) (.unregister handle)).1 } := by
  cases hresult : setup.clocks.unregister handle with
  | ok result =>
    obtain ⟨empty, clocks⟩ := result
    simp [call, Draft.replace, Builder.unregisterClock, Builder.setup, hsetup, hresult, bind,
      Except.bind, pure, Except.pure, Except.map, Builder.withSetup, ClockSet.applyOne]
  | error e =>
    obtain ⟨hlt, rfl⟩ := List.getElem?_eq_some_iff.mp hsetup
    simp only [call, Draft.replace, Builder.unregisterClock, Builder.setup, hsetup, hresult, bind,
      Except.bind, Except.map, ClockSet.applyOne]
    exact (List.set_getElem_self hlt).symm

theorem unregister (draft : Draft M) (j partition : PartitionId) (handle : ClockHandle) :
    draft.Turns (draft.call (.unregisterClock partition handle)) j
      (draft.incident j (.unregisterClock partition handle)) := by
  cases hsetup : draft.builder.setups[partition]? with
  | none =>
    have hsame : draft.call (.unregisterClock partition handle) = draft := by
      simp [call, Draft.replace, Builder.unregisterClock, Builder.setup, hsetup, bind, Except.bind,
        Except.map]
    simpa [incident, hsetup, hsame] using refl draft j
  | some setup =>
    have hset := setups_unregister hsetup handle
    have hchanged := (congrArg (·[partition]?) hset).trans
      (List.getElem?_set_self (List.getElem?_eq_some_iff.mp hsetup).1)
    simp only [incident, hsetup, hchanged]
    refine of_set hsetup hset (fun hpartition => ?_) fun hne => if_neg hne
    rw [if_pos hpartition]
    exact .removes handle rfl

/-- Whatever a builder is asked for, this is what becomes of the handlers of a partition. -/
theorem call (draft : Draft M) (j : PartitionId) (c : Builder.Call M) :
    draft.Turns (draft.call c) j (draft.incident j c) := by
  cases c with
  | addLink partition name latency receiver => exact addEnd _ _ _ _ _ _
  | addOutputLink partition name latency => exact addEnd _ _ _ _ _ _
  | scheduleEvent linkEnd time payload priority =>
    refine replace fun b hok => ?_
    obtain ⟨setup, hsetup, rfl⟩ := Builder.scheduleEvent_eq_ok hok
    exact ⟨_, setup, _, hsetup, rfl, rfl⟩
  | registerClock partition period handler => exact register fun handle b hok => ⟨_, _, hok⟩
  | registerClockSpec partition spec handler =>
    refine register fun handle b hok => ?_
    obtain ⟨base, _, hok⟩ := bind_eq_ok_iff.mp hok
    obtain ⟨period, _, hok⟩ := bind_eq_ok_iff.mp hok
    exact ⟨period, handler, hok⟩
  | unregisterClock partition handle => exact unregister draft j partition handle
  | addParticipant partition participant =>
    refine replace fun b hok => ?_
    obtain ⟨setup, hsetup, rfl⟩ := Builder.addParticipant_eq_ok hok
    exact ⟨_, setup, _, hsetup, rfl, rfl⟩

end Turns

/-- Whatever a builder is asked for, the books are kept. -/
theorem books_call (h : draft.builder.Books j history) (c : Builder.Call M) :
    (draft.call c).builder.Books j (history ++ draft.incident j c) := by
  intro changed hchanged
  obtain ⟨setup, hsetup, hchanges⟩ := Turns.call draft j c changed hchanged
  have hledger := h setup hsetup
  generalize draft.incident j c = incidents at hchanges ⊢
  cases hchanges with
  | keeps hclocks =>
    rw [List.append_nil, hclocks]
    exact hledger
  | registers period handler hclocks =>
    have hjoined := (hledger.grants period.factor).joins
      (setup.clocks.on_attach setup.clocks.nextHandler period handler setup.timeline)
    have hnext : max setup.clocks.nextHandler (setup.clocks.nextHandler + 1) =
        setup.clocks.nextHandler + 1 := Nat.max_eq_right (Nat.le_succ _)
    rw [List.append_assoc, List.singleton_append] at hjoined
    rw [hclocks]
    simpa only [ClockSet.attach, hnext] using hjoined
  | removes handle hclocks =>
    have hremoves := ClockSet.removes_applyOne hledger.distinct setup.timeline handle
    rw [← hclocks] at hremoves
    have hremoved := (hledger.dismisses handle).removes hremoves
    rw [List.append_assoc, List.singleton_append] at hremoved
    have hnext : changed.clocks.nextHandler = setup.clocks.nextHandler := by
      rw [show changed.clocks = _ from hremoves]
    rw [hnext]
    exact hremoved

theorem books_calls (h : draft.builder.Books j history) (calls : List (Builder.Call M)) :
    (calls.foldl Draft.call draft).builder.Books j (history ++ draft.incidents j calls) := by
  induction calls generalizing draft history with
  | nil => simpa [incidents] using h
  | cons c calls ih =>
    rw [incidents, ← List.append_assoc]
    exact ih (books_call h c)

end Draft

/-! ## The main result -/

/-- What has happened to the handlers of partition `j` from the first call of a builder to where a
run has got. -/
def Draft.history (j : PartitionId) (draft : Draft M) (calls : List (Builder.Call M))
    (trace : List (PartitionId × Dispatch M)) : List (Incident M.Ticker) :=
  draft.incidents j calls ++ (System.seenOf j trace).flatMap Dispatch.incidents

/-- However a simulation was built and wherever a run gets to, the handlers of a partition have kept
their identity. Unless its thread has failed, those are on its clocks that have joined them and have
not gone. -/
theorem Draft.handlers_keep_identity {config : Config} {b : Builder M}
    (h : Builder.ofConfig config = .ok b) (calls : List (Builder.Call M))
    {simulation : Simulation M}
    (hbuild : (calls.foldl Draft.call ⟨b, []⟩).builder.build = .ok simulation)
    {trace : List (PartitionId × Dispatch M)} {machine : Machine M}
    (hreach : simulation.Reaches trace machine) {j : PartitionId} {t : Thread M}
    (ht : machine.threads[j]? = some t) :
    KeepsIdentity (Draft.history j ⟨b, []⟩ calls trace) ∧
      (t.error? = none → ∀ handle, handle ∈ t.partition.clocks.on ↔
        .joined handle ∈ Draft.history j ⟨b, []⟩ calls trace ∧
          ¬ Gone (Draft.history j ⟨b, []⟩ calls trace) handle.handler) := by
  have hstart : (⟨b, []⟩ : Draft M).builder.Books j [] := .ofConfig h
  have hmade := Draft.books_calls hstart calls
  have hlt : j < simulation.partitions.length := by
    rw [← hreach.length_threads]
    exact (List.getElem?_eq_some_iff.mp ht).1
  have hfirst := List.getElem?_eq_getElem hlt
  have hbooks : (simulation.partitions[j]).Books (Draft.incidents j ⟨b, []⟩ calls) := by
    obtain ⟨_, window, _, rfl⟩ := Builder.build_eq_ok hbuild
    rw [List.getElem?_mapIdx] at hfirst
    obtain ⟨setup, hsetup, heq⟩ := Option.map_eq_some_iff.mp hfirst
    rw [← heq]
    exact ⟨rfl, hmade setup hsetup⟩
  have hend := hreach.books hfirst hbooks ht
  exact ⟨hend.orderly.keepsIdentity, fun hgoes => (hend.partition hgoes).ledger.present⟩

/-- One of two handlers is removed again, and an event puts a third one on the clock. -/
def Metronome.handover : List (Builder.Call Metronome.model) :=
  [.addLink 0 "bell" 0 ⟨3, false⟩, .addLink 0 "bell" 0 ⟨0, false⟩,
    .registerClock 0 Metronome.ten ⟨0, false⟩, .registerClock 0 Metronome.ten ⟨5, false⟩,
    .unregisterClock 0 ⟨10, 1⟩, .scheduleEvent ⟨0, 0⟩ (Time.ofNat 5) () Priority.event]

def Metronome.relieved : Simulation Metronome.model :=
  let b := (Metronome.handover.foldl Draft.call ⟨Metronome.blank {}, []⟩).builder
  ⟨b.setups.mapIdx (b.partition lastTick), lastTick⟩

/-- The first handler leaves in its first cycle, and the third one is left. -/
theorem Draft.handlers_keep_identity_handover :
    Builder.ofConfig {} = .ok (Metronome.blank {}) ∧
    (Metronome.handover.foldl Draft.call ⟨Metronome.blank {}, []⟩).builder.build =
      .ok Metronome.relieved ∧
    ∃ trace machine t, Metronome.relieved.Reaches trace machine ∧ machine.threads[0]? = some t ∧
      t.error? = none ∧ t.partition.clocks.on = [⟨10, 2⟩] ∧
      granted (Draft.history 0 ⟨Metronome.blank {}, []⟩ Metronome.handover trace) =
        [⟨10, 0⟩, ⟨10, 1⟩, ⟨10, 2⟩] ∧
      KeepsIdentity (Draft.history 0 ⟨Metronome.blank {}, []⟩ Metronome.handover trace) := by
  have hblank : Builder.ofConfig {} = .ok (Metronome.blank {}) := rfl
  have hbuild : (Metronome.handover.foldl Draft.call ⟨Metronome.blank {}, []⟩).builder.build =
      .ok Metronome.relieved := rfl
  have hreach := Metronome.reaches_run Metronome.relieved 2
  obtain ⟨t, ht⟩ : ∃ t, (Metronome.run Metronome.relieved 2).2.threads[0]? = some t := ⟨_, rfl⟩
  refine ⟨hblank, hbuild, _, _, t, hreach, ht, ?_, ?_, rfl,
    (Draft.handlers_keep_identity hblank _ hbuild hreach ht).1⟩
  · cases ht
    rfl
  · cases ht
    rfl

end Lookahead
