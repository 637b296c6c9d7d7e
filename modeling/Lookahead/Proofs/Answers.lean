import Lookahead.Proofs.Deeds

/-!
What handlers are answered when they send.

A program makes its attempts to send one after another, and is told of each how it went; those that
succeed are its sends (`Thread.granted_dispatch`, `Thread.granted_phase`). Where every link end is
wired and every partition has an outbox, an attempt succeeds exactly if there is such a link end,
whatever else the handlers do (`Thread.answer_of_mem_attempts`).
-/

namespace Lookahead

/-! ## Tables -/

structure Attempt where
  link : LinkId
  answer : Except LinkError Unit

def Attempt.granted? (c : Attempt) : Option LinkId :=
  match c.answer with
  | .ok () => some c.link
  | .error _ => none

namespace RouteTable

/-- Every link end is wired, and those that lead elsewhere lead to one of `n` partitions. -/
structure Open (table : RouteTable) (n : Nat) : Prop where
  wired : ∀ (link : LinkId) (route : Route), table.get link = .ok route →
    route.delivery ≠ .unwired
  reach : ∀ (link : LinkId) (route : Route) (peer : LinkEnd), table.get link = .ok route →
    route.delivery = .across peer → peer.partition < n

def answer (table : RouteTable) (link : LinkId) : Except LinkError Unit :=
  if link < table.size then .ok () else .error (.unknownLink table.partition link)

theorem answer_of_get_ok {table : RouteTable} {link : LinkId} {route : Route}
    (h : table.get link = .ok route) : table.answer link = .ok () := by
  unfold get at h
  split at h
  · rename_i found hfound
    exact if_pos (List.getElem?_eq_some_iff.mp hfound).1
  · cases h

theorem answer_of_get_error {table : RouteTable} {link : LinkId} {e : LinkError}
    (h : table.get link = .error e) : table.answer link = .error e := by
  obtain ⟨hle, rfl⟩ := get_eq_error_iff.mp h
  exact if_neg (Nat.not_lt.mpr hle)

end RouteTable

/-! ## Timed handlers -/

section

variable {κ σ π α : Type} {table : RouteTable} {n : Nat}

namespace Context

variable {ctx ctx' : Context κ σ π} {link : LinkId} {delay : Nat} {payload : π} {e : LinkError}

theorem answer_of_send_ok (h : ctx.send link delay payload = .ok ctx') :
    ctx.routes.answer link = .ok () ∧ ctx'.routes = ctx.routes ∧
      ctx'.outbound.length = ctx.outbound.length := by
  rw [send_eq] at h
  cases hsend : ctx.desk.send link delay payload with
  | error e => simp [hsend, Except.map] at h
  | ok s =>
    simp only [hsend, Except.map, Except.ok.injEq] at h
    subst h
    refine ⟨?_, rfl, Sent.length_postAll ..⟩
    unfold Desk.send at hsend
    cases hroute : ctx.desk.routes.get link with
    | error e => simp [hroute] at hsend
    | ok route => exact RouteTable.answer_of_get_ok hroute

/-- Where all link ends are wired only one error is left. -/
theorem answer_of_send_error (hopen : ctx.routes.Open ctx.outbound.length)
    (h : ctx.send link delay payload = .error e) : ctx.routes.answer link = .error e := by
  rw [send_eq] at h
  cases hsend : ctx.desk.send link delay payload with
  | ok s => simp [hsend, Except.map] at h
  | error e' =>
    simp only [hsend, Except.map, Except.error.injEq] at h
    subst h
    unfold Desk.send at hsend
    cases hroute : ctx.desk.routes.get link with
    | error e' =>
      simp only [hroute, Except.error.injEq] at hsend
      subst hsend
      exact RouteTable.answer_of_get_error hroute
    | ok route =>
      simp only [hroute] at hsend
      cases hdelivery : route.delivery with
      | unwired => exact absurd hdelivery (hopen.wired link route hroute)
      | within target => simp [hdelivery] at hsend
      | across peer =>
        have hlt : peer.partition < ctx.desk.outboxes :=
          hopen.reach link route peer hroute hdelivery
        simp [hdelivery, hlt] at hsend

end Context

def Program.attempts : Program κ σ π α → Context κ σ π → List Attempt
  | .done _, _ => []
  | .panic, _ => []
  | .recall next, ctx => (next ctx.state).attempts ctx
  | .remember state next, ctx => next.attempts { ctx with state }
  | .latency link next, ctx => (next ((ctx.routes.get link).map (·.latency))).attempts ctx
  | .send link delay payload next, ctx =>
    match ctx.send link delay payload with
    | .ok ctx => ⟨link, .ok ()⟩ :: (next (.ok ())).attempts ctx
    | .error e => ⟨link, .error e⟩ :: (next (.error e)).attempts ctx
  | .register period handler next, ctx =>
    let (handle, requests) := ctx.requests.register period handler
    (next handle).attempts { ctx with requests }
  | .unregister handle next, ctx =>
    next.attempts { ctx with requests := ctx.requests.unregister handle }

theorem Desk.link_of_send {desk : Desk κ σ} {link : LinkId} {delay : Nat} {payload : π}
    {s : Sent π} (h : desk.send link delay payload = .ok s) : s.source.link = link := by
  unfold send at h
  split at h
  · cases h
  · dsimp only at h
    split at h
    · cases h
    · cases h
      rfl
    · split at h
      · cases h
        rfl
      · cases h

theorem Program.granted_attempts (program : Program κ σ π α) (ctx : Context κ σ π) :
    (program.attempts ctx).filterMap Attempt.granted? =
      (program.reply ctx.desk).sends.map fun s => s.source.link := by
  induction program generalizing ctx with
  | done value => rfl
  | panic => rfl
  | «recall» next ih => exact ih _ ctx
  | remember state next ih => exact ih _
  | latency link next ih => exact ih _ ctx
  | send link delay payload next ih =>
    simp only [attempts, reply, Context.send_eq]
    cases hsend : ctx.desk.send link delay payload with
    | error e => exact ih _ ctx
    | ok s =>
      have hrest := ih (.ok ()) (ctx.carry [s])
      rw [Context.desk_carry] at hrest
      simp only [Except.map, List.filterMap_cons, Attempt.granted?, hrest, List.map_cons,
        Desk.link_of_send hsend]
  | register period handler next ih => exact ih _ _
  | unregister handle next ih => exact ih _

theorem Program.reach_run (program : Program κ σ π α) (ctx : Context κ σ π) :
    (program.run ctx).1.routes = ctx.routes ∧
      (program.run ctx).1.outbound.length = ctx.outbound.length := by
  rw [run_eq]
  exact ⟨rfl, Sent.length_postAll ..⟩

theorem Program.answer_of_mem_attempts (program : Program κ σ π α) (ctx : Context κ σ π)
    (hopen : ctx.routes.Open ctx.outbound.length) :
    ∀ c ∈ program.attempts ctx, c.answer = ctx.routes.answer c.link := by
  induction program generalizing ctx with
  | done value => simp [attempts]
  | panic => simp [attempts]
  | «recall» next ih => exact ih _ ctx hopen
  | remember state next ih => exact ih _ hopen
  | latency link next ih => exact ih _ ctx hopen
  | send link delay payload next ih =>
    intro c hc
    unfold attempts at hc
    cases hsend : ctx.send link delay payload with
    | error e =>
      rw [hsend] at hc
      rcases List.mem_cons.mp hc with rfl | hc
      · exact (Context.answer_of_send_error hopen hsend).symm
      · exact ih _ ctx hopen c hc
    | ok ctx' =>
      rw [hsend] at hc
      obtain ⟨hanswer, hroutes, hlength⟩ := Context.answer_of_send_ok hsend
      rcases List.mem_cons.mp hc with rfl | hc
      · exact hanswer.symm
      · rw [← hroutes] at hopen ⊢
        exact ih _ ctx' (hlength ▸ hopen) c hc
  | register period handler next ih => exact ih _ _ hopen
  | unregister handle next ih => exact ih _ hopen

def tickAttempts (tick : Tick κ σ π) (cycle : Nat) :
    List (Attached κ) → Context κ σ π → List Attempt
  | [], _ => []
  | entry :: rest, ctx =>
    (tick entry.handler cycle ctx.view).attempts ctx ++
      match (tick entry.handler cycle ctx.view).run ctx with
      | (_, none) => []
      | (ctx, some _) => tickAttempts tick cycle rest ctx

theorem granted_tickAttempts (tick : Tick κ σ π) (cycle : Nat) (handlers : List (Attached κ))
    (ctx : Context κ σ π) :
    (tickAttempts tick cycle handlers ctx).filterMap Attempt.granted? =
      (callReplies tick cycle handlers ctx.desk).sends.map fun s => s.source.link := by
  induction handlers generalizing ctx with
  | nil => rfl
  | cons entry rest ih =>
    simp only [tickAttempts, callReplies, Context.view_eq, Program.run_eq, List.filterMap_append,
      Program.granted_attempts]
    cases hvalue : ((tick entry.handler cycle ctx.desk.view).reply ctx.desk).value with
    | none => simp
    | some next =>
      have hrest := ih (ctx.after ((tick entry.handler cycle ctx.desk.view).reply ctx.desk))
      rw [Context.desk_after] at hrest
      simp only [hrest, List.map_append]

theorem answer_of_mem_tickAttempts (tick : Tick κ σ π) (cycle : Nat)
    (handlers : List (Attached κ)) (ctx : Context κ σ π)
    (hopen : ctx.routes.Open ctx.outbound.length) :
    ∀ c ∈ tickAttempts tick cycle handlers ctx, c.answer = ctx.routes.answer c.link := by
  induction handlers generalizing ctx with
  | nil => simp [tickAttempts]
  | cons entry rest ih =>
    intro c hc
    have hreach := Program.reach_run (tick entry.handler cycle ctx.view) ctx
    unfold tickAttempts at hc
    rcases List.mem_append.mp hc with hc | hc
    · exact Program.answer_of_mem_attempts _ ctx hopen c hc
    · cases hrun : (tick entry.handler cycle ctx.view).run ctx with
      | mk ctx' value =>
        rw [hrun] at hc hreach
        obtain ⟨hroutes, hlength⟩ := hreach
        cases value with
        | none => cases hc
        | some next =>
          rw [← hroutes, ← hlength] at hopen
          rw [← hroutes]
          exact ih ctx' hopen c hc

end

/-! ## Untimed handlers -/

section

variable {σ π α : Type}

namespace PhaseContext

variable {ctx ctx' : PhaseContext σ π} {link : LinkId} {payload : π} {e : LinkError}

theorem answer_of_send_ok (h : ctx.send link payload = .ok ctx') :
    ctx.routes.answer link = .ok () ∧ ctx'.routes = ctx.routes := by
  unfold send at h
  cases hroute : ctx.routes.get link with
  | error e =>
    rw [hroute] at h
    cases h
  | ok route =>
    refine ⟨RouteTable.answer_of_get_ok hroute, ?_⟩
    simp only [hroute, bind, Except.bind] at h
    split at h
    · cases h
    · cases h
      rfl
    · split at h
      · cases h
      · cases h
        rfl

/-- Where all link ends are wired only one error is left. -/
theorem answer_of_send_error (hopen : ctx.routes.Open ctx.outbound.length)
    (h : ctx.send link payload = .error e) : ctx.routes.answer link = .error e := by
  unfold send at h
  cases hroute : ctx.routes.get link with
  | error e' =>
    rw [hroute] at h
    cases h
    exact RouteTable.answer_of_get_error hroute
  | ok route =>
    simp only [hroute, bind, Except.bind] at h
    cases hdelivery : route.delivery with
    | unwired => exact absurd hdelivery (hopen.wired link route hroute)
    | within target => simp [hdelivery, pure, Except.pure] at h
    | across peer =>
      have hlt : peer.partition < ctx.outbound.length :=
        hopen.reach link route peer hroute hdelivery
      simp [hdelivery, List.getElem?_eq_getElem hlt, pure, Except.pure] at h

end PhaseContext

def PhaseProgram.attempts : PhaseProgram σ π α → PhaseContext σ π → List Attempt
  | .done _, _ => []
  | .panic, _ => []
  | .recall next, ctx => (next ctx.state).attempts ctx
  | .remember state next, ctx => next.attempts { ctx with state }
  | .send link payload next, ctx =>
    match ctx.send link payload with
    | .ok ctx => ⟨link, .ok ()⟩ :: (next (.ok ())).attempts ctx
    | .error e => ⟨link, .error e⟩ :: (next (.error e)).attempts ctx
  | .receive link next, ctx =>
    match ctx.inbox.take? link with
    | some (event, inbox) => (next (some event.payload)).attempts { ctx with inbox }
    | none => (next none).attempts ctx
  | .waiting link next, ctx => (next (ctx.inbox.waiting link)).attempts ctx

def PhaseAct.sentLink? : PhaseAct π → Option LinkId
  | .sent link _ => some link
  | .read _ _ => none

/-- The attempts that succeed are the sends among the acts of a program. -/
theorem PhaseProgram.granted_attempts (program : PhaseProgram σ π α) (ctx : PhaseContext σ π) :
    (program.attempts ctx).filterMap Attempt.granted? =
      (program.acts ctx).filterMap PhaseAct.sentLink? := by
  induction program generalizing ctx with
  | done value => rfl
  | panic => rfl
  | «recall» next ih => exact ih _ ctx
  | remember state next ih => exact ih _
  | send link payload next ih =>
    unfold attempts acts
    cases ctx.send link payload with
    | error e => exact ih _ ctx
    | ok ctx' => exact congrArg (link :: ·) (ih (.ok ()) ctx')
  | receive link next ih =>
    unfold attempts acts
    cases ctx.inbox.take? link with
    | none => exact ih none ctx
    | some taken => exact ih (some taken.1.payload) { ctx with inbox := taken.2 }
  | waiting link next ih => exact ih _ ctx

theorem PhaseProgram.routes_run (program : PhaseProgram σ π α) (ctx : PhaseContext σ π) :
    (program.run ctx).1.routes = ctx.routes := by
  induction program generalizing ctx with
  | done value => rfl
  | panic => rfl
  | «recall» next ih => exact ih _ ctx
  | remember state next ih => exact ih _
  | send link payload next ih =>
    simp only [run]
    cases hsend : ctx.send link payload with
    | error e => exact ih _ ctx
    | ok ctx' => exact (ih _ ctx').trans (PhaseContext.answer_of_send_ok hsend).2
  | receive link next ih =>
    simp only [run]
    split
    · exact ih _ _
    · exact ih _ ctx
  | waiting link next ih => exact ih _ ctx

theorem PhaseProgram.answer_of_mem_attempts (program : PhaseProgram σ π α) (ctx : PhaseContext σ π)
    (hopen : ctx.routes.Open ctx.outbound.length) :
    ∀ c ∈ program.attempts ctx, c.answer = ctx.routes.answer c.link := by
  induction program generalizing ctx with
  | done value => simp [attempts]
  | panic => simp [attempts]
  | «recall» next ih => exact ih _ ctx hopen
  | remember state next ih => exact ih _ hopen
  | send link payload next ih =>
    intro c hc
    unfold attempts at hc
    cases hsend : ctx.send link payload with
    | error e =>
      rw [hsend] at hc
      rcases List.mem_cons.mp hc with rfl | hc
      · exact (PhaseContext.answer_of_send_error hopen hsend).symm
      · exact ih _ ctx hopen c hc
    | ok ctx' =>
      rw [hsend] at hc
      obtain ⟨hanswer, hroutes⟩ := PhaseContext.answer_of_send_ok hsend
      rcases List.mem_cons.mp hc with rfl | hc
      · exact hanswer.symm
      · rw [← hroutes] at hopen ⊢
        exact ih _ ctx' (PhaseContext.length_send hsend ▸ hopen) c hc
  | receive link next ih =>
    intro c hc
    unfold attempts at hc
    cases htake : ctx.inbox.take? link with
    | none =>
      rw [htake] at hc
      exact ih _ ctx hopen c hc
    | some taken =>
      rw [htake] at hc
      exact ih _ { ctx with inbox := taken.2 } hopen c hc
  | waiting link next ih => exact ih _ ctx hopen

end

/-! ## Threads -/

variable {M : Model}

namespace Partition

/-- The attempts to send of the untimed handlers in a phase. -/
def phaseAttempts (view : PhaseView) : List M.Participant → M.PhaseContext → List Attempt
  | [], _ => []
  | participant :: rest, ctx =>
    (M.phase participant view).attempts ctx ++
      match (M.phase participant view).run ctx with
      | (ctx, some (.ok _)) => phaseAttempts view rest ctx
      | _ => []

/-- The attempts that succeed are the sends among the acts of a phase. -/
theorem granted_phaseAttempts (view : PhaseView) (participants : List M.Participant)
    (ctx : M.PhaseContext) :
    (phaseAttempts view participants ctx).filterMap Attempt.granted? =
      ((phaseCalls view participants ctx).flatMap (·.acts)).filterMap PhaseAct.sentLink? := by
  induction participants generalizing ctx with
  | nil => rfl
  | cons participant rest ih =>
    unfold phaseAttempts phaseCalls
    dsimp only
    rw [List.filterMap_append, PhaseProgram.granted_attempts]
    cases (M.phase participant view).run ctx with
    | mk ctx' result =>
      cases result with
      | none => simp
      | some answer =>
        cases answer with
        | error e => simp
        | ok next => rw [List.flatMap_cons, List.filterMap_append, ih]

theorem answer_of_mem_phaseAttempts (view : PhaseView) (participants : List M.Participant)
    (ctx : M.PhaseContext) (hopen : ctx.routes.Open ctx.outbound.length) :
    ∀ c ∈ phaseAttempts view participants ctx, c.answer = ctx.routes.answer c.link := by
  induction participants generalizing ctx with
  | nil => simp [phaseAttempts]
  | cons participant rest ih =>
    intro c hc
    have hroutes := PhaseProgram.routes_run (M.phase participant view) ctx
    have hlength := PhaseProgram.length_run (M.phase participant view) ctx
    unfold phaseAttempts at hc
    rcases List.mem_append.mp hc with hc | hc
    · exact PhaseProgram.answer_of_mem_attempts _ ctx hopen c hc
    · split at hc
      · rename_i ctx' participant' hrun
        rw [hrun] at hroutes hlength
        rw [← hroutes, ← hlength] at hopen
        rw [← hroutes]
        exact ih ctx' hopen c hc
      · cases hc

def attempts (p : Partition M) : Action M.Payload → List Attempt
  | .deliver event =>
    match p.receivers[event.link]? with
    | some (some receiver) => (M.receive receiver event p.context.view).attempts p.context
    | _ => []
  | .clock id =>
    match p.clocks.clocks[id]? with
    | some clock => tickAttempts M.tick clock.nextCycle clock.handlers p.context
    | none => []
  | _ => []

theorem granted_attempts (p : Partition M) (action : Action M.Payload) :
    (p.attempts action).filterMap Attempt.granted? =
      (p.inside.sends p.timeline.now p.timeline.priority action).map fun s => s.source.link := by
  cases action with
  | sync => rfl
  | stop => rfl
  | deliver event =>
    have hreceivers : p.inside.receivers = p.receivers := rfl
    simp only [attempts, Inside.sends, hreceivers]
    cases p.receivers[event.link]? with
    | none => rfl
    | some receiver =>
      cases receiver with
      | none => rfl
      | some receiver => exact Program.granted_attempts _ p.context
  | clock id =>
    have hclocks : p.inside.clocks = p.clocks := rfl
    simp only [attempts, Inside.sends, hclocks]
    cases p.clocks.clocks[id]? with
    | none => rfl
    | some clock =>
      have hgranted := granted_tickAttempts M.tick clock.nextCycle clock.handlers p.context
      unfold Clock.firing
      dsimp only
      split
      · rename_i hempty
        rw [List.isEmpty_iff.mp hempty]
        rfl
      · exact hgranted

theorem answer_of_mem_attempts (p : Partition M) (action : Action M.Payload)
    (hopen : p.routes.Open p.member.outbound.length) :
    ∀ c ∈ p.attempts action, c.answer = p.routes.answer c.link := by
  intro c hc
  unfold attempts at hc
  split at hc
  · split at hc
    · exact Program.answer_of_mem_attempts _ p.context hopen c hc
    · cases hc
  · split at hc
    · exact answer_of_mem_tickAttempts _ _ _ p.context hopen c hc
    · cases hc
  · cases hc

end Partition

namespace Thread

/-- The attempts to send of the handlers that are called in the next step of a thread. -/
def attempts : Thread M → List Attempt
  | .running (.init phase) p =>
    Partition.phaseAttempts (.after p.id .init phase) p.participants p.phaseContext
  | .running (.complete phase _) p =>
    Partition.phaseAttempts (.after p.id .complete phase) p.participants p.phaseContext
  | .running .timed p => p.next?.elim [] fun d => d.partition.attempts d.activity.payload
  | _ => []

theorem granted_dispatch {work : Work} {p : Partition M} {d : Dispatch M}
    (h : work.dispatch? p = some d) :
    (Thread.running work p).attempts.filterMap Attempt.granted? =
      d.sends.map fun s => s.source.link := by
  cases work with
  | init phase => cases h
  | complete phase stop => cases h
  | timed =>
    have hattempts : (Thread.running .timed p).attempts =
        p.next?.elim [] fun d => d.partition.attempts d.activity.payload := rfl
    rw [hattempts, show p.next? = some d from h]
    exact Partition.granted_attempts d.partition d.activity.payload

theorem granted_phase {work : Work} {p : Partition M} {stage : Stage} {phase : Nat}
    (h : work.phase? = some (stage, phase)) :
    (Thread.running work p).attempts.filterMap Attempt.granted? =
      (p.acts stage phase).filterMap PhaseAct.sentLink? := by
  cases work <;> cases h <;> exact Partition.granted_phaseAttempts ..

/-- Where all link ends of a partition are wired, a send of its handlers succeeds if there is such a
link end, and is answered that there is none otherwise. -/
theorem answer_of_mem_attempts {work : Work} {p : Partition M}
    (hopen : p.routes.Open p.member.outbound.length) :
    ∀ c ∈ (Thread.running work p).attempts, c.answer = p.routes.answer c.link := by
  intro c hc
  cases work with
  | init phase => exact Partition.answer_of_mem_phaseAttempts _ _ p.phaseContext hopen c hc
  | complete phase stop =>
    exact Partition.answer_of_mem_phaseAttempts _ _ p.phaseContext hopen c hc
  | timed =>
    have hattempts : (Thread.running .timed p).attempts =
        p.next?.elim [] fun d => d.partition.attempts d.activity.payload := rfl
    rw [hattempts] at hc
    cases hnext : p.next? with
    | none =>
      rw [hnext] at hc
      cases hc
    | some d =>
      rw [hnext] at hc
      have hlike := Partition.Like.next? hnext
      rw [← hlike.routes] at hopen ⊢
      rw [← hlike.outboxes] at hopen
      exact Partition.answer_of_mem_attempts d.partition _ hopen c hc

end Thread

end Lookahead
