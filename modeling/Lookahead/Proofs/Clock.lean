import Lookahead.Proofs.Handler

/-!
What clocks put on a timeline.

Carrying out requests and firing a clock look at the present instant and priority of the timeline
alone, and never at what is queued. What they queue are clock activities, and none is due in the
past unless the next boundary of a clock that is started does not fit 64 bits.
-/

namespace Lookahead

variable {κ σ π : Type}

/-- A clock activity, and if all is `safe` it is not due before `now`. -/
structure Activity.IsTick (a : Scheduled π) (now : Time) (safe : Prop) : Prop where
  not_past : safe → now ≤ a.time
  clock : ∃ id, a.payload = .clock id

theorem Activity.IsTick.imp {a : Scheduled π} {now : Time} {safe safer : Prop}
    (h : a.IsTick now safe) (himp : safer → safe) : a.IsTick now safer :=
  ⟨fun hsafer => h.not_past (himp hsafer), h.clock⟩

namespace Clock

/-- A clock does not start in the past if its next boundary fits 64 bits. -/
theorem le_firstFiring (clock : Clock κ) (timeline : Timeline π)
    (h : clock.period.overflowsAfter timeline.now = false) :
    timeline.now ≤ clock.firstFiring timeline := by
  unfold firstFiring
  dsimp only
  split
  · exact Nat.le_refl _
  · exact Nat.le_of_lt (Period.lt_nextAfter h)

theorem register_eq (clock : Clock κ) (id : HandlerId) (handler : κ) (now : Time)
    (priority : Int) :
    ∃ (clock' : Clock κ) (starts : List (Scheduled π)),
      (∀ a ∈ starts, a.IsTick now
        (clock.scheduled = true ∨ clock.period.overflowsAfter now = false)) ∧
      ∀ timeline : Timeline π, timeline.now = now → timeline.priority = priority →
        clock.register id handler timeline = (clock', timeline.addAll starts) := by
  let attached : Clock κ :=
    { clock with handlers := clock.handlers ++ [{ id := id, handler := handler }] }
  have hregister : ∀ timeline : Timeline π, clock.register id handler timeline =
      if attached.scheduled then (attached, timeline) else attached.schedule timeline :=
    fun _ => rfl
  by_cases hscheduled : attached.scheduled = true
  · refine ⟨attached, [], by simp, ?_⟩
    intro timeline _ _
    rw [hregister, if_pos hscheduled, Timeline.addAll_nil]
  · let here : Timeline π := { now := now, priority := priority }
    refine ⟨{ attached with cycle := attached.period.cyclesAt now, scheduled := true },
      [{ time := attached.firstFiring here, priority := attached.config.priority,
         payload := .clock attached.id }], ?_, ?_⟩
    · intro a ha
      obtain rfl := List.mem_singleton.mp ha
      refine ⟨fun hsafe => ?_, attached.id, rfl⟩
      exact attached.le_firstFiring here (hsafe.resolve_left hscheduled)
    · rintro timeline rfl rfl
      rw [hregister, if_neg hscheduled]
      rfl

end Clock

namespace ClockSet

/-! ## Requests -/

theorem registerIn_eq (config : ClockConfig) (id : HandlerId) (period : Period) (handler : κ)
    (now : Time) (priority : Int) (position : Nat) (clocks : List (Clock κ)) :
    ∃ (clocks' : List (Clock κ)) (starts : List (Scheduled π)),
      (∀ a ∈ starts, a.IsTick now
        ((clocks.find? fun clock => clock.period = period).any
            (fun clock => clock.scheduled) = true ∨
          period.overflowsAfter now = false)) ∧
      ∀ timeline : Timeline π, timeline.now = now → timeline.priority = priority →
        registerIn config id period handler timeline position clocks =
          (clocks', timeline.addAll starts) := by
  induction clocks generalizing position with
  | nil =>
    obtain ⟨clock', starts, hstarts, heq⟩ := Clock.register_eq (π := π)
      { id := position, period, config } id handler now priority
    refine ⟨[clock'], starts, hstarts, ?_⟩
    intro timeline hnow hpriority
    simp only [registerIn, heq timeline hnow hpriority]
  | cons clock rest ih =>
    by_cases hperiod : clock.period = period
    · obtain ⟨clock', starts, hstarts, heq⟩ := Clock.register_eq (π := π) clock id handler now
        priority
      refine ⟨clock' :: rest, starts, ?_, ?_⟩
      · intro a ha
        refine (hstarts a ha).imp ?_
        simp [hperiod]
      · intro timeline hnow hpriority
        simp only [registerIn, hperiod, ↓reduceIte, heq timeline hnow hpriority]
    · obtain ⟨rest', starts, hstarts, heq⟩ := ih (position + 1)
      refine ⟨clock :: rest', starts, ?_, ?_⟩
      · intro a ha
        refine (hstarts a ha).imp ?_
        simp [hperiod]
      · intro timeline hnow hpriority
        simp only [registerIn, hperiod, ↓reduceIte, heq timeline hnow hpriority]

theorem applyOne_eq (set : ClockSet κ) (request : ClockRequest κ) (now : Time)
    (priority : Int) :
    ∃ (set' : ClockSet κ) (starts : List (Scheduled π)),
      (∀ a ∈ starts, a.IsTick now (set.overflowsOn now request = false)) ∧
      ∀ timeline : Timeline π, timeline.now = now → timeline.priority = priority →
        applyOne (set, timeline) request = (set', timeline.addAll starts) := by
  cases request with
  | register id period handler =>
    obtain ⟨clocks', starts, hstarts, heq⟩ := registerIn_eq (π := π) set.config id period handler
      now priority 0 set.clocks
    refine ⟨{ set with clocks := clocks', nextHandler := max set.nextHandler (id + 1) }, starts,
      ?_, ?_⟩
    · intro a ha
      refine (hstarts a ha).imp ?_
      simp only [overflowsOn, isScheduled, Bool.and_eq_false_iff, Bool.not_eq_false', imp_self]
    · intro timeline hnow hpriority
      simp only [applyOne, attach, heq timeline hnow hpriority]
  | unregister handle =>
    cases hset : set.unregister handle with
    | ok result =>
      refine ⟨result.2, [], by simp, ?_⟩
      intro timeline _ _
      simp only [applyOne, hset, Timeline.addAll_nil]
    | error e =>
      refine ⟨set, [], by simp, ?_⟩
      intro timeline _ _
      simp only [applyOne, hset, Timeline.addAll_nil]

/-- Adding a handler takes no clock off the timeline. -/
theorem find?_registerIn {config : ClockConfig} {id : HandlerId} {period other : Period}
    {handler : κ} {timeline : Timeline π} {position : Nat} {clocks : List (Clock κ)}
    (h : (clocks.find? fun clock => clock.period = other).any (fun clock => clock.scheduled) =
      true) :
    ((registerIn config id period handler timeline position clocks).1.find?
      fun clock => clock.period = other).any (fun clock => clock.scheduled) = true := by
  induction clocks generalizing position with
  | nil => cases h
  | cons clock rest ih =>
    by_cases hperiod : clock.period = period
    · have hregister : (clock.register id handler timeline).1.period = clock.period ∧
          (clock.scheduled = true → (clock.register id handler timeline).1.scheduled = true) := by
        unfold Clock.register
        dsimp only
        split
        · exact ⟨rfl, fun h => h⟩
        · exact ⟨rfl, fun _ => rfl⟩
      simp only [registerIn, hperiod, ↓reduceIte]
      by_cases hother : clock.period = other
      · simp only [List.find?_cons, hother, decide_true, Option.any_some] at h
        simp [hregister.1, hother, hregister.2 h]
      · simpa [hregister.1, hother] using h
    · simp only [registerIn, hperiod, ↓reduceIte]
      by_cases hother : clock.period = other
      · simpa [hother] using h
      · simp only [List.find?_cons, hother, decide_false] at h ⊢
        exact ih h

theorem unregister_period_scheduled (clock : Clock κ) (id : HandlerId) :
    (clock.unregister id).period = clock.period ∧
      (clock.unregister id).scheduled = clock.scheduled := by
  unfold Clock.unregister
  split <;> exact ⟨rfl, rfl⟩

theorem isScheduled_applyOne {set : ClockSet κ} {timeline : Timeline π} {period : Period}
    (h : set.isScheduled period = true) (request : ClockRequest κ) :
    (applyOne (set, timeline) request).1.isScheduled period = true := by
  cases request with
  | register id other handler => exact find?_registerIn h
  | unregister handle =>
    let kept : Clock κ → Clock κ := fun clock =>
      if clock.period.factor = handle.factor then clock.unregister handle.handler else clock
    have hkept : ∀ clock, (kept clock).period = clock.period ∧
        (kept clock).scheduled = clock.scheduled := by
      intro clock
      dsimp only [kept]
      split
      · exact unregister_period_scheduled clock handle.handler
      · exact ⟨rfl, rfl⟩
    have hmap : (((set.clocks.map kept).find? fun clock => clock.period = period).any
        fun clock => clock.scheduled) = true := by
      simp only [List.find?_map, Function.comp_def, hkept, Option.any_map]
      exact h
    cases hget : set.get? handle.factor with
    | none =>
      simp only [applyOne, unregister, hget]
      exact h
    | some clock =>
      simp only [applyOne, unregister, hget]
      exact hmap

theorem overflowsOn_applyOne {set : ClockSet κ} (timeline : Timeline π) {now : Time}
    (first : ClockRequest κ) {request : ClockRequest κ} (h : set.overflowsOn now request = false) :
    (applyOne (set, timeline) first).1.overflowsOn now request = false := by
  cases request with
  | register id period handler =>
    simp only [overflowsOn, Bool.and_eq_false_iff, Bool.not_eq_false'] at h ⊢
    exact h.imp_left fun hscheduled => isScheduled_applyOne hscheduled first
  | unregister handle => rfl

/-- Requests queue clock activities and leave the rest of a timeline alone. -/
theorem apply_eq (set : ClockSet κ) (requests : ClockRequests κ) (now : Time) (priority : Int) :
    ∃ (set' : ClockSet κ) (starts : List (Scheduled π)),
      (∀ a ∈ starts, a.IsTick now (set.overflows requests now = false)) ∧
      ∀ timeline : Timeline π, timeline.now = now → timeline.priority = priority →
        set.apply requests timeline =
          (set', { requests with queued := [] }, timeline.addAll starts) := by
  suffices h : ∃ (set' : ClockSet κ) (starts : List (Scheduled π)),
      (∀ a ∈ starts, a.IsTick now
        (∀ request ∈ requests.queued, set.overflowsOn now request = false)) ∧
      ∀ timeline : Timeline π, timeline.now = now → timeline.priority = priority →
        requests.queued.foldl applyOne (set, timeline) = (set', timeline.addAll starts) by
    obtain ⟨set', starts, hstarts, heq⟩ := h
    refine ⟨set', starts, fun a ha => (hstarts a ha).imp ?_, ?_⟩
    · intro hsafe request hrequest
      exact Bool.not_eq_true _ ▸ List.any_eq_false.mp hsafe request hrequest
    · intro timeline hnow hpriority
      simp only [apply, heq timeline hnow hpriority]
  induction requests.queued generalizing set with
  | nil => exact ⟨set, [], by simp, fun _ _ _ => rfl⟩
  | cons request rest ih =>
    obtain ⟨first, starts, hstarts, hfirst⟩ := applyOne_eq (π := π) set request now priority
    obtain ⟨set', others, hothers, hrest⟩ := ih first
    refine ⟨set', starts ++ others, ?_, ?_⟩
    · intro a ha
      rcases List.mem_append.mp ha with ha | ha
      · exact (hstarts a ha).imp fun hsafe => hsafe request (List.mem_cons_self ..)
      · refine (hothers a ha).imp fun hsafe later hlater => ?_
        have hlast := hfirst { now, priority } rfl rfl
        have := overflowsOn_applyOne ({ now, priority } : Timeline π) request
          (hsafe later (List.mem_cons_of_mem _ hlater))
        rwa [hlast] at this
    · intro timeline hnow hpriority
      rw [List.foldl_cons, hfirst timeline hnow hpriority,
        hrest _ (by simpa using hnow) (by simpa using hpriority), Timeline.addAll_append]

end ClockSet

/-! ## Firing -/

theorem callAll_panics {tick : Tick κ σ π} {cycle : Nat} {entry : Attached κ}
    {ctx ctx' : Context κ σ π}
    (h : (tick entry.handler cycle ctx.view).run ctx = (ctx', none)) (rest : List (Attached κ)) :
    callAll tick cycle (entry :: rest) ctx = (ctx', none) := by
  simp only [callAll, h]

/-- After a handler that returns the others are called, and it is put with those that stay or with
those that go. -/
theorem callAll_returns {tick : Tick κ σ π} {cycle : Nat} {entry : Attached κ}
    {ctx ctx' : Context κ σ π} {next : Option κ}
    (h : (tick entry.handler cycle ctx.view).run ctx = (ctx', some next))
    (rest : List (Attached κ)) :
    callAll tick cycle (entry :: rest) ctx =
      ((callAll tick cycle rest ctx').1,
        (callAll tick cycle rest ctx').2.map fun (staying, going) =>
          match next with
          | some handler =>
            ({ entry with handler, calls := entry.calls + 1 } :: staying, going)
          | none => (staying, { entry with calls := entry.calls + 1 } :: going)) := by
  simp only [callAll, h]
  obtain ⟨last, lists⟩ := callAll tick cycle rest ctx'
  cases lists with
  | none => rfl
  | some lists => cases next <;> rfl

/-- The reply of all handlers of a clock, called one after another. -/
def callReplies (tick : Tick κ σ π) (cycle : Nat) : List (Attached κ) → Desk κ σ →
    Reply κ σ π (List (Attached κ) × List (Attached κ))
  | [], desk => ⟨[], desk.requests, desk.state, some ([], [])⟩
  | entry :: rest, desk =>
    let called := { entry with calls := entry.calls + 1 }
    let first := (tick entry.handler cycle desk.view).reply desk
    match first.value with
    | none => { first with value := none }
    | some next =>
      let others := callReplies tick cycle rest
        { desk with requests := first.requests, state := first.state }
      { others with
        sends := first.sends ++ others.sends
        value := others.value.map fun (staying, going) =>
          match next with
          | some handler => ({ called with handler } :: staying, going)
          | none => (staying, called :: going) }

theorem made_callReplies (tick : Tick κ σ π) (cycle : Nat) (handlers : List (Attached κ))
    (desk : Desk κ σ) : ∀ s ∈ (callReplies tick cycle handlers desk).sends, desk.Made s := by
  induction handlers generalizing desk with
  | nil => simp [callReplies]
  | cons entry rest ih =>
    intro s hs
    simp only [callReplies] at hs
    split at hs
    · exact Program.made_reply _ _ s hs
    · rcases List.mem_append.mp hs with hs | hs
      · exact Program.made_reply _ _ s hs
      · have h := ih _ s hs
        exact ⟨h.source, h.route, h.sentAt, h.wired, h.reach⟩

theorem Context.after_after {α β : Type} (ctx : Context κ σ π) (first : Reply κ σ π α)
    (second : Reply κ σ π β) :
    (ctx.after first).after second =
      ctx.after { second with sends := first.sends ++ second.sends } := by
  simp [Context.after, Context.carry, Sent.kept_append, Timeline.addAll_append,
    Sent.postAll_append]

theorem callAll_eq (tick : Tick κ σ π) (cycle : Nat) (handlers : List (Attached κ))
    (ctx : Context κ σ π) :
    callAll tick cycle handlers ctx =
      (ctx.after (callReplies tick cycle handlers ctx.desk),
        (callReplies tick cycle handlers ctx.desk).value) := by
  induction handlers generalizing ctx with
  | nil => rfl
  | cons entry rest ih =>
    simp only [callAll, callReplies, Context.view_eq, Program.run_eq]
    cases hvalue : ((tick entry.handler cycle ctx.desk.view).reply ctx.desk).value with
    | none => rfl
    | some next =>
      simp only
      rw [ih, Context.desk_after]
      have hafter := Context.after_after ctx
        ((tick entry.handler cycle ctx.desk.view).reply ctx.desk)
        (callReplies tick cycle rest
          { ctx.desk with
            requests := ((tick entry.handler cycle ctx.desk.view).reply ctx.desk).requests
            state := ((tick entry.handler cycle ctx.desk.view).reply ctx.desk).state })
      rw [hafter]
      cases hothers : (callReplies tick cycle rest
          { ctx.desk with
            requests := ((tick entry.handler cycle ctx.desk.view).reply ctx.desk).requests
            state := ((tick entry.handler cycle ctx.desk.view).reply ctx.desk).state }).value with
      | none => rfl
      | some lists => cases next <;> rfl

/-- The reply of a clock that fires: its value is the clock afterwards, and its next turn if it
still has handlers. -/
def Clock.firing (tick : Tick κ σ π) (clock : Clock κ) (desk : Desk κ σ) :
    Reply κ σ π (Clock κ × List (Scheduled π)) :=
  if clock.handlers.isEmpty then
    ⟨[], desk.requests, desk.state, some ({ clock with scheduled := false }, [])⟩
  else
    let reply := callReplies tick clock.nextCycle clock.handlers desk
    { reply with
      value := reply.value.map fun (staying, going) =>
        let fired :=
          { clock with
            cycle := clock.nextCycle
            handlers := staying
            retired := clock.retired ++ going }
        if staying.isEmpty then ({ fired with scheduled := false }, [])
        else
          (fired, [{
            time := desk.now.after clock.period.factor
            priority := clock.config.priority
            payload := .clock clock.id }]) }

theorem Clock.made_firing (tick : Tick κ σ π) (clock : Clock κ) (desk : Desk κ σ) :
    ∀ s ∈ (clock.firing tick desk).sends, desk.Made s := by
  unfold Clock.firing
  split
  · simp
  · exact made_callReplies tick clock.nextCycle clock.handlers desk

theorem Clock.isTick_firing {tick : Tick κ σ π} {clock clock' : Clock κ} {desk : Desk κ σ}
    {again : List (Scheduled π)} (h : (clock.firing tick desk).value = some (clock', again)) :
    ∀ a ∈ again, a.IsTick desk.now True := by
  unfold Clock.firing at h
  split at h
  · simp only [Option.some.injEq, Prod.mk.injEq] at h
    simp [← h.2]
  · obtain ⟨⟨staying, going⟩, _, heq⟩ := Option.map_eq_some_iff.mp h
    dsimp only at heq
    split at heq
    · simp only [Prod.mk.injEq] at heq
      simp [← heq.2]
    · simp only [Prod.mk.injEq] at heq
      intro a ha
      rw [← heq.2] at ha
      obtain rfl := List.mem_singleton.mp ha
      exact ⟨fun _ => Time.le_after _ _, clock.id, rfl⟩

def ClockSet.afterFiring (set : ClockSet κ) (id : ClockId) (clock : Clock κ) : ClockSet κ :=
  { set with clocks := set.clocks.set id clock, fired := set.fired + 1 }

/-- A context after the reply of a clock that fires, with its next turn queued behind the sends. -/
def Context.afterFiring (ctx : Context κ σ π) (reply : Reply κ σ π (Clock κ × List (Scheduled π))) :
    Context κ σ π × Option (Clock κ) :=
  match reply.value with
  | none => (ctx.after reply, none)
  | some (clock, again) =>
    ({ ctx.after reply with timeline := (ctx.after reply).timeline.addAll again }, some clock)

theorem Clock.fire_eq (tick : Tick κ σ π) (clock : Clock κ) (ctx : Context κ σ π) :
    clock.fire tick ctx = ctx.afterFiring (clock.firing tick ctx.desk) := by
  unfold Clock.fire Clock.firing
  split
  · rfl
  · rw [callAll_eq]
    generalize callReplies tick clock.nextCycle clock.handlers ctx.desk = reply
    obtain ⟨sends, requests, state, value⟩ := reply
    cases value with
    | none => rfl
    | some lists =>
      simp only [Option.map_some]
      split
      · rfl
      · have hnow : (ctx.after ⟨sends, requests, state, some lists⟩).timeline.now =
            ctx.desk.now :=
          congrArg Desk.now (ctx.desk_after _)
        rw [hnow]
        rfl

theorem ClockSet.fire_eq (tick : Tick κ σ π) {set : ClockSet κ} {id : ClockId} {clock : Clock κ}
    (h : set.clocks[id]? = some clock) (ctx : Context κ σ π) :
    set.fire tick id ctx =
      ((ctx.afterFiring (clock.firing tick ctx.desk)).1,
        (ctx.afterFiring (clock.firing tick ctx.desk)).2.map (set.afterFiring id)) := by
  simp only [fire, h, Clock.fire_eq]
  obtain ⟨ctx', clock'⟩ := ctx.afterFiring (clock.firing tick ctx.desk)
  cases clock' <;> rfl

end Lookahead
