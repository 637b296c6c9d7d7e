import Lookahead.Proofs.Course

/-!
Dispatches and clocks.

A dispatch that fires a clock takes the one turn that the clock has, calls the handlers with the
next cycle, and queues the next turn one period later as long as anyone stays. No other clock is
touched before the requests of the handlers are carried out (`ClockSet.Regular.upkeep`).
-/

namespace Lookahead

variable {κ σ π : Type} {M : Model} {safe : Prop}

/-! ## Calls -/

/-- A call of a handler that is on a clock. -/
structure Called (κ : Type) where
  entry : Attached κ
  cycle : Nat
  view : View

/-- The calls of handlers one after another, up to the first that panics. -/
def calls (tick : Tick κ σ π) (cycle : Nat) : List (Attached κ) → Context κ σ π → List (Called κ)
  | [], _ => []
  | entry :: rest, ctx =>
    ⟨entry, cycle, ctx.view⟩ ::
      match (tick entry.handler cycle ctx.view).run ctx with
      | (_, none) => []
      | (ctx, some _) => calls tick cycle rest ctx

theorem cycle_of_mem_calls {tick : Tick κ σ π} {cycle : Nat} {handlers : List (Attached κ)}
    {ctx : Context κ σ π} {c : Called κ} (h : c ∈ calls tick cycle handlers ctx) :
    c.cycle = cycle := by
  induction handlers generalizing ctx with
  | nil => cases h
  | cons entry rest ih =>
    rcases List.mem_cons.mp h with rfl | h
    · rfl
    · generalize (tick entry.handler cycle ctx.view).run ctx = result at h
      obtain ⟨ctx', next⟩ := result
      cases next with
      | none => cases h
      | some next => exact ih h

/-- Nobody is called out of turn. -/
theorem calls_prefix (tick : Tick κ σ π) (cycle : Nat) (handlers : List (Attached κ))
    (ctx : Context κ σ π) :
    (calls tick cycle handlers ctx).map Called.entry <+: handlers := by
  induction handlers generalizing ctx with
  | nil => exact List.prefix_rfl
  | cons entry rest ih =>
    rw [calls, List.map_cons]
    refine List.cons_prefix_cons.mpr ⟨rfl, ?_⟩
    generalize (tick entry.handler cycle ctx.view).run ctx = result
    obtain ⟨ctx', next⟩ := result
    cases next with
    | none => exact List.nil_prefix
    | some next => exact ih ctx'

theorem calls_of_callAll {tick : Tick κ σ π} {cycle : Nat} {handlers : List (Attached κ)}
    {ctx : Context κ σ π} (h : (callAll tick cycle handlers ctx).2 ≠ none) :
    (calls tick cycle handlers ctx).map Called.entry = handlers := by
  induction handlers generalizing ctx with
  | nil => rfl
  | cons entry rest ih =>
    rw [calls, List.map_cons]
    simp only [callAll] at h
    generalize (tick entry.handler cycle ctx.view).run ctx = result at h ⊢
    obtain ⟨ctx', next⟩ := result
    cases next with
    | none => exact absurd rfl h
    | some next =>
      refine congrArg (entry :: ·) (ih fun hnone => h ?_)
      dsimp only
      generalize callAll tick cycle rest ctx' = others at hnone
      obtain ⟨ctx'', lists⟩ := others
      obtain rfl : lists = none := hnone
      rfl

/-! ## Firings -/

namespace Clock

variable {tick : Tick κ σ π} {clock clock' : Clock κ} {desk : Desk κ σ}
  {again : List (Scheduled π)}

/-- What a firing leaves: a clock that nobody is on any more, or one with a turn one period later.
-/
theorem firing_cases (h : (clock.firing tick desk).value = some (clock', again)) :
    clock'.id = clock.id ∧ clock'.period = clock.period ∧ clock'.config = clock.config ∧
      ((clock'.handlers = [] ∧ clock'.scheduled = false ∧ again = []) ∨
        (clock'.handlers ≠ [] ∧ clock'.scheduled = clock.scheduled ∧
          clock'.cycle = clock.nextCycle ∧
          again = [clock'.turn (desk.now.after clock.period.factor)])) := by
  unfold firing at h
  split at h
  · rename_i hempty
    simp only [Option.some.injEq, Prod.mk.injEq] at h
    obtain ⟨rfl, rfl⟩ := h
    exact ⟨rfl, rfl, rfl, Or.inl ⟨List.isEmpty_iff.mp hempty, rfl, rfl⟩⟩
  · obtain ⟨⟨staying, going⟩, _, heq⟩ := Option.map_eq_some_iff.mp h
    dsimp only at heq
    split at heq
    · rename_i hempty
      simp only [Prod.mk.injEq] at heq
      obtain ⟨rfl, rfl⟩ := heq
      exact ⟨rfl, rfl, rfl, Or.inl ⟨List.isEmpty_iff.mp hempty, rfl, rfl⟩⟩
    · rename_i hstay
      simp only [Prod.mk.injEq] at heq
      obtain ⟨rfl, rfl⟩ := heq
      exact ⟨rfl, rfl, rfl, Or.inr ⟨fun hnone => hstay (by simpa using hnone), rfl, rfl, rfl⟩⟩

/-- A clock fires at a multiple of its period, and so it does the next time. -/
theorem dvd_after {now : Time} {factor : Nat} (h : now < Time.never → factor ∣ now.ticks)
    (hafter : now.after factor < Time.never) : factor ∣ (now.after factor).ticks := by
  simp only [Time.lt_def, Time.ticks_after, Time.ticks_never] at h hafter ⊢
  rw [Nat.min_eq_left (by omega)]
  exact Nat.dvd_add (h (by omega)) (Nat.dvd_refl factor)

/-- A clock that has fired is in its place again once its turn is queued, and has touched no other.
-/
theorem InPlace.fired {timeline timeline' : Timeline π} {config : ClockConfig} {place : ClockId}
    {now : Time} (h : clock.InPlace safe timeline config place)
    (hturn : timeline.turns place = [clock.turn now])
    (hvalue : (clock.firing tick desk).value = some (clock', again)) (hnow : desk.now = now)
    (hnone : timeline'.turns place = []) :
    clock'.InPlace safe (timeline'.addAll again) config place ∧
      ((clock'.handlers = [] ∧ clock'.scheduled = false) ∨
        (clock'.handlers ≠ [] ∧ clock'.scheduled = true ∧ clock'.cycle = clock.nextCycle ∧
          (timeline'.addAll again).turns place =
            [clock'.turn (now.after clock.period.factor)])) ∧
      ∀ other, other ≠ place → (timeline'.addAll again).turns other = timeline'.turns other := by
  have hscheduled : clock.scheduled = true := by
    cases hscheduled : clock.scheduled with
    | true => rfl
    | false =>
      rw [h.dormant hscheduled] at hturn
      cases hturn
  obtain ⟨hid, hperiod, hconfig, hcases⟩ := firing_cases hvalue
  rw [hnow] at hcases
  rcases hcases with ⟨hhandlers, hdormant, rfl⟩ | ⟨hhandlers, hkept, hcycle, rfl⟩
  · exact ⟨{
      id := hid.trans h.id
      config := hconfig.trans h.config
      awake := fun hawake => absurd hhandlers hawake
      dormant := fun _ => hnone
      queued := by
        intro hqueued
        rw [hdormant] at hqueued
        cases hqueued }, Or.inl ⟨hhandlers, hdormant⟩, fun _ _ => rfl⟩
  · have hplace : (clock'.turn (now.after clock.period.factor) : Scheduled π).payload.clock? =
        some place := by rw [← h.id, ← hid]; rfl
    have hnext : (timeline'.addAll [clock'.turn (now.after clock.period.factor)]).turns place =
        [clock'.turn (now.after clock.period.factor)] := timeline'.turns_add hplace hnone
    refine ⟨{
      id := hid.trans h.id
      config := hconfig.trans h.config
      awake := fun _ => hkept.trans hscheduled
      dormant := by
        intro hdormant
        rw [hkept, hscheduled] at hdormant
        cases hdormant
      queued := by
        intro _
        refine ⟨_, hnext, ?_⟩
        obtain ⟨time, htime, hdvd⟩ := h.queued hscheduled
        rw [hturn] at htime
        obtain rfl : now = time := congrArg Activity.time (List.singleton_inj.mp htime)
        rw [hperiod]
        exact fun hsafe => dvd_after (hdvd hsafe) },
        Or.inr ⟨hhandlers, hkept.trans hscheduled, hcycle, hnext⟩, ?_⟩
    intro other hother
    exact timeline'.turns_add_of_ne (by
      rw [hplace]
      exact fun heq => hother (Option.some.inj heq).symm)

end Clock

/-! ## Dispatches -/

namespace Dispatch

def calls (d : Dispatch M) : List (Called M.Ticker) :=
  match d.activity.payload with
  | .clock id =>
    match d.partition.clocks.clocks[id]? with
    | some clock => Lookahead.calls M.tick clock.nextCycle clock.handlers d.partition.context
    | none => []
  | _ => []

/-- The clocks once all handlers of a dispatch are done, before their requests are carried out. -/
def fired? (d : Dispatch M) : Option (ClockSet M.Ticker) :=
  match d.activity.payload with
  | .clock id => (d.partition.clocks.fire M.tick id d.partition.context).2
  | _ => some d.partition.clocks

/-- What a dispatch that does not fail makes of clocks and timeline before the requests of its
handlers are carried out. -/
inductive Fires (d : Dispatch M) : ClockSet M.Ticker → Timeline M.Payload → Prop
  | other (sent : List (Scheduled M.Payload))
      (hclock : ∀ id clock, d.activity.payload = .clock id →
        d.partition.clocks.clocks[id]? ≠ some clock)
      (hsent : ∀ a ∈ sent, a.payload.clock? = none) :
      Fires d d.partition.clocks (d.partition.timeline.addAll sent)
  | clock (id : ClockId) (clock clock' : Clock M.Ticker) (again sent : List (Scheduled M.Payload))
      (hpayload : d.activity.payload = .clock id)
      (hclock : d.partition.clocks.clocks[id]? = some clock)
      (hvalue : (clock.firing M.tick d.desk).value = some (clock', again))
      (hsent : ∀ a ∈ sent, a.payload.clock? = none) :
      Fires d
        { d.partition.clocks with
          clocks := d.partition.clocks.clocks.set id clock'
          fired := d.partition.clocks.fired + 1 }
        ((d.partition.timeline.addAll sent).addAll again)

theorem clock?_of_mem_kept {sends : List (Sent π)} {a : Scheduled π} (h : a ∈ Sent.kept sends) :
    a.payload.clock? = none := by
  obtain ⟨s, _, _, rfl⟩ := Sent.mem_kept.mp h
  rfl

theorem Exact.overflows_eq_false {d : Dispatch M} (hexact : d.Exact) {p : Partition M}
    (hrequested : d.partition.inside.requested? d.partition.timeline.now
      d.partition.timeline.priority d.activity.payload = some (p.clocks, p.requests))
    (hnow : p.timeline.now = d.partition.timeline.now)
    (h : M.overflow = .panics → p.overflows = false) : p.overflows = false := by
  rcases hexact with hpanics | hexact
  · exact h hpanics
  · unfold Inside.overflows at hexact
    rw [hrequested, Option.any_some] at hexact
    unfold Partition.overflows
    rwa [hnow]

/-- `set` and `timeline` are what the handlers of a dispatch have left, and `r` is what carrying out
their requests makes of that. -/
structure Carries (d : Dispatch M) (set : ClockSet M.Ticker) (timeline : Timeline M.Payload)
    (r : Partition M) : Prop where
  fired : d.fired? = some set
  fires : d.Fires set timeline
  applied : ∃ requests, (d.Exact → set.overflows requests timeline.now = false) ∧
    r.clocks = (set.apply requests timeline).1 ∧ r.timeline = (set.apply requests timeline).2.2

section Carries

variable {d : Dispatch M} {r : Partition M}

theorem exists_carries_rest (hrest : d.activity.payload.isWork = false) (h : d.after? = some r) :
    ∃ set timeline, d.Carries set timeline r := by
  have hclock : ∀ id, d.activity.payload ≠ .clock id := by
    intro id hid
    rw [hid] at hrest
    cases hrest
  rw [after?_of_rest hrest] at h
  cases h
  refine ⟨_, _, ?_, .other [] (fun id _ hid => absurd hid (hclock id)) (by simp), {}, fun _ => rfl,
    rfl, rfl⟩
  unfold fired?
  split
  · rename_i id hid
    exact absurd hid (hclock id)
  · rfl

theorem exists_carries_deliver {event : Event M.Payload}
    (hpayload : d.activity.payload = .deliver event) (h : d.after? = some r) :
    ∃ set timeline, d.Carries set timeline r := by
  unfold after? at h
  rw [hpayload, Partition.act] at h
  rcases d.partition.deliver_cases event with
    ⟨_, _, hfail⟩ | ⟨receiver, next, ctx, hreceiver, hrun, hpanics, hdispatch⟩
  · rw [hfail] at h
    cases h
  rw [hdispatch] at h
  cases h
  rw [Program.run_eq] at hrun
  generalize hreply : (M.receive receiver event d.partition.context.view).reply
    d.partition.context.desk = reply at hrun
  obtain ⟨sends, requests, state, value⟩ := reply
  obtain ⟨rfl, rfl⟩ := Prod.mk.inj hrun
  have hreceiver' : d.partition.inside.receivers[event.link]? = some (some receiver) := hreceiver
  have hreply' : (M.receive receiver event (d.partition.inside.desk
      d.partition.timeline.now d.partition.timeline.priority).view).reply
      (d.partition.inside.desk d.partition.timeline.now d.partition.timeline.priority) =
        ⟨sends, requests, state, some (.ok next)⟩ := hreply
  have hahead := fun hexact : d.Exact => hexact.overflows_eq_false (by
    simp only [Inside.requested?, hpayload, hreceiver', hreply']
    rfl) (Timeline.now_addAll ..) hpanics
  exact ⟨_, _, by simp [fired?, hpayload], .other (Sent.kept sends) (by simp [hpayload])
    fun a => clock?_of_mem_kept, requests, hahead, rfl, rfl⟩

theorem exists_carries_clock {id : ClockId} (hpayload : d.activity.payload = .clock id)
    (h : d.after? = some r) : ∃ set timeline, d.Carries set timeline r := by
  unfold after? at h
  rw [hpayload, Partition.act] at h
  rcases d.partition.fire_cases id with
    ⟨_, _, hfail⟩ | ⟨ctx, clocks, hfire, hpanics, hdispatch⟩
  · rw [hfail] at h
    cases h
  rw [hdispatch] at h
  cases h
  cases hclock : d.partition.clocks.clocks[id]? with
  | none =>
    have hclock' : d.partition.inside.clocks.clocks[id]? = none := hclock
    simp only [ClockSet.fire, hclock] at hfire
    cases hfire
    have hahead := fun hexact : d.Exact => hexact.overflows_eq_false (by
      simp only [Inside.requested?, hpayload, hclock']
      rfl) rfl hpanics
    refine ⟨_, _, by simp [fired?, ClockSet.fire, hpayload, hclock], .other [] ?_ (by simp),
      d.partition.requests, hahead, rfl, rfl⟩
    intro other clock hother
    rw [hpayload] at hother
    cases hother
    simp [hclock]
  | some clock =>
    have hclock' : d.partition.inside.clocks.clocks[id]? = some clock := hclock
    simp only [ClockSet.fire, hclock, Clock.fire_eq] at hfire
    generalize hreply : clock.firing M.tick d.partition.context.desk = reply at hfire
    obtain ⟨sends, requests, state, value⟩ := reply
    cases value with
    | none => cases hfire
    | some result =>
      obtain ⟨clock', again⟩ := result
      dsimp only [Context.afterFiring] at hfire
      cases hfire
      have hvalue : clock.firing M.tick d.desk =
          ⟨sends, requests, state, some (clock', again)⟩ := hreply
      have hdesk : clock.firing M.tick (d.partition.inside.desk
          d.partition.timeline.now d.partition.timeline.priority) =
            ⟨sends, requests, state, some (clock', again)⟩ := hreply
      have hahead := fun hexact : d.Exact => hexact.overflows_eq_false (by
        simp only [Inside.requested?, hpayload, hclock', hdesk]
        rfl) ((Timeline.now_addAll ..).trans (Timeline.now_addAll ..)) hpanics
      refine ⟨_, _, ?_, .clock id clock clock' again (Sent.kept sends) hpayload hclock
        (by rw [hvalue]) fun a => clock?_of_mem_kept, requests, hahead, rfl, rfl⟩
      simp only [fired?, hpayload, ClockSet.fire, hclock, Clock.fire_eq, hreply]
      rfl

end Carries

/-- Everything that a dispatch does to clocks: it may fire one, and then it carries out requests. -/
theorem exists_carries {d : Dispatch M} {r : Partition M} (h : d.after? = some r) :
    ∃ set timeline, d.Carries set timeline r := by
  cases hpayload : d.activity.payload with
  | sync => exact exists_carries_rest (by rw [hpayload]; rfl) h
  | stop => exact exists_carries_rest (by rw [hpayload]; rfl) h
  | deliver event => exact exists_carries_deliver hpayload h
  | clock id => exact exists_carries_clock hpayload h

end Dispatch

/-! ## Upkeep -/

/-- How clocks and timeline stand when the handlers of a dispatch of `q` are done, before their
requests are carried out. -/
structure Dispatch.Leaves (d : Dispatch M) (q : Partition M) (safe : Prop)
    (set : ClockSet M.Ticker) (timeline : Timeline M.Payload) : Prop where
  now : timeline.now = d.activity.time
  priority : timeline.priority = d.activity.priority
  config : set.config = q.clocks.config
  periods : set.periods = q.clocks.periods
  others : ∀ id, d.activity.payload.clock? ≠ some id →
    set.clocks[id]? = q.clocks.clocks[id]? ∧ timeline.turns id = q.timeline.turns id
  own : ∀ id clock, d.activity.payload.clock? = some id → q.clocks.clocks[id]? = some clock →
    ∃ clock', set.clocks[id]? = some clock' ∧ clock'.period = clock.period ∧
      ((clock'.handlers = [] ∧ clock'.scheduled = false) ∨
        (clock'.handlers ≠ [] ∧ clock'.scheduled = true ∧ clock'.cycle = clock.nextCycle ∧
          timeline.turns id = [clock'.turn (d.activity.time.after clock.period.factor)]))
  regular : set.Regular safe timeline

namespace ClockSet.Regular

variable {q r : Partition M} {d : Dispatch M} {id : ClockId} {set : ClockSet M.Ticker}
  {timeline : Timeline M.Payload}

theorem clocks_of_next? (hnext : q.next? = some d) : d.partition.clocks = q.clocks := by
  obtain ⟨timeline, _, hpartition⟩ := Partition.next?_eq_some_iff.mp hnext
  rw [hpartition]

theorem turns_of_next? (hnext : q.next? = some d) (id : ClockId) :
    q.timeline.turns id =
      (if d.activity.payload.clock? = some id then [d.activity.unnumbered] else []) ++
        d.partition.timeline.turns id := by
  obtain ⟨timeline, hadvance, hpartition⟩ := Partition.next?_eq_some_iff.mp hnext
  rw [Timeline.turns_of_advance hadvance id, hpartition]

theorem turn_of_next? (h : q.clocks.Regular safe q.timeline) (hnext : q.next? = some d)
    (hclock : d.activity.payload.clock? = some id) :
    ∃ clock, q.clocks.clocks[id]? = some clock ∧ clock.scheduled = true ∧
      q.timeline.turns id = [clock.turn d.activity.time] ∧
      d.activity.priority = clock.config.priority ∧ d.partition.timeline.turns id = [] := by
  have hturns := turns_of_next? hnext id
  rw [if_pos hclock, List.singleton_append] at hturns
  rcases Nat.lt_or_ge id q.clocks.clocks.length with hlt | hge
  · have hclock' := List.getElem?_eq_getElem hlt
    have hplace := h.each id _ hclock'
    cases hscheduled : (q.clocks.clocks[id]).scheduled with
    | false =>
      rw [hplace.dormant hscheduled] at hturns
      cases hturns
    | true =>
      obtain ⟨time, htime, _⟩ := hplace.queued hscheduled
      rw [htime] at hturns
      obtain ⟨hturn, hnone⟩ := List.cons_eq_cons.mp hturns
      obtain rfl : time = d.activity.time := congrArg Activity.time hturn
      exact ⟨_, hclock', hscheduled, htime, congrArg Activity.priority hturn.symm, hnone.symm⟩
  · rw [h.known id hge] at hturns
    cases hturns

theorem leaves_other (h : q.clocks.Regular safe q.timeline) (hnext : q.next? = some d)
    (hclock : ∀ id clock, d.activity.payload = .clock id →
      d.partition.clocks.clocks[id]? ≠ some clock)
    {sent : List (Scheduled M.Payload)} (hsent : ∀ a ∈ sent, a.payload.clock? = none) :
    d.Leaves q safe d.partition.clocks (d.partition.timeline.addAll sent) := by
  obtain ⟨_, hnow, hpriority⟩ := Partition.agenda_of_next? hnext
  have hnobody : ∀ other, d.activity.payload.clock? ≠ some other := by
    intro other hother
    obtain ⟨clock, hfound, _⟩ := h.turn_of_next? hnext hother
    rw [← clocks_of_next? hnext] at hfound
    exact hclock other clock (Action.clock?_eq_some.mp hother) hfound
  have hkept : ∀ other, (d.partition.timeline.addAll sent).turns other =
      q.timeline.turns other := by
    intro other
    rw [Timeline.turns_addAll _ fun a ha => by rw [hsent a ha]; exact nofun,
      turns_of_next? hnext other, if_neg (hnobody other)]
    rfl
  rw [clocks_of_next? hnext]
  exact {
    now := by rw [Timeline.now_addAll, hnow]
    priority := by rw [Timeline.priority_addAll, hpriority]
    config := rfl
    periods := rfl
    others := fun other _ => ⟨rfl, hkept other⟩
    own := fun id _ hid => absurd hid (hnobody id)
    regular := h.of_turns hkept }

theorem leaves_clock (h : q.clocks.Regular safe q.timeline) (hnext : q.next? = some d)
    {clock clock' : Clock M.Ticker} {again sent : List (Scheduled M.Payload)}
    (hpayload : d.activity.payload = .clock id)
    (hclock : d.partition.clocks.clocks[id]? = some clock)
    (hvalue : (clock.firing M.tick d.desk).value = some (clock', again))
    (hsent : ∀ a ∈ sent, a.payload.clock? = none) :
    d.Leaves q safe
      { d.partition.clocks with
        clocks := d.partition.clocks.clocks.set id clock'
        fired := d.partition.clocks.fired + 1 }
      ((d.partition.timeline.addAll sent).addAll again) := by
  obtain ⟨_, hnow, hpriority⟩ := Partition.agenda_of_next? hnext
  have hid : d.activity.payload.clock? = some id := Action.clock?_eq_some.mpr hpayload
  rw [clocks_of_next? hnext] at hclock ⊢
  have hplace := h.each id clock hclock
  obtain ⟨c, hc, hscheduled, hturn, _, hnone⟩ := h.turn_of_next? hnext hid
  obtain rfl : clock = c := Option.some.inj (hclock.symm.trans hc)
  have hsent' : ∀ other, (d.partition.timeline.addAll sent).turns other =
      d.partition.timeline.turns other := by
    intro other
    exact Timeline.turns_addAll _ fun a ha => by rw [hsent a ha]; exact nofun
  obtain ⟨hplace', hcases, hothers⟩ := hplace.fired
    hturn hvalue hnow ((hsent' id).trans hnone)
  have hothers' : ∀ other, other ≠ id →
      ((d.partition.timeline.addAll sent).addAll again).turns other = q.timeline.turns other := by
    intro other hother
    have hne : d.activity.payload.clock? ≠ some other := by
      rw [hid]
      exact fun heq => hother (Option.some.inj heq).symm
    rw [hothers other hother, hsent' other, turns_of_next? hnext other, if_neg hne]
    rfl
  obtain ⟨_, hperiod, _, _⟩ := Clock.firing_cases hvalue
  obtain ⟨hregular, hperiods⟩ := h.replace
    { q.clocks with
      clocks := q.clocks.clocks.set id clock'
      fired := q.clocks.fired + 1 }
    ((d.partition.timeline.addAll sent).addAll again) hclock rfl rfl hplace' hperiod hothers'
  exact {
    now := by simp [hnow]
    priority := by simp [hpriority]
    config := rfl
    periods := hperiods
    others := by
      intro other hother
      have hne : other ≠ id := by
        rintro rfl
        exact hother hid
      exact ⟨List.getElem?_set_ne (Ne.symm hne), hothers' other hne⟩
    own := by
      intro other c hother hc
      obtain rfl : id = other := Option.some.inj (hid.symm.trans hother)
      obtain rfl : clock = c := Option.some.inj (hclock.symm.trans hc)
      exact ⟨clock', List.getElem?_set_self (List.getElem?_eq_some_iff.mp hclock).1, hperiod,
        hcases⟩
    regular := hregular }

theorem upkeep (h : q.clocks.Regular safe q.timeline) (hnext : q.next? = some d)
    (hexact : safe → d.Exact) (hafter : d.after? = some r) :
    ∃ set timeline, d.fired? = some set ∧ d.Leaves q safe set timeline ∧
      set.Adjusts safe timeline r.clocks r.timeline ∧ r.clocks.Regular safe r.timeline := by
  obtain ⟨set, timeline, hfired, hfires, requests, hahead, hclocks, htimeline⟩ :=
    Dispatch.exists_carries hafter
  have hleaves : d.Leaves q safe set timeline := by
    cases hfires with
    | other sent hclock hsent => exact h.leaves_other hnext hclock hsent
    | clock id clock clock' again sent hpayload hclock hvalue hsent =>
      exact h.leaves_clock hnext hpayload hclock hvalue hsent
  obtain ⟨hregular, hadjusts⟩ := hleaves.regular.apply fun hsafe => hahead (hexact hsafe)
  rw [← hclocks, ← htimeline] at hregular hadjusts
  exact ⟨set, timeline, hfired, hleaves, hadjusts, hregular⟩

end ClockSet.Regular

end Lookahead
