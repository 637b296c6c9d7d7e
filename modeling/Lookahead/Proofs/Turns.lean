import Lookahead.Proofs.Clock

/-!
Clocks and their turns.

A turn of a clock is an activity that fires it. A clock that is scheduled has exactly one turn
pending, a dormant one has none, and requests keep it that way (`ClockSet.Regular.apply`). They
never touch the turn of a clock that is scheduled; they can only start clocks that are not
(`ClockSet.Adjusts`).
-/

namespace Lookahead

variable {κ σ π : Type} {safe : Prop}

def Action.clock? : Action π → Option ClockId
  | .clock id => some id
  | _ => none

theorem Action.clock?_eq_some {action : Action π} {id : ClockId} :
    action.clock? = some id ↔ action = .clock id := by
  cases action <;> simp [clock?]

/-! ## Turns -/

namespace Timeline

def turns (timeline : Timeline π) (id : ClockId) : List (Scheduled π) :=
  timeline.agenda.filter fun a => a.payload.clock? == some id

theorem turns_addAll (timeline : Timeline π) {added : List (Scheduled π)} {id : ClockId}
    (h : ∀ a ∈ added, a.payload.clock? ≠ some id) :
    (timeline.addAll added).turns id = timeline.turns id := by
  apply filter_agenda_addAll
  intro a ha
  simp [h a ha]

theorem turns_add_of_ne (timeline : Timeline π) {a : Scheduled π} {id : ClockId}
    (h : a.payload.clock? ≠ some id) : (timeline.add a).turns id = timeline.turns id := by
  have hone : ∀ b ∈ [a], b.payload.clock? ≠ some id := by
    intro b hb
    rw [List.mem_singleton.mp hb]
    exact h
  exact timeline.turns_addAll hone

theorem turns_add (timeline : Timeline π) {a : Scheduled π} {id : ClockId}
    (h : a.payload.clock? = some id) (hnone : timeline.turns id = []) :
    (timeline.add a).turns id = [a.unnumbered] := by
  have hperm := (Ordered.place_perm Activity.before a.unnumbered timeline.agenda).filter
    fun a => a.payload.clock? == some id
  have hrest : timeline.agenda.filter (fun a => a.payload.clock? == some id) = [] := hnone
  rw [List.filter_cons, if_pos (by simp [h]), hrest] at hperm
  unfold turns
  rw [agenda_add]
  exact List.perm_singleton.mp hperm

theorem turns_of_advance {timeline next : Timeline π} {a : Scheduled π}
    (h : timeline.advance = .ok (a, next)) (id : ClockId) :
    timeline.turns id =
      (if a.payload.clock? = some id then [a.unnumbered] else []) ++ next.turns id := by
  unfold turns
  rw [(agenda_of_advance h).1, List.filter_cons]
  by_cases hid : a.payload.clock? = some id <;> simp [hid]

theorem countPending_eq (timeline : Timeline π) (id : ClockId) :
    (timeline.countPending fun action => action.clock? == some id) =
      (timeline.turns id).length := by
  unfold countPending turns agenda
  rw [← List.countP_eq_length_filter, List.countP_map]
  rfl

end Timeline

namespace Clock

def turn (clock : Clock κ) (time : Time) : Scheduled π where
  time := time
  priority := clock.config.priority
  payload := .clock clock.id

/-- Two clocks of which only the handlers differ. -/
structure Alike (clock clock' : Clock κ) : Prop where
  id : clock'.id = clock.id
  period : clock'.period = clock.period
  config : clock'.config = clock.config
  scheduled : clock'.scheduled = clock.scheduled
  cycle : clock'.cycle = clock.cycle

theorem Alike.refl (clock : Clock κ) : clock.Alike clock := ⟨rfl, rfl, rfl, rfl, rfl⟩

theorem Alike.trans {clock clock' clock'' : Clock κ} (h : clock.Alike clock')
    (h' : clock'.Alike clock'') : clock.Alike clock'' where
  id := h'.id.trans h.id
  period := h'.period.trans h.period
  config := h'.config.trans h.config
  scheduled := h'.scheduled.trans h.scheduled
  cycle := h'.cycle.trans h.cycle

/-- A clock at its place in a set. It is scheduled if anyone is on it, and it has one turn pending
as long as it is scheduled. If all is `safe` that is a whole number of cycles after the start,
unless it is never. -/
structure InPlace (clock : Clock κ) (safe : Prop) (timeline : Timeline π) (config : ClockConfig)
    (place : ClockId) : Prop where
  id : clock.id = place
  config : clock.config = config
  awake : clock.handlers ≠ [] → clock.scheduled = true
  dormant : clock.scheduled = false → timeline.turns place = []
  queued : clock.scheduled = true → ∃ time, timeline.turns place = [clock.turn time] ∧
    (safe → time < Time.never → clock.period.factor ∣ time.ticks)

/-- A clock that has just been started, where the timeline is and, if all is `safe`, with a boundary
still ahead. -/
structure Begins (clock : Clock κ) (safe : Prop) (timeline : Timeline π) : Prop where
  scheduled : clock.scheduled = true
  ahead : safe → clock.period.overflowsAfter timeline.now = false
  cycle : clock.cycle = clock.period.cyclesAt timeline.now
  turn : timeline.turns clock.id = [clock.turn (clock.firstFiring timeline)]

/-- A clock starts at a whole number of its cycles. -/
theorem dvd_firstFiring (clock : Clock κ) (timeline : Timeline π)
    (h : clock.period.overflowsAfter timeline.now = false) :
    clock.period.factor ∣ (clock.firstFiring timeline).ticks := by
  unfold firstFiring
  dsimp only
  split
  · rename_i hnow
    exact Nat.dvd_of_mod_eq_zero hnow.2.2.2
  · rw [Period.ticks_nextAfter h]
    exact Nat.dvd_mul_left ..

theorem begins_schedule (clock : Clock κ) {timeline : Timeline π}
    (hahead : safe → clock.period.overflowsAfter timeline.now = false)
    (h : timeline.turns clock.id = []) :
    (clock.schedule timeline).1.Begins safe (clock.schedule timeline).2 where
  scheduled := rfl
  ahead := hahead
  cycle := rfl
  turn := timeline.turns_add (a := clock.turn (clock.firstFiring timeline)) rfl h

theorem Begins.inPlace {clock : Clock κ} {timeline : Timeline π} {config : ClockConfig}
    {place : ClockId} (h : clock.Begins safe timeline) (hid : clock.id = place)
    (hconfig : clock.config = config) : clock.InPlace safe timeline config place where
  id := hid
  config := hconfig
  awake _ := h.scheduled
  dormant hdormant := by simp [h.scheduled] at hdormant
  queued _ := ⟨_, by rw [← hid]; exact h.turn,
    fun hsafe _ => clock.dvd_firstFiring timeline (h.ahead hsafe)⟩

theorem Alike.turn {clock clock' : Clock κ} (h : clock.Alike clock') (time : Time) :
    (clock'.turn time : Scheduled π) = clock.turn time := by
  simp [Clock.turn, h.id, h.config]

theorem Alike.firstFiring {clock clock' : Clock κ} {timeline timeline' : Timeline π}
    (h : clock.Alike clock') (hnow : timeline'.now = timeline.now)
    (hpriority : timeline'.priority = timeline.priority) :
    clock'.firstFiring timeline' = clock.firstFiring timeline := by
  simp [Clock.firstFiring, hnow, hpriority, h.period, h.config]

/-- A clock has still just been started when other things have been queued. -/
theorem Begins.congr {clock clock' : Clock κ} {timeline timeline' : Timeline π}
    (h : clock.Begins safe timeline) (halike : clock.Alike clock')
    (hnow : timeline'.now = timeline.now) (hpriority : timeline'.priority = timeline.priority)
    (hturns : timeline'.turns clock.id = timeline.turns clock.id) :
    clock'.Begins safe timeline' where
  scheduled := halike.scheduled.trans h.scheduled
  ahead := by rw [halike.period, hnow]; exact h.ahead
  cycle := by rw [halike.cycle, halike.period, hnow, h.cycle]
  turn := by rw [halike.id, hturns, h.turn, halike.turn, halike.firstFiring hnow hpriority]

theorem InPlace.congr {clock clock' : Clock κ} {timeline timeline' : Timeline π}
    {config : ClockConfig} {place : ClockId} (h : clock.InPlace safe timeline config place)
    (halike : clock.Alike clock') (hawake : clock'.handlers ≠ [] → clock'.scheduled = true)
    (hturns : timeline'.turns place = timeline.turns place) :
    clock'.InPlace safe timeline' config place where
  id := halike.id.trans h.id
  config := halike.config.trans h.config
  awake := hawake
  dormant hdormant := by
    rw [hturns]
    exact h.dormant (halike.scheduled.symm.trans hdormant)
  queued hqueued := by
    obtain ⟨time, hturn, hdvd⟩ := h.queued (halike.scheduled.symm.trans hqueued)
    refine ⟨time, ?_, by rw [halike.period]; exact hdvd⟩
    rw [hturns, hturn, halike.turn]

end Clock

/-! ## Sets of clocks -/

namespace ClockSet

def periods (set : ClockSet κ) : List Period := set.clocks.map fun clock => clock.period

def scheduled (set : ClockSet κ) (id : ClockId) : Bool :=
  set.clocks[id]?.any fun clock => clock.scheduled

/-- Every clock is in its place, no two have one period, and nothing else has a turn. -/
structure Regular (set : ClockSet κ) (safe : Prop) (timeline : Timeline π) : Prop where
  each : ∀ (id : ClockId) (clock : Clock κ), set.clocks[id]? = some clock →
    clock.InPlace safe timeline set.config id
  distinct : set.periods.Nodup
  known : ∀ id : ClockId, set.clocks.length ≤ id → timeline.turns id = []

/-- What requests can make of clocks: each is scheduled as before, or it was not scheduled and
begins here. Clocks are only ever added behind the others. -/
structure Adjusts (set : ClockSet κ) (safe : Prop) (timeline : Timeline π) (set' : ClockSet κ)
    (timeline' : Timeline π) : Prop where
  now : timeline'.now = timeline.now
  priority : timeline'.priority = timeline.priority
  config : set'.config = set.config
  periods : set.periods <+: set'.periods
  each : ∀ (id : ClockId) (clock' : Clock κ), set'.clocks[id]? = some clock' →
    (∃ clock, set.clocks[id]? = some clock ∧ clock.Alike clock' ∧
      timeline'.turns id = timeline.turns id) ∨
    (set.scheduled id = false ∧ clock'.id = id ∧ clock'.Begins safe timeline')

variable {set set' : ClockSet κ} {timeline timeline' : Timeline π} {id : ClockId}
  {clock clock' : Clock κ}

theorem scheduled_of_getElem? (h : set.clocks[id]? = some clock) :
    set.scheduled id = clock.scheduled := by
  simp [scheduled, h]

theorem period_of_getElem? (h : set.clocks[id]? = some clock) :
    set.periods[id]? = some clock.period := by
  simp [periods, h]

/-- Clocks keep their numbers when others are added behind them. -/
theorem period_of_prefix (h : set.periods <+: set'.periods)
    (hclock : set.clocks[id]? = some clock) : set'.periods[id]? = some clock.period := by
  obtain ⟨rest, hrest⟩ := h
  have hfound := period_of_getElem? hclock
  rw [← hrest, List.getElem?_append_left (List.getElem?_eq_some_iff.mp hfound).1]
  exact hfound

theorem Adjusts.exists_clock (h : set.Adjusts safe timeline set' timeline')
    (hclock : set.clocks[id]? = some clock) :
    ∃ clock', set'.clocks[id]? = some clock' ∧ clock'.period = clock.period := by
  have hperiod := period_of_prefix h.periods hclock
  unfold ClockSet.periods at hperiod
  rw [List.getElem?_map] at hperiod
  exact Option.map_eq_some_iff.mp hperiod

theorem Adjusts.of_scheduled (h : set.Adjusts safe timeline set' timeline')
    (hclock : set.clocks[id]? = some clock) (hscheduled : clock.scheduled = true) :
    ∃ clock', set'.clocks[id]? = some clock' ∧ clock.Alike clock' ∧
      timeline'.turns id = timeline.turns id := by
  obtain ⟨clock', hclock', _⟩ := h.exists_clock hclock
  refine ⟨clock', hclock', ?_⟩
  rcases h.each id clock' hclock' with ⟨c, hc, halike, hturns⟩ | ⟨hnone, _⟩
  · rw [hclock] at hc
    cases hc
    exact ⟨halike, hturns⟩
  · rw [scheduled_of_getElem? hclock, hscheduled] at hnone
    cases hnone

/-- Other things are queued. -/
theorem Adjusts.of_turns (hnow : timeline'.now = timeline.now)
    (hpriority : timeline'.priority = timeline.priority)
    (hturns : ∀ id, timeline'.turns id = timeline.turns id) :
    set.Adjusts safe timeline set timeline' where
  now := hnow
  priority := hpriority
  config := rfl
  periods := List.prefix_rfl
  each id clock h := Or.inl ⟨clock, h, .refl clock, hturns id⟩

theorem Adjusts.refl (set : ClockSet κ) (timeline : Timeline π) :
    set.Adjusts safe timeline set timeline :=
  .of_turns rfl rfl fun _ => rfl

theorem Adjusts.trans {set'' : ClockSet κ} {timeline'' : Timeline π}
    (h : set.Adjusts safe timeline set' timeline')
    (h' : set'.Adjusts safe timeline' set'' timeline'') :
    set.Adjusts safe timeline set'' timeline'' where
  now := h'.now.trans h.now
  priority := h'.priority.trans h.priority
  config := h'.config.trans h.config
  periods := h.periods.trans h'.periods
  each id clock'' hclock'' := by
    rcases h'.each id clock'' hclock'' with ⟨clock', hclock', halike', hturns'⟩ |
        ⟨hnone, hid, hbegins⟩
    · rcases h.each id clock' hclock' with ⟨clock, hclock, halike, hturns⟩ |
          ⟨hnone, hid, hbegins⟩
      · exact Or.inl ⟨clock, hclock, halike.trans halike', hturns'.trans hturns⟩
      · exact Or.inr ⟨hnone, halike'.id.trans hid,
          hbegins.congr halike' h'.now h'.priority (by rw [hid]; exact hturns')⟩
    · refine Or.inr ⟨?_, hid, hbegins⟩
      -- a clock that was scheduled would still be so
      cases hclock : set.clocks[id]? with
      | none => simp [scheduled, hclock]
      | some clock =>
        cases hscheduled : clock.scheduled with
        | false => rw [scheduled_of_getElem? hclock, hscheduled]
        | true =>
          obtain ⟨clock', hclock', halike, _⟩ := h.of_scheduled hclock hscheduled
          rw [scheduled_of_getElem? hclock', halike.scheduled, hscheduled] at hnone
          cases hnone

end ClockSet

/-! ## Registrations -/

namespace Clock

variable {clock : Clock κ} {timeline : Timeline π} {config : ClockConfig} {place : ClockId}

theorem inPlace_new (config : ClockConfig) (period : Period) (h : timeline.turns place = []) :
    ({ id := place, period, config } : Clock κ).InPlace safe timeline config place where
  id := rfl
  config := rfl
  awake hawake := absurd rfl hawake
  dormant _ := h
  queued hqueued := by cases hqueued

/-- What becomes of a clock, in the place of which nothing else is changed. -/
structure Adjusts (clock : Clock κ) (safe : Prop) (timeline : Timeline π) (clock' : Clock κ)
    (timeline' : Timeline π) : Prop where
  now : timeline'.now = timeline.now
  priority : timeline'.priority = timeline.priority
  period : clock'.period = clock.period
  change : (clock.scheduled = true ∧ clock.Alike clock' ∧
      timeline'.turns clock.id = timeline.turns clock.id) ∨
    (clock.scheduled = false ∧ clock'.id = clock.id ∧ clock'.Begins safe timeline')
  others : ∀ other : ClockId, other ≠ clock.id → timeline'.turns other = timeline.turns other

theorem register_adjusts (h : clock.InPlace safe timeline config place)
    (hahead : safe → clock.scheduled = true ∨ clock.period.overflowsAfter timeline.now = false)
    (handlerId : HandlerId) (handler : κ) :
    (clock.register handlerId handler timeline).1.InPlace safe
        (clock.register handlerId handler timeline).2 config place ∧
      clock.Adjusts safe timeline (clock.register handlerId handler timeline).1
        (clock.register handlerId handler timeline).2 := by
  unfold register
  dsimp only
  split
  · rename_i hscheduled
    have halike : clock.Alike { clock with
        handlers := clock.handlers ++ [{ id := handlerId, handler := handler }] } :=
      ⟨rfl, rfl, rfl, rfl, rfl⟩
    exact ⟨h.congr halike (fun _ => hscheduled) rfl, rfl, rfl, rfl,
      Or.inl ⟨hscheduled, halike, rfl⟩, fun _ _ => rfl⟩
  · rename_i hscheduled
    have hdormant : clock.scheduled = false := by simpa using hscheduled
    have hnone : timeline.turns clock.id = [] := by
      rw [h.id]
      exact h.dormant hdormant
    have hbegins := begins_schedule { clock with
      handlers := clock.handlers ++ [{ id := handlerId, handler := handler }] }
      (fun hsafe => (hahead hsafe).resolve_left hscheduled) hnone
    refine ⟨hbegins.inPlace h.id h.config, rfl, rfl, rfl, Or.inr ⟨hdormant, rfl, hbegins⟩, ?_⟩
    intro other hother
    exact timeline.turns_add_of_ne fun hturn => hother (Option.some.inj hturn).symm

theorem unregister_alike (clock : Clock κ) (handlerId : HandlerId) :
    clock.Alike (clock.unregister handlerId) := by
  unfold unregister
  split
  · exact .refl clock
  · exact ⟨rfl, rfl, rfl, rfl, rfl⟩

/-- A handler that stays was there before. -/
theorem handlers_unregister_ne_nil {handlerId : HandlerId}
    (h : (clock.unregister handlerId).handlers ≠ []) : clock.handlers ≠ [] := by
  intro hnone
  apply h
  unfold unregister
  split
  · exact hnone
  · simp [hnone]

end Clock

namespace ClockSet

variable {set set' : ClockSet κ} {timeline timeline' : Timeline π}

/-- A handler joins the first clock of its period, or a new clock behind the others. -/
theorem registerIn_cases (config : ClockConfig) (id : HandlerId) (period : Period) (handler : κ)
    (timeline : Timeline π) (position : Nat) (clocks : List (Clock κ)) :
    (∃ (i : Nat) (clock : Clock κ), clocks[i]? = some clock ∧
      (clocks.find? fun clock => clock.period = period) = some clock ∧
      registerIn config id period handler timeline position clocks =
        (clocks.set i (clock.register id handler timeline).1,
          (clock.register id handler timeline).2)) ∨
    ((∀ clock ∈ clocks, clock.period ≠ period) ∧
      (clocks.find? fun clock => clock.period = period) = none ∧
      registerIn config id period handler timeline position clocks =
        (clocks ++ [(({ id := position + clocks.length, period, config } : Clock κ).register id
            handler timeline).1],
          (({ id := position + clocks.length, period, config } : Clock κ).register id handler
            timeline).2)) := by
  induction clocks generalizing position with
  | nil => exact Or.inr ⟨by simp, rfl, rfl⟩
  | cons clock rest ih =>
    by_cases hperiod : clock.period = period
    · refine Or.inl ⟨0, clock, rfl, by simp [hperiod], ?_⟩
      simp [registerIn, hperiod]
    · rcases ih (position + 1) with ⟨i, other, hother, hfound, heq⟩ | ⟨hnew, hnone, heq⟩
      · refine Or.inl ⟨i + 1, other, hother, by simp [hperiod, hfound], ?_⟩
        simp [registerIn, hperiod, heq]
      · refine Or.inr ⟨?_, by simp [hperiod, hnone], ?_⟩
        · intro other hother
          rcases List.mem_cons.mp hother with rfl | hother
          · exact hperiod
          · exact hnew other hother
        · have hposition : position + 1 + rest.length = position + (clock :: rest).length := by
            simp only [List.length_cons]
            omega
          rw [hposition] at heq
          simp [registerIn, hperiod, heq]

theorem Regular.replace (h : set.Regular safe timeline) (set' : ClockSet κ)
    (timeline' : Timeline π) {id : ClockId} {clock clock' : Clock κ}
    (hclock : set.clocks[id]? = some clock) (hclocks : set'.clocks = set.clocks.set id clock')
    (hconfig : set'.config = set.config) (hplace : clock'.InPlace safe timeline' set.config id)
    (hperiod : clock'.period = clock.period)
    (hothers : ∀ other, other ≠ id → timeline'.turns other = timeline.turns other) :
    set'.Regular safe timeline' ∧ set'.periods = set.periods := by
  obtain ⟨hlt, _⟩ := List.getElem?_eq_some_iff.mp hclock
  have hperiods : set'.periods = set.periods := by
    unfold periods
    rw [hclocks, List.map_set, hperiod]
    apply List.ext_getElem?
    intro other
    by_cases hother : other = id
    · subst hother
      rw [List.getElem?_set_self (by simpa using hlt)]
      exact (period_of_getElem? hclock).symm
    · rw [List.getElem?_set_ne (Ne.symm hother)]
  refine ⟨⟨?_, ?_, ?_⟩, hperiods⟩
  · intro other c hc
    rw [hclocks] at hc
    rw [hconfig]
    by_cases hother : other = id
    · subst hother
      rw [List.getElem?_set_self hlt] at hc
      cases hc
      exact hplace
    · rw [List.getElem?_set_ne (Ne.symm hother)] at hc
      exact (h.each other c hc).congr (.refl c) (h.each other c hc).awake (hothers other hother)
  · rw [hperiods]
    exact h.distinct
  · intro other hother
    rw [hclocks, List.length_set] at hother
    rw [hothers other (Nat.ne_of_gt (Nat.lt_of_lt_of_le hlt hother))]
    exact h.known other hother

theorem Regular.extend (h : set.Regular safe timeline) (set' : ClockSet κ)
    (timeline' : Timeline π) {clock : Clock κ}
    (hclocks : set'.clocks = set.clocks ++ [clock]) (hconfig : set'.config = set.config)
    (hplace : clock.InPlace safe timeline' set.config set.clocks.length)
    (hnew : clock.period ∉ set.periods)
    (hothers : ∀ other, other ≠ set.clocks.length →
      timeline'.turns other = timeline.turns other) :
    set'.Regular safe timeline' ∧ set.periods <+: set'.periods := by
  have hperiods : set'.periods = set.periods ++ [clock.period] := by
    simp [periods, hclocks]
  refine ⟨⟨?_, ?_, ?_⟩, ?_⟩
  · intro other c hc
    rw [hclocks] at hc
    rw [hconfig]
    rcases Nat.lt_trichotomy other set.clocks.length with hlt | rfl | hgt
    · rw [List.getElem?_append_left hlt] at hc
      exact (h.each other c hc).congr (.refl c) (h.each other c hc).awake
        (hothers other (Nat.ne_of_lt hlt))
    · rw [List.getElem?_concat_length] at hc
      cases hc
      exact hplace
    · rw [List.getElem?_eq_none (by simp; omega)] at hc
      cases hc
  · rw [hperiods]
    exact List.nodup_append.mpr ⟨h.distinct, by simp, by
      rintro a ha b hb rfl
      obtain rfl := List.mem_singleton.mp hb
      exact hnew ha⟩
  · intro other hother
    rw [hclocks, List.length_append, List.length_singleton] at hother
    rw [hothers other (Nat.ne_of_gt hother)]
    exact h.known other (Nat.le_of_succ_le hother)
  · rw [hperiods]
    exact List.prefix_append ..

theorem Regular.attach_known (h : set.Regular safe timeline) {i : ClockId}
    (nextHandler : HandlerId) (hclock : set.clocks[i]? = some clock)
    (hplace : clock'.InPlace safe timeline' set.config i)
    (hadjusts : clock.Adjusts safe timeline clock' timeline') :
    let joined := { set with clocks := set.clocks.set i clock', nextHandler }
    joined.Regular safe timeline' ∧ set.Adjusts safe timeline joined timeline' := by
  have hid : clock.id = i := (h.each i clock hclock).id
  obtain ⟨hregular, hperiods⟩ := h.replace
    { set with clocks := set.clocks.set i clock', nextHandler } timeline' hclock rfl rfl hplace
    hadjusts.period (by rw [← hid]; exact hadjusts.others)
  refine ⟨hregular, hadjusts.now, hadjusts.priority, rfl, ?_, ?_⟩
  · exact ⟨[], (List.append_nil _).trans hperiods.symm⟩
  · intro other c hc
    by_cases hother : other = i
    · subst hother
      rw [List.getElem?_set_self (List.getElem?_eq_some_iff.mp hclock).1] at hc
      cases hc
      rcases hadjusts.change with ⟨_, halike, hturns⟩ | ⟨hdormant, hsame, hbegins⟩
      · exact Or.inl ⟨clock, hclock, halike, by rw [← hid]; exact hturns⟩
      · exact Or.inr ⟨(scheduled_of_getElem? hclock).trans hdormant, hsame.trans hid, hbegins⟩
    · rw [List.getElem?_set_ne (Ne.symm hother)] at hc
      exact Or.inl ⟨c, hc, .refl c, hadjusts.others other (by rw [hid]; exact hother)⟩

theorem Regular.attach_new (h : set.Regular safe timeline) (nextHandler : HandlerId)
    {period : Period} (hnew : ∀ clock ∈ set.clocks, clock.period ≠ period)
    (hplace : clock'.InPlace safe timeline' set.config set.clocks.length)
    (hadjusts : ({ id := set.clocks.length, period, config := set.config } : Clock κ).Adjusts safe
      timeline clock' timeline') :
    let opened := { set with clocks := set.clocks ++ [clock'], nextHandler }
    opened.Regular safe timeline' ∧ set.Adjusts safe timeline opened timeline' := by
  have hperiod : clock'.period ∉ set.periods := by
    rw [hadjusts.period]
    intro hmem
    obtain ⟨clock, hclock, hperiod⟩ := List.mem_map.mp hmem
    exact hnew clock hclock hperiod
  obtain ⟨hregular, hperiods⟩ := h.extend
    { set with clocks := set.clocks ++ [clock'], nextHandler } timeline' rfl rfl hplace hperiod
    hadjusts.others
  refine ⟨hregular, hadjusts.now, hadjusts.priority, rfl, hperiods, ?_⟩
  intro other c hc
  rcases Nat.lt_trichotomy other set.clocks.length with hlt | rfl | hgt
  · rw [List.getElem?_append_left hlt] at hc
    exact Or.inl ⟨c, hc, .refl c, hadjusts.others other (Nat.ne_of_lt hlt)⟩
  · rw [List.getElem?_concat_length] at hc
    cases hc
    refine Or.inr ⟨by simp [scheduled], hplace.id, ?_⟩
    rcases hadjusts.change with ⟨hscheduled, _⟩ | ⟨_, _, hbegins⟩
    · cases hscheduled
    · exact hbegins
  · rw [List.getElem?_eq_none (by simp; omega)] at hc
    cases hc

theorem Regular.attach (h : set.Regular safe timeline) {handlerId : HandlerId} {period : Period}
    {handler : κ}
    (hahead : safe →
      set.overflowsOn timeline.now (.register handlerId period handler) = false) :
    (set.attach handlerId period handler timeline).1.Regular safe
        (set.attach handlerId period handler timeline).2 ∧
      set.Adjusts safe timeline (set.attach handlerId period handler timeline).1
        (set.attach handlerId period handler timeline).2 := by
  simp only [overflowsOn, isScheduled, Bool.and_eq_false_iff, Bool.not_eq_false'] at hahead
  unfold ClockSet.attach
  rcases registerIn_cases set.config handlerId period handler timeline 0 set.clocks with
    ⟨i, clock, hclock, hfound, heq⟩ | ⟨hnew, hmissing, heq⟩
  · rw [heq]
    have hperiod : clock.period = period := by simpa using List.find?_some hfound
    rw [hfound, Option.any_some, ← hperiod] at hahead
    obtain ⟨hplace, hadjusts⟩ := Clock.register_adjusts (h.each i clock hclock) hahead handlerId
      handler
    exact h.attach_known _ hclock hplace hadjusts
  · rw [heq]
    rw [hmissing, Option.any_none] at hahead
    have hnone : timeline.turns (0 + set.clocks.length) = [] := h.known _ (by omega)
    have hfresh : ({ id := 0 + set.clocks.length, period, config := set.config } : Clock κ).InPlace
        safe timeline set.config (0 + set.clocks.length) := Clock.inPlace_new _ _ hnone
    obtain ⟨hplace, hadjusts⟩ := Clock.register_adjusts hfresh
      (fun hsafe => Or.inr ((hahead hsafe).resolve_left Bool.false_ne_true)) handlerId handler
    rw [Nat.zero_add] at hplace hadjusts ⊢
    exact h.attach_new _ hnew hplace hadjusts

theorem Regular.unregister (h : set.Regular safe timeline) {handle : ClockHandle} {empty : Bool}
    (hset : set.unregister handle = .ok (empty, set')) :
    set'.Regular safe timeline ∧ set.Adjusts safe timeline set' timeline := by
  unfold ClockSet.unregister at hset
  split at hset
  · cases hset
  · simp only [Except.ok.injEq, Prod.mk.injEq] at hset
    obtain ⟨_, rfl⟩ := hset
    let removed : Clock κ → Clock κ := fun clock =>
      if clock.period.factor = handle.factor then clock.unregister handle.handler else clock
    have halike : ∀ clock : Clock κ, clock.Alike (removed clock) := by
      intro clock
      simp only [removed]
      split
      · exact clock.unregister_alike handle.handler
      · exact .refl clock
    have hawake : ∀ clock : Clock κ, (removed clock).handlers ≠ [] → clock.handlers ≠ [] := by
      intro clock hhandlers
      simp only [removed] at hhandlers
      split at hhandlers
      · exact Clock.handlers_unregister_ne_nil hhandlers
      · exact hhandlers
    have hget : ∀ (id : ClockId) (clock' : Clock κ), (set.clocks.map removed)[id]? = some clock' →
        ∃ clock, set.clocks[id]? = some clock ∧ clock' = removed clock := by
      intro id clock' hclock'
      rw [List.getElem?_map] at hclock'
      obtain ⟨clock, hclock, rfl⟩ := Option.map_eq_some_iff.mp hclock'
      exact ⟨clock, hclock, rfl⟩
    have hperiods : ({ set with clocks := set.clocks.map removed } : ClockSet κ).periods =
        set.periods := by
      unfold periods
      rw [List.map_map]
      exact List.map_congr_left fun clock _ => (halike clock).period
    refine ⟨⟨?_, ?_, ?_⟩, rfl, rfl, rfl, ?_, ?_⟩
    · intro id clock' hclock'
      obtain ⟨clock, hclock, rfl⟩ := hget id clock' hclock'
      have hplace := h.each id clock hclock
      exact hplace.congr (halike clock)
        (fun hhandlers => (halike clock).scheduled.trans (hplace.awake (hawake clock hhandlers)))
        rfl
    · rw [hperiods]
      exact h.distinct
    · intro id hid
      exact h.known id (by simpa using hid)
    · exact ⟨[], (List.append_nil _).trans hperiods.symm⟩
    · intro id clock' hclock'
      obtain ⟨clock, hclock, rfl⟩ := hget id clock' hclock'
      exact Or.inl ⟨clock, hclock, halike clock, rfl⟩

/-! ## Requests -/

theorem Regular.applyOne (h : set.Regular safe timeline) {request : ClockRequest κ}
    (hahead : safe → set.overflowsOn timeline.now request = false) :
    (ClockSet.applyOne (set, timeline) request).1.Regular safe
        (ClockSet.applyOne (set, timeline) request).2 ∧
      set.Adjusts safe timeline (ClockSet.applyOne (set, timeline) request).1
        (ClockSet.applyOne (set, timeline) request).2 := by
  cases request with
  | register id period handler => exact h.attach hahead
  | unregister handle =>
    simp only [ClockSet.applyOne]
    cases hset : set.unregister handle with
    | error e => exact ⟨h, .refl set timeline⟩
    | ok result => exact h.unregister hset

/-- Requests keep clocks regular, and those that are scheduled where they are. -/
theorem Regular.apply (h : set.Regular safe timeline) {requests : ClockRequests κ}
    (hahead : safe → set.overflows requests timeline.now = false) :
    (set.apply requests timeline).1.Regular safe (set.apply requests timeline).2.2 ∧
      set.Adjusts safe timeline (set.apply requests timeline).1
        (set.apply requests timeline).2.2 := by
  suffices hall : ∀ (queued : List (ClockRequest κ)) (set : ClockSet κ) (timeline : Timeline π),
      set.Regular safe timeline → (safe → ∀ r ∈ queued, set.overflowsOn timeline.now r = false) →
        (queued.foldl ClockSet.applyOne (set, timeline)).1.Regular safe
            (queued.foldl ClockSet.applyOne (set, timeline)).2 ∧
          set.Adjusts safe timeline (queued.foldl ClockSet.applyOne (set, timeline)).1
            (queued.foldl ClockSet.applyOne (set, timeline)).2 from
    hall requests.queued set timeline h (by simpa [overflows] using hahead)
  intro queued
  induction queued with
  | nil => exact fun set timeline h _ => ⟨h, .refl set timeline⟩
  | cons request rest ih =>
    intro set timeline h hahead
    obtain ⟨hregular, hadjusts⟩ := h.applyOne fun hsafe =>
      hahead hsafe request (List.mem_cons_self ..)
    obtain ⟨hregular', hadjusts'⟩ := ih _ _ hregular fun hsafe r hr => by
      rw [hadjusts.now]
      exact overflowsOn_applyOne timeline request (hahead hsafe r (List.mem_cons_of_mem _ hr))
    exact ⟨hregular', hadjusts.trans hadjusts'⟩

/-- Clocks stay regular when nothing is done to their turns. -/
theorem Regular.of_turns (h : set.Regular safe timeline)
    (hturns : ∀ id, timeline'.turns id = timeline.turns id) : set.Regular safe timeline' where
  each id clock hclock := by
    have hplace := h.each id clock hclock
    exact hplace.congr (.refl clock) hplace.awake (hturns id)
  distinct := h.distinct
  known id hid := by rw [hturns id]; exact h.known id hid

/-- Whose turn it is that is pending, and when it may be. -/
theorem Regular.clock_of_mem_turns (h : set.Regular safe timeline) {id : ClockId} {a : Scheduled π}
    (ha : a ∈ timeline.turns id) :
    ∃ clock, set.clocks[id]? = some clock ∧ a.priority = set.config.priority ∧
      (safe → a.time < Time.never → clock.period.factor ∣ a.time.ticks) := by
  rcases Nat.lt_or_ge id set.clocks.length with hlt | hge
  · have hclock := List.getElem?_eq_getElem hlt
    have hplace := h.each id _ hclock
    refine ⟨_, hclock, ?_⟩
    cases hscheduled : (set.clocks[id]).scheduled with
    | false =>
      rw [hplace.dormant hscheduled] at ha
      cases ha
    | true =>
      obtain ⟨time, hturn, hdvd⟩ := hplace.queued hscheduled
      rw [hturn] at ha
      obtain rfl := List.mem_singleton.mp ha
      exact ⟨congrArg ClockConfig.priority hplace.config, hdvd⟩
  · rw [h.known id hge] at ha
    cases ha

theorem regular_empty (config : ClockConfig) :
    ({ config } : ClockSet κ).Regular safe ({} : Timeline π) where
  each _ _ hclock := by cases hclock
  distinct := List.nodup_nil
  known _ _ := rfl

end ClockSet

end Lookahead
