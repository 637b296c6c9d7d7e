import Lookahead.Proofs.Cadence
import Lookahead.Workload.Clocks

/-!
The clocks of the periods 1, 2, 3 and so on, from their start to their end.

A clock stops with the first cycle that is its last one or later, so it fires once even if it was to
have no cycles at all. The clocks share one queue and meet in it at common multiples of their
periods, but none of them touches another, so each is where the number of its own firings says
(`Clocks.Ticking`). A dispatch adds one firing to one clock, and there is nothing left to dispatch
once all of them have stopped.
-/

namespace Lookahead

def Dispatch.period? {M : Model} (d : Dispatch M) : Option Nat :=
  d.activity.payload.clock?.bind fun id =>
    d.partition.clocks.clocks[id]?.map fun clock => clock.period.factor

namespace Clocks

variable {clocks cycles : Nat}

/-! ## Single clocks -/

def periodOf (id : Nat) : Period :=
  ⟨min (id + 1) lastTick, Nat.lt_min.mpr ⟨Nat.succ_pos id, by decide⟩, Nat.min_le_right ..⟩

theorem factor_periodOf {id : Nat} (h : id < lastTick) : (periodOf id).factor = id + 1 :=
  Nat.min_eq_left h

def clockAt (cycles id fired : Nat) : Clock model.Ticker :=
  let clock : Clock model.Ticker :=
    { id, period := periodOf id, config := {}, cycle := fired }
  if fired < max cycles 1 then { clock with handlers := [⟨id, cycles, fired⟩], scheduled := true }
  else { clock with retired := [⟨id, cycles, fired⟩] }

def turnAt (id turn : Nat) : Scheduled model.Payload where
  time := Time.ofNat ((id + 1) * turn)
  priority := Priority.clock
  payload := .clock id

def clocksAt (clocks cycles : Nat) (fired : Nat → Nat) : ClockSet model.Ticker where
  clocks := (List.range clocks).map fun id => clockAt cycles id (fired id)
  nextHandler := clocks
  fired := total fired (List.range clocks)

theorem clockAt_period (cycles id fired : Nat) :
    (clockAt cycles id fired).period = periodOf id := by
  unfold clockAt
  split <;> rfl

theorem run_tick (last cycle : Nat) (view : View) (ctx : model.Context) :
    (model.tick last cycle view).run ctx =
      (ctx, some (if last ≤ cycle then none else some last)) := rfl

/-- A clock that still runs stays as it is but for the cycle, as long as that was not the last one.
-/
theorem fire_going {id fired : Nat} (hfits : id < lastTick) (h : fired + 1 < max cycles 1)
    (ctx : model.Context) :
    (clockAt cycles id fired).fire model.tick ctx =
      ({ ctx with
          timeline := ctx.timeline.insert (ctx.timeline.now.after (id + 1)) Priority.clock
            (.clock id) }, some (clockAt cycles id (fired + 1))) := by
  have hcall : callAll model.tick (fired + 1) [⟨id, cycles, fired⟩] ctx =
      (ctx, some ([⟨id, cycles, fired + 1⟩], [])) := by
    unfold callAll
    rw [run_tick, if_neg (by omega)]
    rfl
  unfold clockAt Clock.fire
  rw [if_pos (Nat.lt_of_succ_lt h), if_pos h]
  simp only [List.isEmpty_cons, Bool.false_eq_true, ↓reduceIte, Clock.nextCycle, hcall,
    factor_periodOf hfits]
  rfl

theorem fire_last {id fired : Nat} (hgoing : fired < max cycles 1) (h : max cycles 1 ≤ fired + 1)
    (ctx : model.Context) : (clockAt cycles id fired).fire model.tick ctx =
      (ctx, some (clockAt cycles id (fired + 1))) := by
  have hcall : callAll model.tick (fired + 1) [⟨id, cycles, fired⟩] ctx =
      (ctx, some ([], [⟨id, cycles, fired + 1⟩])) := by
    unfold callAll
    rw [run_tick, if_pos (by omega)]
    rfl
  unfold clockAt Clock.fire
  rw [if_pos hgoing, if_neg (Nat.not_lt.mpr h)]
  simp only [List.isEmpty_cons, Bool.false_eq_true, ↓reduceIte, Clock.nextCycle, hcall]
  rfl

/-! ## Building -/

section

variable {κ π : Type}

theorem registerIn_new (config : ClockConfig) (id : HandlerId) {period : Period} (handler : κ)
    (timeline : Timeline π) (position : Nat) {others : List (Clock κ)}
    (h : ∀ clock ∈ others, clock.period ≠ period) :
    ClockSet.registerIn config id period handler timeline position others =
      let (clock, timeline) :=
        Clock.register { id := position + others.length, period, config } id handler timeline
      (others ++ [clock], timeline) := by
  induction others generalizing position with
  | nil => rfl
  | cons clock rest ih =>
    rw [ClockSet.registerIn, if_neg (h clock List.mem_cons_self),
      ih (position + 1) fun clock hclock => h clock (List.mem_cons_of_mem _ hclock)]
    rw [List.length_cons, Nat.add_assoc, Nat.add_comm 1]
    rfl

/-- A clock that is started at the start of time fires first after one period. -/
theorem register_blank (id : Nat) (period : Period) (config : ClockConfig)
    (handlerId : HandlerId) (handler : κ) {timeline : Timeline π}
    (hnow : timeline.now = Time.zero) :
    Clock.register { id, period, config } handlerId handler timeline =
      ({ id, period, config, handlers := [⟨handlerId, handler, 0⟩], scheduled := true },
        timeline.insert (Time.ofNat period.factor) config.priority (.clock id)) := by
  have hcycles : period.cyclesAt Time.zero = 0 := Nat.zero_div _
  have hfirst : ∀ clock : Clock κ, clock.period = period →
      clock.firstFiring timeline = Time.ofNat period.factor := by
    rintro clock rfl
    unfold Clock.firstFiring
    dsimp only
    rw [if_neg fun h => h.2.2.1 hnow, hnow,
      Period.nextAfter_of_fits clock.period.overflowsAfter_zero, hcycles, Period.timeOf,
      Period.unitsOf, Nat.zero_add, Nat.one_mul]
  unfold Clock.register Clock.schedule
  simp only [List.nil_append, Bool.false_eq_true, ↓reduceIte, hfirst, hnow, hcycles]

theorem attach_new (set : ClockSet κ) (id : HandlerId) {period : Period} (handler : κ)
    {timeline : Timeline π} (hnew : ∀ clock ∈ set.clocks, clock.period ≠ period)
    (hnow : timeline.now = Time.zero) :
    set.attach id period handler timeline =
      ({ set with
          clocks := set.clocks ++ [{
            id := set.clocks.length, period, config := set.config
            handlers := [⟨id, handler, 0⟩], scheduled := true }]
          nextHandler := max set.nextHandler (id + 1) },
        timeline.insert (Time.ofNat period.factor) set.config.priority
          (.clock set.clocks.length)) := by
  unfold ClockSet.attach
  rw [registerIn_new _ _ _ _ _ hnew, Nat.zero_add, register_blank _ _ _ _ _ hnow]

end

def setup (cycles clocks : Nat) : PartitionSetup model where
  timeline := ({} : Timeline model.Payload).addAll ((List.range clocks).map fun id => turnAt id 1)
  clocks := clocksAt clocks cycles fun _ => 0

def builder (cycles clocks : Nat) : Builder model where
  config := {}
  tables := [⟨0, []⟩]
  setups := [setup cycles clocks]

theorem clockAt_period_ne {id clocks fired : Nat} (hfits : clocks < lastTick) (h : id < clocks) :
    (clockAt cycles id fired).period ≠ periodOf clocks := by
  rw [clockAt_period]
  intro heq
  have hfactor := congrArg Period.factor heq
  rw [factor_periodOf hfits, factor_periodOf (Nat.lt_trans h hfits)] at hfactor
  omega

theorem length_clocksAt (clocks cycles : Nat) (fired : Nat → Nat) :
    (clocksAt clocks cycles fired).clocks.length = clocks := by
  unfold clocksAt
  rw [List.length_map, List.length_range]

/-- Before anything has fired there is one more clock. -/
theorem setup_succ (cycles clocks : Nat) : setup cycles (clocks + 1) =
    { timeline := (setup cycles clocks).timeline.add (turnAt clocks 1)
      clocks := { (setup cycles clocks).clocks with
        clocks := (setup cycles clocks).clocks.clocks ++ [clockAt cycles clocks 0]
        nextHandler := clocks + 1 } } := by
  have hfired : total (fun _ => 0) (List.range clocks) =
      total (fun _ => 0) (List.range (clocks + 1)) := by
    rw [total_zero, total_zero]
  unfold setup clocksAt
  rw [hfired, List.range_succ, List.map_append, List.map_append, Timeline.addAll_append]
  rfl

/-- A partition gets its next clock. -/
theorem attach_setup (cycles : Nat) {clocks : Nat} (hfits : clocks < lastTick) :
    (setup cycles clocks).clocks.attach clocks (periodOf clocks) cycles
        (setup cycles clocks).timeline =
      ((setup cycles (clocks + 1)).clocks, (setup cycles (clocks + 1)).timeline) := by
  have hnew : ∀ clock ∈ (setup cycles clocks).clocks.clocks,
      clock.period ≠ periodOf clocks := by
    intro clock hclock
    obtain ⟨id, hid, rfl⟩ := List.mem_map.mp hclock
    exact clockAt_period_ne hfits (List.mem_range.mp hid)
  have hnow : (setup cycles clocks).timeline.now = Time.zero := Timeline.now_addAll ..
  have hlength : (setup cycles clocks).clocks.clocks.length = clocks := length_clocksAt ..
  have hmax : max (setup cycles clocks).clocks.nextHandler (clocks + 1) = clocks + 1 :=
    Nat.max_eq_right (Nat.le_succ clocks)
  have hclock : clockAt cycles clocks 0 =
      { id := clocks, period := periodOf clocks, config := {}
        handlers := [⟨clocks, cycles, 0⟩], scheduled := true } := if_pos (by omega)
  have hturn : turnAt clocks 1 =
      ⟨Time.ofNat (periodOf clocks).factor, Priority.clock, .clock clocks, 0⟩ := by
    unfold turnAt
    rw [Nat.mul_one, factor_periodOf hfits]
  refine (attach_new _ _ _ hnew hnow).trans ?_
  rw [setup_succ, hlength, hmax, hclock, hturn]
  rfl

theorem registerClock_builder (cycles : Nat) {clocks : Nat} (hfits : clocks < lastTick) :
    (builder cycles clocks).registerClock 0 (periodOf clocks) cycles =
      .ok (⟨clocks + 1, clocks⟩, builder cycles (clocks + 1)) := by
  obtain ⟨attached, hattached⟩ : ∃ attached, attached =
      (setup cycles clocks).clocks.attach clocks (periodOf clocks) cycles
        (setup cycles clocks).timeline := ⟨_, rfl⟩
  have hregister : (builder cycles clocks).registerClock 0 (periodOf clocks) cycles =
      .ok (⟨clocks + 1, clocks⟩, (builder cycles clocks).withSetup 0
        { setup cycles clocks with clocks := attached.1, timeline := attached.2 }) := by
    rw [hattached, ← factor_periodOf hfits]
    rfl
  rw [hregister, hattached, attach_setup cycles hfits]
  rfl

theorem addClock_eq (cycles : Nat) {clocks : Nat} (hfits : clocks < lastTick) :
    addClock cycles (builder cycles clocks) (clocks + 1) = .ok (builder cycles (clocks + 1)) := by
  have hperiod : Period.ofFactor (clocks + 1) = .ok (periodOf clocks) :=
    dif_pos (Nat.succ_pos clocks)
  unfold addClock
  rw [hperiod]
  show (do return (← (builder cycles clocks).registerClock 0 (periodOf clocks) cycles).2) = _
  rw [registerClock_builder cycles hfits]
  rfl

theorem foldlM_addClock (cycles : Nat) {clocks : Nat} (hfits : clocks ≤ lastTick) :
    ((List.range clocks).map (· + 1)).foldlM (addClock cycles) (builder cycles 0) =
      .ok (builder cycles clocks) := by
  induction clocks with
  | zero => rfl
  | succ clocks ih =>
    rw [List.range_succ, List.map_append, List.foldlM_append, ih (Nat.le_of_succ_le hfits)]
    show (do let b ← addClock cycles (builder cycles clocks) (clocks + 1); pure b) = _
    rw [addClock_eq cycles hfits]

theorem simulation_eq (cycles : Nat) {clocks : Nat} (hfits : clocks ≤ lastTick) :
    simulation clocks cycles =
      .ok ⟨[(builder cycles clocks).partition lastTick 0 (setup cycles clocks)], lastTick⟩ := by
  have hstart : Builder.ofConfig {} = .ok (builder cycles 0) := rfl
  unfold simulation
  rw [hstart]
  show (do
    let b ← ((List.range clocks).map (· + 1)).foldlM (addClock cycles) (builder cycles 0)
    b.build) = _
  rw [foldlM_addClock cycles hfits]
  rfl

/-! ## Firings -/

def count (ds : List (Dispatch model)) (id : Nat) : Nat := ds.countP (·.fires id)

theorem count_concat (ds : List (Dispatch model)) {d : Dispatch model} {id : Nat}
    (hd : d.activity.payload = .clock id) :
    count (ds ++ [d]) = fun j => count ds j + if id = j then 1 else 0 := by
  funext j
  have hfires : d.fires j = decide (id = j) := by
    unfold Dispatch.fires
    rw [hd]
    exact Bool.eq_iff_iff.mpr (by simp [Action.clock?])
  unfold count
  rw [List.countP_append, List.countP_singleton, hfires]
  simp only [decide_eq_true_eq]

theorem getElem?_clocksAt {fired : Nat → Nat} {id : Nat} (hid : id < clocks) :
    (clocksAt clocks cycles fired).clocks[id]? = some (clockAt cycles id (fired id)) := by
  unfold clocksAt
  rw [List.getElem?_map, List.getElem?_range hid]
  rfl

theorem clocksAt_set {fired : Nat → Nat} {id : Nat} (hid : id < clocks) :
    { clocksAt clocks cycles fired with
      clocks := (clocksAt clocks cycles fired).clocks.set id (clockAt cycles id (fired id + 1))
      fired := (clocksAt clocks cycles fired).fired + 1 } =
      clocksAt clocks cycles fun j => fired j + if id = j then 1 else 0 := by
  have hclocks : (clocksAt clocks cycles fired).clocks.set id (clockAt cycles id (fired id + 1)) =
      (List.range clocks).map fun j => clockAt cycles j (fired j + if id = j then 1 else 0) := by
    apply List.ext_getElem?
    intro j
    rcases Nat.lt_or_ge j clocks with hj | hj
    · rw [List.getElem?_map, List.getElem?_range hj, List.getElem?_set]
      by_cases hij : id = j
      · subst hij
        rw [if_pos rfl, if_pos (by rw [length_clocksAt]; exact hid)]
        simp
      · rw [if_neg hij, getElem?_clocksAt hj]
        simp [hij]
    · rw [List.getElem?_eq_none (by rw [List.length_set, length_clocksAt]; exact hj),
        List.getElem?_eq_none (by simpa using hj)]
  have hfired : (clocksAt clocks cycles fired).fired + 1 =
      total (fun j => fired j + if id = j then 1 else 0) (List.range clocks) := by
    rw [total_add, total_single hid]
    rfl
  rw [hclocks, hfired]
  rfl

/-- When the clock of a period was fired, and the cycles that its handlers were called with then. -/
def firings (period : Nat) (ds : List (Dispatch model)) : List (Nat × List Nat) :=
  (ds.filter fun d => d.period? == some period).map fun d =>
    (d.activity.time.ticks, d.calls.map Called.cycle)

def timelineAfter (cycles : Nat) (timeline : Timeline model.Payload) (id turn : Nat) :
    Timeline model.Payload :=
  if turn < max cycles 1 then timeline.add (turnAt id (turn + 1)) else timeline

/-- A partition after its clock `id` has fired once more. -/
def rung (clocks cycles : Nat) (fired : Nat → Nat) (p : Partition model) (id : Nat) :
    Partition model :=
  { p with
    timeline := timelineAfter cycles p.timeline id (fired id + 1)
    clocks := clocksAt clocks cycles fun j => fired j + if id = j then 1 else 0
    tally := { p.tally with clockFires := p.tally.clockFires + 1 } }

theorem now_rung (fired : Nat → Nat) (p : Partition model) (id : Nat) :
    (rung clocks cycles fired p id).timeline.now = p.timeline.now := by
  show (timelineAfter cycles p.timeline id (fired id + 1)).now = _
  unfold timelineAfter
  split <;> rfl

theorem fire_eq {p : Partition model} {fired : Nat → Nat} {id : Nat} (hfits : id < lastTick)
    (hset : p.clocks = clocksAt clocks cycles fired) (hid : id < clocks)
    (hgoing : fired id < max cycles 1)
    (hnow : p.timeline.now = Time.ofNat ((id + 1) * (fired id + 1)))
    (hrequests : p.requests.queued = []) :
    p.fire id = .dispatch (rung clocks cycles fired p id) := by
  have hfire : p.clocks.fire model.tick id p.context =
      ({ p.context with timeline := timelineAfter cycles p.timeline id (fired id + 1) },
        some (clocksAt clocks cycles fun j => fired j + if id = j then 1 else 0)) := by
    have hagain : p.timeline.insert (p.timeline.now.after (id + 1)) Priority.clock (.clock id) =
        p.timeline.add (turnAt id (fired id + 1 + 1)) := by
      rw [hnow, Time.ofNat_after]
      rfl
    rw [hset, ← clocksAt_set hid]
    unfold ClockSet.fire timelineAfter
    rw [getElem?_clocksAt hid]
    dsimp only
    by_cases hlast : fired id + 1 < max cycles 1
    · rw [fire_going hfits hlast, if_pos hlast, ← hagain]
      rfl
    · rw [fire_last hgoing (Nat.not_lt.mp hlast), if_neg hlast]
      rfl
  unfold Partition.fire
  rw [hfire]
  dsimp only
  rw [Partition.applyRequests?_of_nil]
  · rfl
  · exact hrequests

theorem turns_timelineAfter {timeline : Timeline model.Payload} {id : Nat}
    (hnone : timeline.turns id = []) (turn : Nat) (j : ClockId) :
    (timelineAfter cycles timeline id turn).turns j =
      if j = id then if turn < max cycles 1 then [turnAt id (turn + 1)] else []
      else timeline.turns j := by
  have hclock : (turnAt id (turn + 1)).payload.clock? = some id := rfl
  unfold timelineAfter
  by_cases hj : j = id
  · subst hj
    rw [if_pos rfl]
    split
    · exact timeline.turns_add hclock hnone
    · exact hnone
  · rw [if_neg hj]
    split
    · refine timeline.turns_add_of_ne ?_
      rw [hclock]
      exact fun heq => hj (Option.some.inj heq).symm
    · rfl

/-! ## A partition at work -/

/-- The partition after these dispatches: every clock is where the number of its firings says, and
nothing else is ever due. -/
structure Ticking (clocks cycles : Nat) (ds : List (Dispatch model)) (p : Partition model) :
    Prop where
  set : p.clocks = clocksAt clocks cycles (count ds)
  turns : ∀ id, p.timeline.turns id =
    if id < clocks ∧ count ds id < max cycles 1 then [turnAt id (count ds id + 1)] else []
  only : ∀ a ∈ p.timeline.agenda, ∃ id, a.payload = .clock id
  tidy : p.timeline.Tidy
  count_le : ∀ id, count ds id ≤ max cycles 1
  length : ds.length = total (count ds) (List.range clocks)
  fires : p.tally.clockFires = ds.length
  reached : ∀ id < clocks, (id + 1) * count ds id ≤ p.timeline.now.ticks
  now_le : p.timeline.now.ticks ≤ clocks * max cycles 1
  history : ∀ id < clocks, firings (id + 1) ds =
    (List.range (count ds id)).map fun n => ((id + 1) * (n + 1), [n + 1])
  requests : p.requests.queued = []
  lifecycle : p.lifecycle = false

/-- Clock `id` is about to fire, and the others that still run are waiting for their turns. -/
structure Due (clocks cycles : Nat) (ds : List (Dispatch model)) (d : Dispatch model) (id : Nat) :
    Prop where
  lt : id < clocks
  going : count ds id < max cycles 1
  turn : d.activity.unnumbered = turnAt id (count ds id + 1)
  rest : ∀ j, d.partition.timeline.turns j =
    if j < clocks ∧ count ds j < max cycles 1 ∧ j ≠ id then [turnAt j (count ds j + 1)] else []

namespace Due

variable {ds : List (Dispatch model)} {d : Dispatch model} {id j : Nat}
  (h : Due clocks cycles ds d id)
include h

theorem payload : d.activity.payload = .clock id := congrArg Activity.payload h.turn

theorem time : d.activity.time = Time.ofNat ((id + 1) * (count ds id + 1)) :=
  congrArg Activity.time h.turn

theorem le_end : (id + 1) * (count ds id + 1) ≤ clocks * max cycles 1 := Nat.mul_le_mul h.lt h.going

theorem ticks (hlast : clocks * max cycles 1 < lastTick) :
    d.activity.time.ticks = (id + 1) * (count ds id + 1) := by
  have hend := h.le_end
  rw [h.time, Time.ticks_ofNat, Nat.min_eq_left (by omega)]

theorem fits (hlast : clocks * max cycles 1 < lastTick) : id < lastTick := by
  have hend := h.le_end
  have hself : id + 1 ≤ (id + 1) * (count ds id + 1) := Nat.le_mul_of_pos_right _ (Nat.succ_pos _)
  omega

theorem count_self : count (ds ++ [d]) id = count ds id + 1 := by
  rw [count_concat ds h.payload]
  exact congrArg (count ds id + ·) (if_pos rfl)

theorem count_of_ne (hj : j ≠ id) : count (ds ++ [d]) j = count ds j := by
  rw [count_concat ds h.payload]
  exact congrArg (count ds j + ·) (if_neg (Ne.symm hj))

theorem turns_self : d.partition.timeline.turns id = [] := by
  rw [h.rest, if_neg (by simp)]

/-- What a firing shows: the instant, and the cycle that follows those before. -/
theorem firings_concat (hset : d.partition.clocks = clocksAt clocks cycles (count ds))
    (hfits : id < lastTick) (j : Nat) : firings (j + 1) (ds ++ [d]) = firings (j + 1) ds ++
      if id = j then [(d.activity.time.ticks, [count ds id + 1])] else [] := by
  have hclock : d.partition.clocks.clocks[id]? = some (clockAt cycles id (count ds id)) := by
    rw [hset]
    exact getElem?_clocksAt h.lt
  have hperiod : d.period? = some (id + 1) := by
    unfold Dispatch.period?
    rw [h.payload]
    show Option.map _ d.partition.clocks.clocks[id]? = _
    rw [hclock, Option.map_some, clockAt_period, factor_periodOf hfits]
  have hcalls : d.calls.map Called.cycle = [count ds id + 1] := by
    unfold Dispatch.calls
    rw [h.payload]
    dsimp only
    rw [hclock]
    unfold clockAt
    rw [if_pos h.going]
    rfl
  unfold firings
  rw [List.filter_append, List.map_append]
  by_cases hij : id = j
  · subst hij
    rw [if_pos rfl, List.filter_cons_of_pos (by simp [hperiod])]
    simp [hcalls]
  · rw [if_neg hij, List.filter_cons_of_neg (by simpa [hperiod] using hij)]
    rfl

end Due

namespace Ticking

variable {ds : List (Dispatch model)} {p : Partition model} {d : Dispatch model}

/-- Whatever comes next is the turn of a clock that still runs. -/
theorem next (h : Ticking clocks cycles ds p) (hnext : p.next? = some d) :
    ∃ id, Due clocks cycles ds d id := by
  obtain ⟨hagenda, _, _⟩ := Partition.agenda_of_next? hnext
  have hmem : d.activity.unnumbered ∈ p.timeline.agenda := by
    rw [hagenda]
    exact List.mem_cons_self
  obtain ⟨id, hid⟩ := h.only _ hmem
  have hclock : d.activity.payload.clock? = some id := Action.clock?_eq_some.mpr hid
  have hturn : d.activity.unnumbered ∈ p.timeline.turns id :=
    List.mem_filter.mpr ⟨hmem, by simp [hclock]⟩
  rw [h.turns] at hturn
  split at hturn
  · rename_i hgoing
    refine ⟨id, hgoing.1, hgoing.2, List.mem_singleton.mp hturn, fun j => ?_⟩
    have hturns := ClockSet.Regular.turns_of_next? hnext j
    rw [h.turns, hclock] at hturns
    by_cases hj : j = id
    · subst hj
      rw [if_pos hgoing, if_pos rfl] at hturns
      rw [if_neg (by simp)]
      exact (List.cons.inj hturns).2.symm
    · have hne : ¬some id = some j := fun heq => hj (Option.some.inj heq).symm
      rw [if_neg hne, List.nil_append] at hturns
      rw [← hturns]
      simp [hj]
  · cases hturn

theorem clocks_of_next? (h : Ticking clocks cycles ds p) (hnext : p.next? = some d) :
    d.partition.clocks = clocksAt clocks cycles (count ds) := by
  rw [ClockSet.Regular.clocks_of_next? hnext, h.set]

theorem requests_of_next? (h : Ticking clocks cycles ds p) (hnext : p.next? = some d) :
    d.partition.requests.queued = [] := by
  obtain ⟨timeline, _, hpartition⟩ := Partition.next?_eq_some_iff.mp hnext
  rw [hpartition]
  exact h.requests

theorem mem_timelineAfter {timeline : Timeline model.Payload} {id turn : Nat}
    {a : Scheduled model.Payload} (ha : a ∈ (timelineAfter cycles timeline id turn).agenda) :
    a = turnAt id (turn + 1) ∨ a ∈ timeline.agenda := by
  unfold timelineAfter at ha
  split at ha
  · exact Timeline.mem_agenda_add.mp ha
  · exact .inr ha

theorem tidy_timelineAfter {timeline : Timeline model.Payload} {id turn : Nat}
    (h : timeline.Tidy) (hnow : timeline.now = Time.ofNat ((id + 1) * turn)) :
    (timelineAfter cycles timeline id turn).Tidy := by
  unfold timelineAfter
  split
  · have hle : ∀ a ∈ [turnAt id (turn + 1)], timeline.now ≤ a.time := by
      intro a ha
      rw [List.mem_singleton.mp ha, hnow]
      show _ ≤ Time.ofNat ((id + 1) * turn + (id + 1))
      rw [← Time.ofNat_after]
      exact Time.le_after _ _
    exact ⟨h.order.add _, h.current.addAll hle⟩
  · exact h

/-- One more firing: the clock goes on or stops, and all others are untouched. -/
theorem fired {id : Nat} (h : Ticking clocks cycles ds p)
    (hlast : clocks * max cycles 1 < lastTick) (hnext : p.next? = some d)
    (hdue : Due clocks cycles ds d id) :
    Ticking clocks cycles (ds ++ [d]) (rung clocks cycles (count ds) d.partition id) := by
  obtain ⟨timeline, hadvance, hpartition⟩ := Partition.next?_eq_some_iff.mp hnext
  obtain ⟨hagenda, hnow, _⟩ := Partition.agenda_of_next? hnext
  have hcount := count_concat ds hdue.payload
  have hticks := hdue.ticks hlast
  constructor
  case set =>
    rw [hcount]
    rfl
  case turns =>
    intro j
    refine (turns_timelineAfter hdue.turns_self (count ds id + 1) j).trans ?_
    by_cases hj : j = id
    · subst hj
      rw [hdue.count_self]
      simp [hdue.lt]
    · rw [if_neg hj, hdue.rest, hdue.count_of_ne hj]
      simp [hj]
  case only =>
    intro a ha
    rcases mem_timelineAfter ha with rfl | ha
    · exact ⟨id, rfl⟩
    · exact h.only a (Partition.mem_agenda_of_rest hnext ha)
  case tidy =>
    exact tidy_timelineAfter (Partition.Course.tidy_next? h.tidy hnext) (hnow.trans hdue.time)
  case count_le =>
    intro j
    by_cases hj : j = id
    · rw [hj, hdue.count_self]
      exact hdue.going
    · rw [hdue.count_of_ne hj]
      exact h.count_le j
  case length =>
    rw [hcount, total_add, total_single hdue.lt, List.length_append, h.length]
    rfl
  case fires =>
    have hfires : d.partition.tally.clockFires = ds.length := by
      rw [hpartition]
      exact h.fires
    rw [List.length_append, ← hfires]
    rfl
  case reached =>
    intro j hj
    rw [now_rung, hnow]
    by_cases heq : j = id
    · refine Nat.le_of_eq ?_
      rw [hticks, heq, hdue.count_self]
    · rw [hdue.count_of_ne heq]
      exact Nat.le_trans (h.reached j hj) (Partition.Course.now_le_of_next? h.tidy hnext)
  case now_le =>
    rw [now_rung, hnow, hticks]
    exact hdue.le_end
  case history =>
    intro j hj
    rw [hdue.firings_concat (h.clocks_of_next? hnext) (hdue.fits hlast), h.history j hj, hticks]
    by_cases heq : j = id
    · rw [heq, if_pos rfl, hdue.count_self, List.range_succ, List.map_append]
      rfl
    · rw [if_neg (Ne.symm heq), List.append_nil, hdue.count_of_ne heq]
  case requests => exact h.requests_of_next? hnext
  case lifecycle =>
    rw [← h.lifecycle, ← congrArg Partition.lifecycle hpartition]
    rfl

/-- A partition fires its clocks one after another. -/
theorem step (h : Ticking clocks cycles ds p) (hlast : clocks * max cycles 1 < lastTick)
    (hnext : p.next? = some d) :
    ∃ r, Thread.workOn .timed p = .running .timed r ∧ Ticking clocks cycles (ds ++ [d]) r := by
  obtain ⟨id, hdue⟩ := h.next hnext
  obtain ⟨_, hnow, _⟩ := Partition.agenda_of_next? hnext
  have hfire := fire_eq (hdue.fits hlast) (h.clocks_of_next? hnext) hdue.lt hdue.going
    (hnow.trans hdue.time) (h.requests_of_next? hnext)
  refine ⟨_, ?_, h.fired hlast hnext hdue⟩
  unfold Thread.workOn
  dsimp only
  rw [Thread.dispatch_eq hnext, hdue.payload]
  have hact : d.partition.act (.clock id) = d.partition.fire id := rfl
  rw [hact, hfire]

/-- Once nothing is left, every clock has stopped. -/
theorem count_eq (h : Ticking clocks cycles ds p) (hidle : p.timeline.agenda = []) {id : Nat}
    (hid : id < clocks) : count ds id = max cycles 1 := by
  have hturns := h.turns id
  have hnone : p.timeline.turns id = [] := by
    unfold Timeline.turns
    rw [hidle]
    rfl
  rw [hnone] at hturns
  split at hturns
  · cases hturns
  · rename_i hstopped
    exact Nat.le_antisymm (h.count_le id) (Nat.not_lt.mp fun hlt => hstopped ⟨hid, hlt⟩)

/-- And then as much time has passed as the slowest clock takes. -/
theorem now_eq (h : Ticking clocks cycles ds p) (hidle : p.timeline.agenda = []) :
    p.timeline.now.ticks = clocks * max cycles 1 := by
  refine Nat.le_antisymm h.now_le ?_
  cases clocks with
  | zero =>
    rw [Nat.zero_mul]
    exact Nat.zero_le _
  | succ clocks =>
    have hslowest := h.reached clocks (Nat.lt_succ_self clocks)
    rw [h.count_eq hidle (Nat.lt_succ_self clocks)] at hslowest
    exact hslowest

theorem length_le (h : Ticking clocks cycles ds p) : ds.length ≤ clocks * max cycles 1 := by
  have hle : total (count ds) (List.range clocks) ≤ (List.range clocks).length * max cycles 1 :=
    total_le fun id _ => h.count_le id
  rw [List.length_range] at hle
  rw [h.length]
  exact hle

theorem length_eq (h : Ticking clocks cycles ds p) (hidle : p.timeline.agenda = []) :
    ds.length = clocks * max cycles 1 := by
  have hall : ∀ id ∈ List.range clocks, count ds id = max cycles 1 := fun id hid =>
    h.count_eq hidle (List.mem_range.mp hid)
  rw [h.length, total_congr hall, total_const, List.length_range]

end Ticking

/-! ## Runs -/

def first (clocks cycles : Nat) : Partition model :=
  (builder cycles clocks).partition lastTick 0 (setup cycles clocks)

theorem turns_setup (cycles clocks id : Nat) :
    (setup cycles clocks).timeline.turns id = if id < clocks then [turnAt id 1] else [] := by
  induction clocks with
  | zero => rfl
  | succ clocks ih =>
    rw [setup_succ]
    dsimp only
    by_cases hid : id = clocks
    · subst hid
      rw [if_neg (Nat.lt_irrefl id)] at ih
      rw [if_pos (Nat.lt_succ_self id)]
      exact Timeline.turns_add _ rfl ih
    · have hne : (turnAt clocks 1).payload.clock? ≠ some id := fun heq =>
        hid (Option.some.inj heq).symm
      have hlt : id < clocks + 1 ↔ id < clocks := by omega
      rw [Timeline.turns_add_of_ne _ hne, ih]
      simp only [hlt]

theorem ticking_first (clocks cycles : Nat) : Ticking clocks cycles [] (first clocks cycles) := by
  constructor
  case set => rfl
  case turns =>
    intro id
    refine (turns_setup cycles clocks id).trans ?_
    have hpos : count [] id < max cycles 1 :=
      Nat.lt_of_lt_of_le Nat.zero_lt_one (Nat.le_max_right ..)
    simp only [hpos, and_true]
    rfl
  case only =>
    intro a ha
    rcases Timeline.mem_agenda_addAll.mp ha with ⟨b, hb, rfl⟩ | ha
    · obtain ⟨id, _, rfl⟩ := List.mem_map.mp hb
      exact ⟨id, rfl⟩
    · cases ha
  case tidy =>
    have horder : ({} : Timeline model.Payload).InOrder := List.Pairwise.nil
    have hcurrent : ({} : Timeline model.Payload).Current := by
      intro a ha
      cases ha
    exact ⟨horder.addAll _, hcurrent.addAll fun _ _ => Nat.zero_le _⟩
  case count_le => exact fun id => Nat.zero_le _
  case length => exact (total_zero _).symm
  case fires => rfl
  case reached => exact fun id _ => Nat.zero_le _
  case now_le =>
    have hnow : (first clocks cycles).timeline.now = Time.zero := Timeline.now_addAll ..
    rw [hnow]
    exact Nat.zero_le _
  case history => exact fun _ _ => rfl
  case requests => rfl
  case lifecycle => rfl

/-- Where the only thread is after so many steps, in which it has made these dispatches: at work, or
at its end, which it takes one more step to reach. -/
inductive Stands (clocks cycles : Nat) (ds : List (Dispatch model)) (steps : Nat) :
    List (Thread model) → Prop
  | running (p : Partition model) (h : Ticking clocks cycles ds p) (hsteps : steps = ds.length) :
      Stands clocks cycles ds steps [.running .timed p]
  | ended (p : Partition model) (h : Ticking clocks cycles ds p) (hidle : p.timeline.agenda = [])
      (hsteps : steps = ds.length + 1) :
      Stands clocks cycles ds steps [.ended (.ok .exhausted) p]

namespace Stands

variable {ds : List (Dispatch model)} {steps : Nat} {threads : List (Thread model)}
  {t t' : Thread model} {shared shared' : Shared model.Payload} {i : Nat}

/-- The thread fires a clock, or comes to its end. -/
theorem step (h : Stands clocks cycles ds steps threads) (hlast : clocks * max cycles 1 < lastTick)
    (ht : threads[i]? = some t) (hstep : t.step? shared = some (shared', t')) :
    i = 0 ∧ Stands clocks cycles (ds ++ t.dispatch?.toList) (steps + 1) (threads.set i t') := by
  have hsingle : ∀ {u : Thread model}, [u][i]? = some t → i = 0 ∧ u = t := by
    intro u hu
    obtain ⟨hi, rfl⟩ := List.getElem?_eq_some_iff.mp hu
    obtain rfl : i = 0 := Nat.lt_one_iff.mp hi
    exact ⟨rfl, rfl⟩
  cases h with
  | running p hticking hsteps =>
    obtain ⟨rfl, rfl⟩ := hsingle ht
    obtain rfl : Thread.workOn .timed p = t' := (Prod.mk.inj (Option.some.inj hstep)).2
    refine ⟨rfl, ?_⟩
    show Stands clocks cycles (ds ++ p.next?.toList) (steps + 1) [Thread.workOn .timed p]
    cases hnext : p.next? with
    | none =>
      have hidle := Partition.next?_eq_none_iff.mp hnext
      have hended : Thread.workOn .timed p = .ended (.ok .exhausted) p := by
        unfold Thread.workOn Partition.dispatch
        dsimp only
        rw [if_pos (Timeline.isEmpty_iff.mpr hidle)]
        exact if_neg (by simp [hticking.lifecycle])
      rw [hended, Option.toList_none, List.append_nil]
      exact .ended p hticking hidle (by rw [hsteps])
    | some d =>
      obtain ⟨r, hr, hticking'⟩ := hticking.step hlast hnext
      rw [hr, Option.toList_some]
      exact .running r hticking' (by rw [hsteps, List.length_append, List.length_singleton])
  | ended p hticking hidle hsteps =>
    obtain ⟨rfl, rfl⟩ := hsingle ht
    cases hstep

theorem run (hlast : clocks * max cycles 1 < lastTick) {schedule : List PartitionId}
    {trace : List (PartitionId × Dispatch model)} {machine : Machine model}
    (h : (Machine.system model).Run (Simulation.mk [first clocks cycles] lastTick).machine schedule
      trace machine) :
    Stands clocks cycles (System.seenOf 0 trace) schedule.length machine.threads := by
  induction h with
  | refl => exact .running _ (ticking_first clocks cycles) rfl
  | @step schedule trace x y i _ hstep ih =>
    obtain ⟨t, shared, t', ht, hthread, rfl⟩ := Machine.step?_eq_some_iff.mp hstep
    obtain ⟨rfl, hstands⟩ := ih.step hlast ht hthread
    have hnote : (Machine.system model).note x 0 = noteAt 0 t.dispatch? := by
      show noteAt 0 (x.threads[0]?.bind Thread.dispatch?) = _
      rw [ht]
      rfl
    rw [System.seenOf_append, hnote, seenOf_noteAt_self, List.length_append, List.length_singleton]
    exact hstands

theorem steps_le (h : Stands clocks cycles ds steps threads) :
    steps ≤ clocks * max cycles 1 + 1 := by
  cases h with
  | running p h hsteps =>
    rw [hsteps]
    exact Nat.le_succ_of_le h.length_le
  | ended p h _ hsteps =>
    rw [hsteps]
    exact Nat.succ_le_succ h.length_le

theorem of_halted (h : Stands clocks cycles ds steps threads)
    (hhalted : (Machine.system model).Halted ⟨shared, threads⟩) :
    ∃ p, Ticking clocks cycles ds p ∧ p.timeline.agenda = [] ∧
      threads = [.ended (.ok .exhausted) p] := by
  cases h with
  | running p h hsteps => cases hhalted 0
  | ended p h hidle hsteps => exact ⟨p, h, hidle, rfl⟩

end Stands

/-- **Clocks run out.** The run of clocks of the periods 1, 2, 3 and so on comes to its end, and in
success, because there is nothing left to do. The clock of each period has fired once in every cycle
up to the last one, and at least once, at the multiples of its period; all has been dispatched, and
time has gone on to the last firing of the slowest clock. -/
theorem run_out (clocks cycles : Nat) (hlast : clocks * max cycles 1 < lastTick) :
    ∃ simulation, Clocks.simulation clocks cycles = .ok simulation ∧
      (∃ bound, ∀ schedule trace machine,
        (Machine.system model).Run simulation.machine schedule trace machine →
          schedule.length ≤ bound) ∧
      ∀ trace machine, simulation.Reaches trace machine → (Machine.system model).Halted machine →
        (∃ report, machine.outcome? simulation.window = some (.ok report) ∧
          report.partitions.map PartitionReport.stop = [.exhausted] ∧
          report.clockFires = clocks * max cycles 1 ∧
          report.finalTime = Time.ofNat (clocks * max cycles 1) ∧
          ∀ r ∈ report.partitions, r.pending = 0) ∧
        ∀ period, 1 ≤ period → period ≤ clocks →
          firings period (System.seenOf 0 trace) =
            (List.range (max cycles 1)).map fun n => (period * (n + 1), [n + 1]) := by
  have hfits : clocks ≤ lastTick :=
    Nat.le_of_lt (Nat.lt_of_le_of_lt (Nat.le_mul_of_pos_right _ (by omega)) hlast)
  refine ⟨_, simulation_eq cycles hfits, ⟨clocks * max cycles 1 + 1, ?_⟩, ?_⟩
  · intro schedule trace machine hrun
    exact (Stands.run hlast hrun).steps_le
  · rintro trace machine ⟨schedule, hrun⟩ hhalted
    obtain ⟨p, hticking, hidle, hthreads⟩ := (Stands.run hlast hrun).of_halted hhalted
    refine ⟨⟨⟨[p.report .exhausted], lastTick⟩, ?_, rfl, ?_, ?_, ?_⟩, ?_⟩
    · unfold Machine.outcome? Machine.results?
      rw [hthreads]
      rfl
    · show p.tally.clockFires + 0 = _
      rw [hticking.fires, hticking.length_eq hidle, Nat.add_zero]
    · show max Time.zero p.timeline.now = _
      have hnow := hticking.now_eq hidle
      rw [← hnow, Time.ofNat_ticks]
      ext
      rw [Time.ticks_max]
      exact Nat.zero_max _
    · intro r hr
      rw [List.mem_singleton.mp hr]
      have hempty : p.timeline.queue.entries = [] := List.map_eq_nil_iff.mp hidle
      exact congrArg List.length hempty
    · intro period hpos hle
      obtain ⟨id, rfl⟩ := Nat.exists_eq_add_of_le' hpos
      rw [hticking.history id hle, hticking.count_eq hidle hle]

/-- Four clocks of ten cycles: the third fires at 3, 6, 9 and so on up to 30. -/
theorem run_out_four : 4 * max 10 1 < lastTick ∧
    ∃ simulation, Clocks.simulation 4 10 = .ok simulation ∧
      ∀ trace machine, simulation.Reaches trace machine → (Machine.system model).Halted machine →
        (∃ report, machine.outcome? simulation.window = some (.ok report) ∧
          report.clockFires = 40 ∧ report.finalTime = Time.ofNat 40) ∧
        firings 3 (System.seenOf 0 trace) =
          (List.range 10).map fun n => (3 * (n + 1), [n + 1]) := by
  obtain ⟨simulation, hbuild, _, hrun⟩ := run_out 4 10 (by decide)
  refine ⟨by decide, simulation, hbuild, fun trace machine hreaches hhalted => ?_⟩
  obtain ⟨⟨report, houtcome, _, hfires, htime, _⟩, hfirings⟩ := hrun trace machine hreaches hhalted
  exact ⟨⟨report, houtcome, hfires, htime⟩, hfirings 3 (by decide) (by decide)⟩

end Clocks

end Lookahead
