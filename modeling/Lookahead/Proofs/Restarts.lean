import Lookahead.Proofs.Cadence

/-!
Clocks that are restarted.

The firings of a clock come in the order of time, and their cycles never go back. A clock that
always waits for the next boundary never fires twice at an instant and never hands out a cycle
twice, and neither does it fire twice at an instant if its turn comes no later than that of events
(`Simulation.firings_in_order`).
-/

namespace Lookahead

variable {M : Model}

/-! ## Where turns come from -/

/-- Where the turn of a clock comes from that is pending at `time` after a dispatch of `q`: it was
pending before, it is the next one of a clock that has fired, or the clock has been started. -/
inductive Dispatch.Queues (d : Dispatch M) (q : Partition M) (id : ClockId)
    (clock : Clock M.Ticker) (time : Time) : Prop
  | kept (before : Clock M.Ticker) (hfires : d.fires id = false)
      (hbefore : q.clocks.clocks[id]? = some before) (hscheduled : before.scheduled = true)
      (hturn : q.timeline.turns id = [before.turn time]) (hperiod : clock.period = before.period)
      (hcycle : clock.nextCycle = before.nextCycle)
  | again (before : Clock M.Ticker) (hfires : d.fires id = true)
      (hbefore : q.clocks.clocks[id]? = some before)
      (htime : time = d.activity.time.after clock.period.factor)
      (hperiod : clock.period = before.period) (hcycle : clock.nextCycle = before.nextCycle + 1)
  | atOnce (hwork : d.activity.payload.isWork = true)
      (hpolicy : q.clocks.config.policy = .sameInstant)
      (hpriority : d.activity.priority < q.clocks.config.priority)
      (htime : time = d.activity.time)
      (hcycle : clock.nextCycle = d.activity.time.ticks / clock.period.factor + 1)
  | later (hfits : clock.period.overflowsAfter d.activity.time = false)
      (htime : time = clock.period.nextAfter d.activity.time)
      (hcycle : clock.nextCycle = d.activity.time.ticks / clock.period.factor + 1)

namespace Dispatch.Leaves

variable {q : Partition M} {d : Dispatch M} {id : ClockId} {clock clock' : Clock M.Ticker}
  {set : ClockSet M.Ticker} {timeline later : Timeline M.Payload} {time : Time}

/-- A clock that was pending when the handlers were done was pending before, or has fired. -/
theorem queues_alike (h : d.Leaves q True set timeline)
    (hregular : q.clocks.Regular True q.timeline)
    (hnext : q.next? = some d) (hclock : set.clocks[id]? = some clock)
    (halike : clock.Alike clock') (hscheduled : clock'.scheduled = true)
    (hturn : timeline.turns id = [clock'.turn time]) : d.Queues q id clock' time := by
  rw [halike.turn] at hturn
  have hcycle : clock'.nextCycle = clock.nextCycle := congrArg (· + 1) halike.cycle
  have hbefore : clock.scheduled = true := halike.scheduled.symm.trans hscheduled
  cases hfires : d.fires id with
  | false =>
    have hnot : d.activity.payload.clock? ≠ some id := by
      simpa [Dispatch.fires] using hfires
    obtain ⟨hsame, hkept⟩ := h.others id hnot
    exact .kept clock hfires (hsame.symm.trans hclock) hbefore (hkept.symm.trans hturn)
      halike.period hcycle
  | true =>
    have hid := Dispatch.fires_iff.mp hfires
    obtain ⟨before, hfound, _⟩ := hregular.turn_of_next? hnext hid
    obtain ⟨c, hc, hperiod, hcases⟩ := h.own id before hid hfound
    obtain rfl := Option.some.inj (hclock.symm.trans hc)
    rcases hcases with ⟨_, hdormant⟩ | ⟨_, _, hcycle', hturn'⟩
    · rw [hdormant] at hbefore
      cases hbefore
    · rw [hturn'] at hturn
      have htime := congrArg Activity.time (List.singleton_inj.mp hturn)
      refine .again before hfires hfound ?_ (halike.period.trans hperiod) ?_
      · rw [halike.period, hperiod]
        exact htime.symm
      · rw [hcycle]
        exact congrArg (· + 1) hcycle'

/-- A clock that begins has its first turn by the instant of the dispatch. -/
theorem queues_begins (hwork : d.activity.payload.isWork = true)
    (hnow : later.now = d.activity.time) (hpriority : later.priority = d.activity.priority)
    (hconfig : clock.config = q.clocks.config) (hbegins : clock.Begins True later)
    (hturn : later.turns clock.id = [clock.turn time]) : d.Queues q id clock time := by
  have hcycle : clock.nextCycle = d.activity.time.ticks / clock.period.factor + 1 := by
    rw [← hnow]
    exact congrArg (· + 1) hbegins.cycle
  have hfirst := hbegins.turn
  rw [hturn] at hfirst
  have htime : time = clock.firstFiring later :=
    congrArg Activity.time (List.singleton_inj.mp hfirst)
  unfold Clock.firstFiring at htime
  simp only [hnow, hpriority, hconfig] at htime
  split at htime
  · rename_i hsame
    exact .atOnce hwork hsame.1 hsame.2.1 htime hcycle
  · refine .later ?_ htime hcycle
    rw [← hnow]
    exact hbegins.ahead trivial

end Dispatch.Leaves

namespace ClockSet.Regular

variable {q r : Partition M} {d : Dispatch M} {id : ClockId} {clock : Clock M.Ticker}
  {time : Time}

theorem queues (h : q.clocks.Regular True q.timeline) (hnext : q.next? = some d)
    (hexact : d.Exact) (hafter : d.after? = some r) (hclock : r.clocks.clocks[id]? = some clock)
    (hscheduled : clock.scheduled = true) (hturn : r.timeline.turns id = [clock.turn time]) :
    d.Queues q id clock time := by
  cases hwork : d.activity.payload.isWork with
  | false =>
    -- meetings and stops do nothing to clocks
    rw [Dispatch.after?_of_rest hwork] at hafter
    obtain rfl := Option.some.inj hafter
    have hnot : d.activity.payload.clock? ≠ some id := by
      intro hid
      rw [Action.clock?_eq_some.mp hid] at hwork
      cases hwork
    rw [clocks_of_next? hnext] at hclock
    refine .kept clock ?_ hclock hscheduled ?_ rfl rfl
    · simpa [Dispatch.fires] using hnot
    · rw [turns_of_next? hnext id, if_neg hnot]
      exact hturn
  | true =>
    obtain ⟨set, timeline, _, hleaves, hadjusts, hregular⟩ :=
      h.upkeep hnext (fun _ => hexact) hafter
    have hconfig : clock.config = q.clocks.config := by
      rw [(hregular.each id clock hclock).config, hadjusts.config, hleaves.config]
    rcases hadjusts.each id clock hclock with ⟨c, hc, halike, hturns⟩ | ⟨_, hid, hbegins⟩
    · rw [hturns] at hturn
      exact hleaves.queues_alike h hnext hc halike hscheduled hturn
    · exact Dispatch.Leaves.queues_begins hwork (hadjusts.now.trans hleaves.now)
        (hadjusts.priority.trans hleaves.priority) hconfig hbegins (by rw [hid]; exact hturn)

end ClockSet.Regular

/-! ## Cycles -/

/-- A firing hands out the number of periods that are over, or the next one if the clock was started
at that instant. -/
def Partition.Counts (q : Partition M) : Prop :=
  ∀ id clock time, q.clocks.clocks[id]? = some clock → clock.scheduled = true →
    q.timeline.turns id = [clock.turn time] → time < Time.never →
      clock.nextCycle = time.ticks / clock.period.factor ∨
        (q.clocks.config.policy = .sameInstant ∧
          clock.nextCycle = time.ticks / clock.period.factor + 1)

theorem Clock.div_after {now : Time} {period : Period}
    (h : now.after period.factor < Time.never) :
    (now.after period.factor).ticks / period.factor = now.ticks / period.factor + 1 := by
  simp only [Time.lt_def, Time.ticks_after, Time.ticks_never] at h ⊢
  rw [Nat.min_eq_left (by omega)]
  exact Nat.add_div_right _ period.factor_pos

theorem Clock.div_lt_div {factor t t' : Nat} (hpos : 0 < factor) (hdvd : factor ∣ t')
    (h : t < t') : t / factor < t' / factor := by
  rw [Nat.div_lt_iff_lt_mul hpos, Nat.div_mul_cancel hdvd]
  exact h

/-- A clock that has just been started counts right. -/
theorem Clock.Begins.counts {κ π : Type} {clock : Clock κ} {timeline : Timeline π} {time : Time}
    (h : clock.Begins True timeline) (hturn : timeline.turns clock.id = [clock.turn time]) :
    clock.nextCycle = time.ticks / clock.period.factor ∨
      (clock.config.policy = .sameInstant ∧
        clock.nextCycle = time.ticks / clock.period.factor + 1) := by
  have hcycle : clock.nextCycle = timeline.now.ticks / clock.period.factor + 1 :=
    congrArg (· + 1) h.cycle
  rw [h.turn] at hturn
  obtain rfl : clock.firstFiring timeline = time :=
    congrArg Activity.time (List.singleton_inj.mp hturn)
  unfold firstFiring
  dsimp only
  split
  · rename_i hsame
    exact Or.inr ⟨hsame.1, hcycle⟩
  · exact Or.inl (hcycle.trans (Period.cyclesAt_nextAfter (h.ahead trivial)).symm)

namespace Partition.Course

variable {p q r : Partition M} {ds : List (Dispatch M)} {d : Dispatch M}

theorem counts_of_dispatch (hregular : q.clocks.Regular True q.timeline) (h : q.Counts)
    (hnext : q.next? = some d) (hexact : d.Exact) (hafter : d.after? = some r) : r.Counts := by
  intro id clock time hclock hscheduled hturn hlast
  have hconfig : r.clocks.config = q.clocks.config := by
    obtain ⟨set, timeline, _, hleaves, hadjusts, _⟩ :=
      hregular.upkeep hnext (fun _ => hexact) hafter
    exact hadjusts.config.trans hleaves.config
  rw [hconfig]
  cases hregular.queues hnext hexact hafter hclock hscheduled hturn with
  | kept before hfires hbefore hscheduled' hturn' hperiod hcycle =>
    rw [hperiod, hcycle]
    exact h id before time hbefore hscheduled' hturn' hlast
  | again before hfires hbefore htime hperiod hcycle =>
    obtain ⟨c, hc, hscheduled', hturn', _⟩ :=
      hregular.turn_of_next? hnext (Dispatch.fires_iff.mp hfires)
    obtain rfl := Option.some.inj (hbefore.symm.trans hc)
    subst htime
    have hearlier : d.activity.time < Time.never := by
      simp only [Time.lt_def, Time.ticks_after, Time.ticks_never] at hlast ⊢
      omega
    rw [Clock.div_after hlast, hcycle, hperiod]
    rcases h id before _ hbefore hscheduled' hturn' hearlier with heq | ⟨hpolicy, heq⟩
    · exact Or.inl (congrArg (· + 1) heq)
    · exact Or.inr ⟨hpolicy, congrArg (· + 1) heq⟩
  | atOnce hwork hpolicy hpriority htime hcycle =>
    rw [htime]
    exact Or.inr ⟨hpolicy, hcycle⟩
  | later hfits htime hcycle =>
    subst htime
    exact Or.inl (hcycle.trans (Period.cyclesAt_nextAfter hfits).symm)

theorem counts (h : p.Course True ds q) (hregular : p.clocks.Regular True p.timeline)
    (hp : p.Counts) :
    q.Counts := by
  induction h with
  | refl => exact hp
  | waits h hwaits ih =>
    intro id clock time hclock hscheduled hturn
    rw [hwaits.clocks] at hclock ⊢
    rw [hwaits.turns] at hturn
    exact ih id clock time hclock hscheduled hturn
  | dispatch h hnext hexact hafter ih =>
    exact counts_of_dispatch (h.regular hregular).1 ih hnext (hexact trivial) hafter

end Partition.Course

/-! ## Instants -/

/-- A clock has fired at `instant`. Its next turn is later, unless the clock was started again at
that very instant; that takes an event, and a clock whose turn comes after those of events. -/
structure Partition.Beyond (q : Partition M) (id : ClockId) (instant : Time) : Prop where
  now : instant ≤ q.timeline.now
  turn : ∀ clock time, q.clocks.clocks[id]? = some clock → clock.scheduled = true →
    q.timeline.turns id = [clock.turn time] →
      instant < time ∨ (time = instant ∧ q.clocks.config.policy = .sameInstant ∧
        Priority.event < q.clocks.config.priority ∧
        clock.nextCycle = instant.ticks / clock.period.factor + 1)
  floor : ∀ a ∈ q.timeline.agenda, a.time = instant → a.payload.isWork = true →
    min q.clocks.config.priority Priority.event ≤ a.priority

namespace Partition.Beyond

variable {p q r : Partition M} {id : ClockId} {instant : Time} {d : Dispatch M}
  {ds : List (Dispatch M)}

theorem waits (h : q.Beyond id instant) (hwaits : q.Waits r) : r.Beyond id instant := by
  obtain ⟨added, hadded, hlate⟩ := hwaits.timeline
  constructor
  case now =>
    rw [hadded, Timeline.now_addAll]
    exact h.now
  case turn =>
    intro clock time hclock hscheduled hturn
    rw [hwaits.clocks] at hclock ⊢
    rw [hwaits.turns] at hturn
    exact h.turn clock time hclock hscheduled hturn
  case floor =>
    intro a ha htime hwork
    rw [hwaits.clocks]
    rw [hadded] at ha
    rcases Timeline.mem_agenda_addAll.mp ha with ⟨x, hx, rfl⟩ | ha
    · obtain ⟨_, hclock, hpriority⟩ := hlate x hx
      have hevent : x.priority = Priority.event := by
        apply hpriority
        rw [Activity.payload_unnumbered] at hwork
        cases hpayload : x.payload with
        | deliver event => simp [Activity.isDelivery, hpayload, Action.event?]
        | clock id => rw [hpayload] at hclock; cases hclock
        | sync => rw [hpayload] at hwork; cases hwork
        | stop => rw [hpayload] at hwork; cases hwork
      rw [Activity.priority_unnumbered, hevent]
      exact Int.min_le_right ..
    · exact h.floor a ha htime hwork

theorem floor_of_dispatch (hregular : r.clocks.Regular True r.timeline) (hafter : d.after? = some r)
    (hrest : ∀ a ∈ d.partition.timeline.agenda, a.time = instant → a.payload.isWork = true →
      min r.clocks.config.priority Priority.event ≤ a.priority) :
    ∀ a ∈ r.timeline.agenda, a.time = instant → a.payload.isWork = true →
      min r.clocks.config.priority Priority.event ≤ a.priority := by
  intro a ha htime hwork
  cases hpayload : a.payload with
  | clock other =>
    have hmem : a ∈ r.timeline.turns other :=
      List.mem_filter.mpr ⟨ha, by simp [hpayload, Action.clock?]⟩
    obtain ⟨_, _, hpriority, _⟩ := hregular.clock_of_mem_turns hmem
    rw [hpriority]
    exact Int.min_le_left ..
  | deliver event =>
    obtain ⟨added, hadded, hevents⟩ := Dispatch.added_of_after? hafter
    rw [hadded] at ha
    rcases Timeline.mem_agenda_addAll.mp ha with ⟨x, hx, rfl⟩ | ha
    · have hevent : x.priority = Priority.event := by
        apply (hevents x hx).2
        rw [Activity.payload_unnumbered] at hpayload
        simp [Activity.isDelivery, hpayload, Action.event?]
      rw [Activity.priority_unnumbered, hevent]
      exact Int.min_le_right ..
    · exact hrest a ha htime hwork
  | sync => rw [hpayload] at hwork; cases hwork
  | stop => rw [hpayload] at hwork; cases hwork

/-- The next firing of a clock is later. -/
theorem lt_after {period : Period} {now : Time} (hlast : instant < Time.never)
    (hnow : instant ≤ now) : instant < now.after period.factor := by
  have hpos := period.factor_pos
  simp only [Time.lt_def, Time.le_def, Time.ticks_after, Time.ticks_never] at hlast hnow ⊢
  omega

theorem config_of_dispatch (hregular : q.clocks.Regular True q.timeline)
    (hnext : q.next? = some d) (hexact : d.Exact) (hafter : d.after? = some r) :
    r.clocks.config = q.clocks.config := by
  obtain ⟨set, timeline, _, hleaves, hadjusts, _⟩ := hregular.upkeep hnext (fun _ => hexact) hafter
  exact hadjusts.config.trans hleaves.config

theorem of_fires (hregular : q.clocks.Regular True q.timeline) (htidy : q.timeline.Tidy)
    (hnext : q.next? = some d) (hexact : d.Exact) (hafter : d.after? = some r)
    (hfires : d.fires id = true)
    (hlast : d.activity.time < Time.never) : r.Beyond id d.activity.time := by
  have hid := Dispatch.fires_iff.mp hfires
  obtain ⟨set, timeline, _, hleaves, hadjusts, hregular'⟩ :=
    hregular.upkeep hnext (fun _ => hexact) hafter
  obtain ⟨before, hbefore, _, _, hpriority, _⟩ := hregular.turn_of_next? hnext hid
  have hpriority' : d.activity.priority = q.clocks.config.priority := by
    rw [hpriority, (hregular.each id before hbefore).config]
  constructor
  case now =>
    rw [hadjusts.now, hleaves.now]
    exact Time.le_refl _
  case turn =>
    intro clock time hclock hscheduled hturn
    refine Or.inl ?_
    cases hregular.queues hnext hexact hafter hclock hscheduled hturn with
    | kept before hnot => rw [hfires] at hnot; cases hnot
    | again before _ _ htime => rw [htime]; exact lt_after hlast (Time.le_refl _)
    | atOnce _ _ hlower => omega
    | later hfits htime => rw [htime]; exact Period.lt_nextAfter hfits
  case floor =>
    apply floor_of_dispatch hregular' hafter
    intro a ha htime _
    have hfirst := htidy.order.head_not_after (Partition.agenda_of_next? hnext).1 a ha
    rw [Activity.not_before_iff, Activity.time_unnumbered, Activity.priority_unnumbered,
      htime] at hfirst
    rw [config_of_dispatch hregular hnext hexact hafter, ← hpriority']
    omega

theorem dispatch (h : q.Beyond id instant) (hlast : instant < Time.never)
    (hregular : q.clocks.Regular True q.timeline) (htidy : q.timeline.Tidy)
    (hnext : q.next? = some d) (hexact : d.Exact) (hafter : d.after? = some r) :
    r.Beyond id instant := by
  obtain ⟨set, timeline, _, hleaves, hadjusts, hregular'⟩ :=
    hregular.upkeep hnext (fun _ => hexact) hafter
  have hconfig := config_of_dispatch hregular hnext hexact hafter
  have hnow : instant ≤ d.activity.time :=
    Time.le_trans h.now (Course.now_le_of_next? htidy hnext)
  constructor
  case now =>
    rw [hadjusts.now, hleaves.now]
    exact hnow
  case turn =>
    intro clock time hclock hscheduled hturn
    rw [hconfig]
    cases hregular.queues hnext hexact hafter hclock hscheduled hturn with
    | kept before _ hbefore hscheduled' hturn' hperiod hcycle =>
      rw [hperiod, hcycle]
      exact h.turn before time hbefore hscheduled' hturn'
    | again before _ _ htime => exact Or.inl (by rw [htime]; exact lt_after hlast hnow)
    | later hfits htime =>
      refine Or.inl ?_
      rw [htime]
      exact Nat.lt_of_le_of_lt hnow (Period.lt_nextAfter hfits)
    | atOnce hwork hpolicy hlower htime hcycle =>
      by_cases hsame : d.activity.time = instant
      · -- the activity that starts the clock has its turn before that of the clock
        have hfloor := h.floor d.activity.unnumbered (Partition.mem_agenda_of_next? hnext)
          hsame hwork
        rw [Activity.priority_unnumbered] at hfloor
        rw [hsame] at hcycle htime
        exact Or.inr ⟨htime, hpolicy, by omega, hcycle⟩
      · refine Or.inl ?_
        rw [htime]
        exact Nat.lt_of_le_of_ne hnow fun heq => hsame (Time.ext heq.symm)
  case floor =>
    apply floor_of_dispatch hregular' hafter
    intro a ha
    rw [hconfig]
    exact h.floor a (Partition.mem_agenda_of_rest hnext ha)

theorem course (h : p.Beyond id instant) (hlast : instant < Time.never)
    (hregular : p.clocks.Regular True p.timeline) (htidy : p.timeline.Tidy)
    (hcourse : p.Course True ds q) : q.Beyond id instant := by
  induction hcourse with
  | refl => exact h
  | waits _ hwaits ih => exact ih.waits hwaits
  | dispatch hbefore hnext hexact hafter ih =>
    exact ih.dispatch hlast (hbefore.regular hregular).1 (hbefore.tidy htidy) hnext
      (hexact trivial) hafter

end Partition.Beyond

/-! ## Runs -/

/-- What a clock that is about to fire hands out. -/
theorem Partition.Counts.calls {q : Partition M} {d : Dispatch M} {id : ClockId} (h : q.Counts)
    (hregular : q.clocks.Regular True q.timeline) (hnext : q.next? = some d)
    (hfires : d.fires id = true) (hlast : d.activity.time < Time.never) :
    ∃ clock, q.clocks.clocks[id]? = some clock ∧ clock.scheduled = true ∧
      q.timeline.turns id = [clock.turn d.activity.time] ∧
      clock.period.factor ∣ d.activity.time.ticks ∧
      (∀ c ∈ d.calls, c.cycle = clock.nextCycle) ∧
      (clock.nextCycle = d.activity.time.ticks / clock.period.factor ∨
        (q.clocks.config.policy = .sameInstant ∧
          clock.nextCycle = d.activity.time.ticks / clock.period.factor + 1)) := by
  obtain ⟨clock, hclock, hscheduled, hturn, _⟩ :=
    hregular.turn_of_next? hnext (Dispatch.fires_iff.mp hfires)
  have hcalls : ∀ c ∈ d.calls, c.cycle = clock.nextCycle := by
    rw [← ClockSet.Regular.clocks_of_next? hnext] at hclock
    exact (Dispatch.calls_of_clock hfires hclock).1
  obtain ⟨time, htime, hdvd⟩ := (hregular.each id clock hclock).queued hscheduled
  rw [hturn] at htime
  obtain rfl : d.activity.time = time := congrArg Activity.time (List.singleton_inj.mp htime)
  exact ⟨clock, hclock, hscheduled, hturn, hdvd trivial hlast, hcalls,
    h id clock _ hclock hscheduled hturn hlast⟩

/-- Two firings of a clock, `e` after `d`: the cycles that they hand out, and what it takes for the
second to be at the instant of the first. -/
structure Dispatch.Refires (d e : Dispatch M) (config : ClockConfig) (factor cycle next : Nat) :
    Prop where
  positive : 0 < factor
  boundary : factor ∣ e.activity.time.ticks
  calls : ∀ c ∈ d.calls, c.cycle = cycle
  nexts : ∀ c ∈ e.calls, c.cycle = next
  counted : cycle = d.activity.time.ticks / factor ∨
    (config.policy = .sameInstant ∧ cycle = d.activity.time.ticks / factor + 1)
  counted_next : next = e.activity.time.ticks / factor ∨
    (config.policy = .sameInstant ∧ next = e.activity.time.ticks / factor + 1)
  turn : d.activity.time < e.activity.time ∨
    (e.activity.time = d.activity.time ∧ config.policy = .sameInstant ∧
      Priority.event < config.priority ∧ next = d.activity.time.ticks / factor + 1)

namespace Dispatch.Refires

variable {d e : Dispatch M} {config : ClockConfig} {factor cycle next : Nat}

theorem div_lt (h : d.Refires e config factor cycle next)
    (hlater : d.activity.time < e.activity.time) :
    d.activity.time.ticks / factor < e.activity.time.ticks / factor :=
  Clock.div_lt_div h.positive h.boundary hlater

theorem cycle_le (h : d.Refires e config factor cycle next) : cycle ≤ next := by
  have hcycle := h.counted
  have hnext := h.counted_next
  rcases h.turn with hlater | ⟨_, _, _, hagain⟩
  · have hboundary := h.div_lt hlater
    omega
  · omega

theorem of_nextBoundary (h : d.Refires e config factor cycle next)
    (hpolicy : config.policy = .nextBoundary) :
    d.activity.time < e.activity.time ∧ cycle < next := by
  have hcycle := h.counted
  have hnext := h.counted_next
  have hturn := h.turn
  simp only [hpolicy, reduceCtorEq, false_and, and_false, or_false] at hcycle hnext hturn
  have hboundary := h.div_lt hturn
  exact ⟨hturn, by omega⟩

theorem of_priority (h : d.Refires e config factor cycle next)
    (hpriority : config.priority ≤ Priority.event) : d.activity.time < e.activity.time := by
  rcases h.turn with hlater | ⟨_, _, hhigher, _⟩
  · exact hlater
  · omega

end Dispatch.Refires

/-- A partition that comes to a firing of a clock, makes it, and comes to another one. -/
theorem Partition.Course.refires {p q r s : Partition M} {front middle : List (Dispatch M)}
    {d e : Dispatch M} {id : ClockId} (hcourse : p.Course True front q) (hnext : q.next? = some d)
    (hexact : d.Exact) (hafter : d.after? = some r) (hmiddle : r.Course True middle s)
    (hnext' : s.next? = some e) (hregular : p.clocks.Regular True p.timeline)
    (htidy : p.timeline.Tidy) (hcounts : p.Counts) (hd : d.fires id = true)
    (he : e.fires id = true) (hlast : e.activity.time < Time.never) :
    d.activity.time ≤ e.activity.time ∧
      ∃ factor cycle next, d.Refires e p.clocks.config factor cycle next := by
  have hstep : q.Course True [d] r := Partition.Course.refl.dispatch hnext (fun _ => hexact) hafter
  have htidyq := hcourse.tidy htidy
  have htidyr := hstep.tidy htidyq
  have hle : d.activity.time ≤ e.activity.time := by
    have hnow : d.activity.time ≤ r.timeline.now := by
      obtain ⟨added, hadded, _⟩ := Dispatch.added_of_after? hafter
      rw [hadded, Timeline.now_addAll, (Partition.agenda_of_next? hnext).2.1]
      exact Time.le_refl _
    exact Time.le_trans hnow (Time.le_trans (hmiddle.le_now htidyr)
      (now_le_of_next? (hmiddle.tidy htidyr) hnext'))
  have hearlier : d.activity.time < Time.never := Nat.lt_of_le_of_lt hle hlast
  obtain ⟨hregularq, hconfigq, _⟩ := hcourse.regular hregular
  obtain ⟨hregularr, hconfigr, hperiods⟩ := hstep.regular hregularq
  obtain ⟨hregulars, hconfigs, hperiods'⟩ := hmiddle.regular hregularr
  have hcountsq := hcourse.counts hregular hcounts
  have hcountss := hmiddle.counts hregularr (hstep.counts hregularq hcountsq)
  have hbeyond := (Partition.Beyond.of_fires hregularq htidyq hnext hexact hafter hd
    hearlier).course hearlier hregularr htidyr hmiddle
  obtain ⟨clock, hclock, _, _, _, hcalls, hcycle⟩ :=
    hcountsq.calls hregularq hnext hd hearlier
  obtain ⟨clock', hclock', hscheduled', hturn', hdvd', hcalls', hcycle'⟩ :=
    hcountss.calls hregulars hnext' he hlast
  have hperiod : clock'.period = clock.period := by
    have hfound := ClockSet.period_of_prefix (hperiods.trans hperiods') hclock
    rw [ClockSet.period_of_getElem? hclock'] at hfound
    exact Option.some.inj hfound
  have hturn := hbeyond.turn clock' _ hclock' hscheduled' hturn'
  rw [hconfigs, hconfigr, hconfigq, hperiod] at hturn hcycle'
  rw [hconfigq] at hcycle
  rw [hperiod] at hdvd'
  exact ⟨hle, clock.period.factor, _, _, clock.period.factor_pos, hdvd', hcalls, hcalls', hcycle,
    hcycle', hturn⟩

namespace Simulation

variable {b : Builder M} {log : List (Planned M.Payload)} {simulation : Simulation M}
  {trace : List (PartitionId × Dispatch M)} {machine : Machine M} {j : PartitionId}
  {id : ClockId}

theorem counts_start (hb : b.Made log) (hbuild : b.build = .ok simulation) {p : Partition M}
    (hp : simulation.partitions[j]? = some p) : p.start.Counts := by
  obtain ⟨hregular, hadjusts⟩ := regular_start True hb hbuild hp
  intro id clock time hclock _ hturn _
  have hplace := hregular.each id clock hclock
  rw [← hplace.config]
  rcases hadjusts.each id clock hclock with ⟨c, hc, _⟩ | ⟨_, hid, hbegins⟩
  · cases hc
  · exact hbegins.counts (by rw [hid]; exact hturn)

/-- Unless a clock of the partition overflows, the firings of a clock come in the order of time and
their cycles never go back. If clocks always wait for the next boundary then no clock fires twice at
an instant or hands out a cycle twice; if they have their turn no later than events then no clock
fires twice at an instant. -/
theorem firings_in_order (hb : b.Made log) (hbuild : b.build = .ok simulation)
    (h : simulation.Reaches trace machine)
    (hexact : ∀ d ∈ System.seenOf j trace, d.Exact)
    {d e : Dispatch M} {front middle back : List (Dispatch M)}
    (hseen : System.seenOf j trace = front ++ d :: (middle ++ e :: back))
    (hd : d.fires id = true) (he : e.fires id = true) (hlast : e.activity.time < Time.never) :
    d.activity.time ≤ e.activity.time ∧
    (∀ c ∈ d.calls, ∀ c' ∈ e.calls, c.cycle ≤ c'.cycle) ∧
    (b.config.clock.policy = .nextBoundary → d.activity.time < e.activity.time ∧
      ∀ c ∈ d.calls, ∀ c' ∈ e.calls, c.cycle < c'.cycle) ∧
    (b.config.clock.priority ≤ Priority.event → d.activity.time < e.activity.time) := by
  obtain ⟨labels, cohort, hrun, htracks, _⟩ := h.cohort hb hbuild
  obtain ⟨hconforms, _⟩ := agrees_run hb hbuild hrun
  have hmem : d ∈ System.seenOf j trace := by
    rw [hseen]
    exact List.mem_append_right _ (List.mem_cons_self ..)
  have hj := lt_of_mem_seenOf hb hbuild hrun hmem
  obtain ⟨p, hp⟩ : ∃ p, simulation.partitions[j]? = some p := ⟨_, List.getElem?_eq_getElem hj⟩
  obtain ⟨s, hs⟩ : ∃ s, cohort[j]? = some s :=
    ⟨_, List.getElem?_eq_getElem (by rw [hconforms.length]; exact hj)⟩
  have hwent : s.Went p.start True (System.seenOf j trace) :=
    went_run hb hbuild hrun (fun _ => hexact) hp hs
  obtain ⟨hregular, hadjusts⟩ := regular_start True hb hbuild hp
  -- where `d` and `e` were made
  obtain ⟨q, hcourse, hnext⟩ := hwent.made hseen
  obtain ⟨r, hafter⟩ := hwent.exists_after (e := e) hseen
    (List.mem_append_right _ (List.mem_cons_self ..))
  obtain ⟨q', hmiddle, hnext'⟩ := (hwent.split hseen hafter).made rfl
  obtain ⟨hle, factor, cycle, next, hrefires⟩ := hcourse.refires hnext (hexact d hmem) hafter
    hmiddle hnext' hregular (tidy_start hb hbuild hp) (counts_start hb hbuild hp) hd he hlast
  rw [hadjusts.config] at hrefires
  refine ⟨hle, ?_, ?_, fun hpriority => hrefires.of_priority hpriority⟩
  · intro c hc c' hc'
    rw [hrefires.calls c hc, hrefires.nexts c' hc']
    exact hrefires.cycle_le
  · intro hpolicy
    obtain ⟨hlater, hcycle⟩ := hrefires.of_nextBoundary hpolicy
    refine ⟨hlater, fun c hc c' hc' => ?_⟩
    rw [hrefires.calls c hc, hrefires.nexts c' hc']
    exact hcycle

theorem firings_in_order_duet : ∃ trace machine front d middle e back,
    Metronome.duet.Reaches trace machine ∧
    System.seenOf 0 trace = front ++ d :: (middle ++ e :: back) ∧
    d.fires 0 = true ∧ e.fires 0 = true ∧ e.activity.time < Time.never ∧
    d.activity.time ≤ e.activity.time ∧
    (∀ c ∈ d.calls, ∀ c' ∈ e.calls, c.cycle ≤ c'.cycle) ∧
    (({} : ClockConfig).policy = .nextBoundary → d.activity.time < e.activity.time ∧
      ∀ c ∈ d.calls, ∀ c' ∈ e.calls, c.cycle < c'.cycle) ∧
    (({} : ClockConfig).priority ≤ Priority.event → d.activity.time < e.activity.time) := by
  have h := Metronome.reaches_run Metronome.duet 12
  have hseen : System.seenOf 0 (Metronome.run Metronome.duet 12).1 =
      [_] ++ _ :: ([_] ++ _ :: _) := rfl
  exact ⟨_, _, _, _, _, _, _, h, hseen, rfl, rfl, by decide,
    firings_in_order Metronome.made_duet Metronome.build_duet h
      (fun d _ => Dispatch.exact_of_panics rfl d) hseen
      (show Dispatch.fires _ 0 = true from rfl) rfl (by decide)⟩

/-- A clock whose turn comes after those of events can fire twice at an instant, and hand out a
cycle twice: the only handler goes, and an event that it has caused adds another one. -/
theorem echo_repeats : ∃ trace machine front d middle e back,
    Metronome.echo.Reaches trace machine ∧
    System.seenOf 0 trace = front ++ d :: (middle ++ e :: back) ∧
    d.fires 0 = true ∧ e.fires 0 = true ∧ d.activity.time = e.activity.time ∧
    d.activity.time < Time.never ∧
    d.calls.map Called.cycle = [2] ∧ e.calls.map Called.cycle = [2] := by
  have h := Metronome.reaches_run Metronome.echo 12
  have hseen : System.seenOf 0 (Metronome.run Metronome.echo 12).1 =
      [_] ++ _ :: ([_] ++ _ :: _) := rfl
  exact ⟨_, _, _, _, _, _, _, h, hseen, rfl, rfl, rfl, by decide, rfl, rfl⟩

end Simulation

end Lookahead
