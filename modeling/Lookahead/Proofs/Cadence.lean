import Lookahead.Proofs.Upkeep

/-!
When a clock fires.

From the moment that it is started a clock is on a beat: its turns are exactly one period apart, and
the cycle that it hands out is one more each time, as long as anyone is on it. Nothing that is
dispatched in between moves it (`Partition.OnBeat.course`).
-/

namespace Lookahead

variable {M : Model}

theorem Time.ofNat_after (n duration : Nat) : (Time.ofNat n).after duration =
    Time.ofNat (n + duration) := by
  apply Time.ext
  simp only [Time.ticks_after, Time.ticks_ofNat]
  omega

/-! ## Firings -/

namespace Dispatch

def fires (d : Dispatch M) (id : ClockId) : Bool := d.activity.payload.clock? == some id

def Holds (d : Dispatch M) (id : ClockId) : Prop :=
  ∃ set clock, d.fired? = some set ∧ set.clocks[id]? = some clock ∧ clock.handlers ≠ []

variable {d : Dispatch M} {id : ClockId}

theorem fires_iff : d.fires id = true ↔ d.activity.payload.clock? = some id := by
  simp [fires]

end Dispatch

/-- The clock that a dispatch fires calls its handlers in order, with one and the same cycle, and
all of them unless one panics. -/
theorem Dispatch.calls_of_clock {d : Dispatch M} {id : ClockId} {clock : Clock M.Ticker}
    (hfires : d.fires id = true) (hclock : d.partition.clocks.clocks[id]? = some clock) :
    (∀ c ∈ d.calls, c.cycle = clock.nextCycle) ∧
      d.calls.map Called.entry <+: clock.handlers ∧
      (d.after? ≠ none → d.calls.map Called.entry = clock.handlers) := by
  have hpayload := Action.clock?_eq_some.mp (Dispatch.fires_iff.mp hfires)
  have hcalls : d.calls =
      Lookahead.calls M.tick clock.nextCycle clock.handlers d.partition.context := by
    simp only [calls, hpayload, hclock]
  rw [hcalls]
  refine ⟨fun c => cycle_of_mem_calls, calls_prefix .., ?_⟩
  intro hafter
  apply calls_of_callAll
  intro hnone
  apply hafter
  cases hhandlers : clock.handlers with
  | nil =>
    rw [hhandlers] at hnone
    cases hnone
  | cons entry rest =>
    unfold after?
    rw [hpayload]
    simp only [Partition.act, Partition.fire, ClockSet.fire, hclock, Clock.fire]
    rw [if_neg (by simp [hhandlers])]
    generalize callAll M.tick clock.nextCycle clock.handlers d.partition.context = result at hnone
    obtain ⟨ctx, value⟩ := result
    obtain rfl : value = none := hnone
    rfl

/-! ## Beats -/

/-- The clock is about to fire at tick `next`, or never if that is too late, and to hand out
`cycle`.
-/
structure Partition.OnBeat (q : Partition M) (id : ClockId) (period : Period) (next cycle : Nat) :
    Prop where
  regular : q.clocks.Regular False q.timeline
  clock : ∃ clock, q.clocks.clocks[id]? = some clock ∧ clock.period = period ∧
    clock.scheduled = true ∧ clock.nextCycle = cycle ∧
    q.timeline.turns id = [clock.turn (Time.ofNat next)]

namespace Partition.OnBeat

variable {q r : Partition M} {id : ClockId} {period : Period} {next cycle : Nat}
  {safe : Prop} {d : Dispatch M} {ds : List (Dispatch M)}

theorem waits (h : q.OnBeat id period next cycle) (hwaits : q.Waits r) :
    r.OnBeat id period next cycle := by
  obtain ⟨clock, hclock, hperiod, hscheduled, hcycle, hturn⟩ := h.clock
  refine ⟨?_, clock, ?_, hperiod, hscheduled, hcycle, ?_⟩
  · rw [hwaits.clocks]
    exact h.regular.of_turns hwaits.turns
  · rw [hwaits.clocks]
    exact hclock
  · rw [hwaits.turns]
    exact hturn

theorem time_eq (h : q.OnBeat id period next cycle) (hnext : q.next? = some d)
    (hfires : d.fires id = true) : d.activity.time = Time.ofNat next := by
  obtain ⟨clock, hclock, _, _, _, hturn⟩ := h.clock
  obtain ⟨c, hc, _, hturn', _⟩ := h.regular.turn_of_next? hnext (Dispatch.fires_iff.mp hfires)
  obtain rfl := Option.some.inj (hclock.symm.trans hc)
  rw [hturn] at hturn'
  exact (congrArg Activity.time (List.singleton_inj.mp hturn')).symm

theorem of_adjusts {set : ClockSet M.Ticker} {timeline : Timeline M.Payload}
    {clock : Clock M.Ticker} (hadjusts : set.Adjusts False timeline r.clocks r.timeline)
    (hregular : r.clocks.Regular False r.timeline) (hclock : set.clocks[id]? = some clock)
    (hperiod : clock.period = period) (hscheduled : clock.scheduled = true)
    (hcycle : clock.nextCycle = cycle)
    (hturn : timeline.turns id = [clock.turn (Time.ofNat next)]) :
    r.OnBeat id period next cycle := by
  obtain ⟨clock', hclock', halike, hturns⟩ := hadjusts.of_scheduled hclock hscheduled
  refine ⟨hregular, clock', hclock', halike.period.trans hperiod,
    halike.scheduled.trans hscheduled, ?_, ?_⟩
  · rw [← hcycle]
    exact congrArg (· + 1) halike.cycle
  · rw [hturns, hturn, halike.turn]

/-- Nothing else moves a clock. -/
theorem other (h : q.OnBeat id period next cycle) (hnext : q.next? = some d)
    (hafter : d.after? = some r) (hfires : d.fires id = false) :
    r.OnBeat id period next cycle := by
  obtain ⟨set, timeline, _, hleaves, hadjusts, hregular⟩ := h.regular.upkeep hnext False.elim hafter
  obtain ⟨clock, hclock, hperiod, hscheduled, hcycle, hturn⟩ := h.clock
  have hnot : d.activity.payload.clock? ≠ some id := by
    intro hid
    rw [Dispatch.fires_iff.mpr hid] at hfires
    cases hfires
  obtain ⟨hsame, hturns⟩ := hleaves.others id hnot
  exact of_adjusts hadjusts hregular (hsame.trans hclock) hperiod hscheduled hcycle
    (hturns.trans hturn)

/-- A firing after which anyone is left is followed by the next beat. -/
theorem fire (h : q.OnBeat id period next cycle) (hnext : q.next? = some d)
    (hafter : d.after? = some r) (hfires : d.fires id = true) (hholds : d.Holds id) :
    r.OnBeat id period (next + period.factor) (cycle + 1) := by
  obtain ⟨set, timeline, hfired, hleaves, hadjusts, hregular⟩ :=
    h.regular.upkeep hnext False.elim hafter
  have htime := h.time_eq hnext hfires
  obtain ⟨clock, hclock, rfl, hscheduled, rfl, hturn⟩ := h.clock
  obtain ⟨clock', hclock', hperiod, hcases⟩ :=
    hleaves.own id clock (Dispatch.fires_iff.mp hfires) hclock
  obtain ⟨set', c, hset', hc, hhandlers⟩ := hholds
  obtain rfl := Option.some.inj (hfired.symm.trans hset')
  obtain rfl := Option.some.inj (hclock'.symm.trans hc)
  rcases hcases with ⟨hnobody, _⟩ | ⟨_, hscheduled', hcycle, hturn'⟩
  · exact absurd hnobody hhandlers
  · rw [htime, Time.ofNat_after] at hturn'
    exact of_adjusts hadjusts hregular hclock' hperiod hscheduled'
      (congrArg (· + 1) hcycle) hturn'

/-- A clock that is always held stays on its beat. -/
theorem course (h : q.OnBeat id period next cycle) (hcourse : q.Course safe ds r)
    (hholds : ∀ d ∈ ds, d.fires id = true → d.Holds id) :
    r.OnBeat id period (next + ds.countP (·.fires id) * period.factor)
      (cycle + ds.countP (·.fires id)) := by
  induction hcourse with
  | refl => simpa using h
  | waits _ hwaits ih => exact (ih hholds).waits hwaits
  | @dispatch s r ds d _ hnext _ hafter ih =>
    have hbefore := ih fun e he => hholds e (List.mem_append_left _ he)
    rw [List.countP_append]
    cases hfires : d.fires id with
    | false =>
      simpa [hfires] using hbefore.other hnext hafter hfires
    | true =>
      have hd := hholds d (List.mem_append_right _ (List.mem_singleton_self d)) hfires
      have hnow := hbefore.fire hnext hafter hfires hd
      simpa [hfires, Nat.add_mul, Nat.add_assoc] using hnow

theorem calls (h : q.OnBeat id period next cycle) (hnext : q.next? = some d)
    (hfires : d.fires id = true) :
    (∀ c ∈ d.calls, c.cycle = cycle) ∧
      ∃ clock, d.partition.clocks.clocks[id]? = some clock ∧ clock.period = period ∧
        d.calls.map Called.entry <+: clock.handlers ∧
        (d.after? ≠ none → d.calls.map Called.entry = clock.handlers) := by
  obtain ⟨clock, hclock, hperiod, _, rfl, _⟩ := h.clock
  rw [← ClockSet.Regular.clocks_of_next? hnext] at hclock
  obtain ⟨hcycle, hprefix, hall⟩ := Dispatch.calls_of_clock hfires hclock
  exact ⟨hcycle, clock, hclock, hperiod, hprefix, hall⟩

/-- No dispatch passes the beat over. -/
theorem time_le (h : q.OnBeat id period next cycle) (horder : q.timeline.InOrder)
    (hnext : q.next? = some d) : d.activity.time ≤ Time.ofNat next := by
  obtain ⟨clock, _, _, _, _, hturn⟩ := h.clock
  have hmem : clock.turn (Time.ofNat next) ∈ q.timeline.agenda := by
    have hmem : clock.turn (Time.ofNat next) ∈ q.timeline.turns id := by
      rw [hturn]
      exact List.mem_singleton_self _
    exact (List.mem_filter.mp hmem).1
  exact Course.time_le_of_next? horder hnext _ hmem

end Partition.OnBeat

/-! ## Starts -/

/-- When a clock that is started at `now` in the midst of an activity of priority `priority` fires
first. -/
structure ClockConfig.Begins (config : ClockConfig) (period : Period) (now : Time) (priority : Int)
    (first : Nat) : Prop where
  atOnce : (config.policy = .sameInstant ∧ now ≠ Time.zero ∧ period.factor ∣ now.ticks ∧
    priority < config.priority) → first = now.ticks
  later : ¬ (config.policy = .sameInstant ∧ now ≠ Time.zero ∧ period.factor ∣ now.ticks ∧
    priority < config.priority) →
      now.ticks < first ∧ period.factor ∣ first ∧
        ∀ n, now.ticks < n → period.factor ∣ n → first ≤ n

theorem Clock.exists_begins {κ π : Type} (clock : Clock κ) (timeline : Timeline π)
    (hfits : clock.period.overflowsAfter timeline.now = false) :
    ∃ first, clock.firstFiring timeline = Time.ofNat first ∧
      clock.config.Begins clock.period timeline.now timeline.priority first := by
  unfold firstFiring
  dsimp only
  split
  · rename_i h
    refine ⟨timeline.now.ticks, (Time.ofNat_ticks _).symm, fun _ => rfl, fun hnot => ?_⟩
    exact absurd ⟨h.1, h.2.2.1, Nat.dvd_of_mod_eq_zero h.2.2.2, h.2.1⟩ hnot
  · rename_i h
    refine ⟨clock.period.unitsOf (clock.period.cyclesAt timeline.now + 1),
      Period.nextAfter_of_fits hfits, ?_, ?_⟩
    · rintro ⟨hpolicy, hzero, hdvd, hpriority⟩
      exact absurd ⟨hpolicy, hpriority, hzero, Nat.mod_eq_zero_of_dvd hdvd⟩ h
    · intro _
      refine ⟨clock.period.lt_unitsOf_cyclesAt timeline.now, Nat.dvd_mul_left .., ?_⟩
      rintro n hn ⟨m, rfl⟩
      have hm : clock.period.cyclesAt timeline.now < m :=
        (Nat.div_lt_iff_lt_mul clock.period.factor_pos).mpr (by rwa [Nat.mul_comm])
      rw [Nat.mul_comm]
      exact Nat.mul_le_mul_right _ hm

/-- A clock that has just been started is on the beat that its first firing sets. -/
theorem Clock.Begins.onBeat {r : Partition M} {id : ClockId} {clock : Clock M.Ticker}
    (h : clock.Begins safe r.timeline) (hregular : r.clocks.Regular False r.timeline)
    (hfits : clock.period.overflowsAfter r.timeline.now = false)
    (hclock : r.clocks.clocks[id]? = some clock) :
    ∃ first, r.clocks.config.Begins clock.period r.timeline.now r.timeline.priority first ∧
      r.OnBeat id clock.period first (r.timeline.now.ticks / clock.period.factor + 1) := by
  obtain ⟨first, hfirst, hbegins⟩ := clock.exists_begins r.timeline hfits
  have hplace := hregular.each id clock hclock
  rw [hplace.config] at hbegins
  refine ⟨first, hbegins, hregular, clock, hclock, rfl, h.scheduled, ?_, ?_⟩
  · exact congrArg (· + 1) h.cycle
  · rw [← hfirst, ← hplace.id]
    exact h.turn

namespace Simulation

variable {b : Builder M} {log : List (Planned M.Payload)} {simulation : Simulation M}
  {trace : List (PartitionId × Dispatch M)} {machine : Machine M} {j : PartitionId}
  {id : ClockId} {period : Period} {now : Time} {priority : Int} {since : List (Dispatch M)}

/-- A clock of partition `j` was started at `now` in the midst of an activity of priority
`priority`, and this is what the partition has dispatched since: the clock was started while the
simulation was built, or the handlers of a dispatch left it dormant and then their requests started
it. -/
inductive Started (simulation : Simulation M) (trace : List (PartitionId × Dispatch M))
    (j : PartitionId) (id : ClockId) (period : Period) (now : Time) (priority : Int) :
    List (Dispatch M) → Prop
  | built (p : Partition M) (clock : Clock M.Ticker) (hp : simulation.partitions[j]? = some p)
      (hclock : p.clocks.clocks[id]? = some clock) (hperiod : clock.period = period)
      (hscheduled : clock.scheduled = true) (hnow : p.timeline.now = now)
      (hpriority : p.timeline.priority = priority) :
      Started simulation trace j id period now priority (System.seenOf j trace)
  | dispatch (before since : List (Dispatch M)) (d : Dispatch M) (set : ClockSet M.Ticker)
      (r : Partition M) (clock : Clock M.Ticker)
      (hseen : System.seenOf j trace = before ++ d :: since) (hfired : d.fired? = some set)
      (hdormant : set.scheduled id = false) (hafter : d.after? = some r)
      (hclock : r.clocks.clocks[id]? = some clock) (hperiod : clock.period = period)
      (hscheduled : clock.scheduled = true) (hnow : r.timeline.now = now)
      (hpriority : r.timeline.priority = priority) :
      Started simulation trace j id period now priority since

theorem Started.lt (hb : b.Made log) (hbuild : b.build = .ok simulation)
    (hstarted : simulation.Started trace j id period now priority since)
    {labels : List (Option PartitionId)} {cohort : Cohort M}
    (hrun : (Cohort.system M).Run simulation.cohort labels trace cohort) :
    j < simulation.partitions.length := by
  cases hstarted with
  | built p clock hp => exact (List.getElem?_eq_some_iff.mp hp).1
  | dispatch before since d set r clock hseen =>
    refine lt_of_mem_seenOf hb hbuild hrun (d := d) ?_
    rw [hseen]
    exact List.mem_append_right _ (List.mem_cons_self ..)

theorem Started.onBeat (hb : b.Made log) (hbuild : b.build = .ok simulation)
    (hstarted : simulation.Started trace j id period now priority since)
    (hfits : period.overflowsAfter now = false)
    {labels : List (Option PartitionId)} {cohort : Cohort M}
    (hrun : (Cohort.system M).Run simulation.cohort labels trace cohort) {s : Stance M}
    (hs : cohort[j]? = some s) :
    ∃ (r : Partition M) (first : Nat), b.config.clock.Begins period now priority first ∧
      r.OnBeat id period first (now.ticks / period.factor + 1) ∧ r.timeline.InOrder ∧
      s.Went r False since := by
  obtain ⟨start, hstart⟩ : ∃ start, simulation.partitions[j]? = some start :=
    ⟨_, List.getElem?_eq_getElem (hstarted.lt hb hbuild hrun)⟩
  have hwent : s.Went start.start False (System.seenOf j trace) :=
    went_run hb hbuild hrun False.elim hstart hs
  obtain ⟨hregular, hadjusts⟩ := regular_start False hb hbuild hstart
  have horder := (tidy_start hb hbuild hstart).order
  cases hstarted with
  | built p clock hp hclock hperiod hscheduled hnow hpriority =>
    obtain rfl := Option.some.inj (hp.symm.trans hstart)
    subst hperiod hnow hpriority
    have hclock' : p.start.clocks.clocks[id]? = some clock := hclock
    have hbegins : clock.Begins False p.start.timeline := by
      rcases hadjusts.each id clock hclock' with ⟨c, hc, _⟩ | ⟨_, _, hbegins⟩
      · cases hc
      · exact hbegins
    have hfits' : clock.period.overflowsAfter p.start.timeline.now = false := by
      rw [Partition.start_eq, Timeline.now_addAll]
      exact hfits
    obtain ⟨first, hfirst, hbeat⟩ := hbegins.onBeat hregular hfits' hclock'
    rw [hadjusts.config, Partition.start_eq, Timeline.now_addAll,
      Timeline.priority_addAll] at hfirst
    rw [Partition.start_eq, Timeline.now_addAll, ← Partition.start_eq] at hbeat
    exact ⟨_, first, hfirst, hbeat, horder, hwent⟩
  | dispatch before since d set r clock hseen hfired hdormant hafter hclock hperiod hscheduled
      hnow hpriority =>
    subst hperiod hnow hpriority
    obtain ⟨q, hcourse, hnext⟩ := hwent.made hseen
    obtain ⟨hregular', hconfig, _⟩ := hcourse.regular hregular
    have hcourse' := hcourse.dispatch hnext False.elim hafter
    obtain ⟨set', timeline, hfired', hleaves, hadjusts', hregular''⟩ :=
      hregular'.upkeep hnext False.elim hafter
    obtain rfl := Option.some.inj (hfired.symm.trans hfired')
    have hbegins : clock.Begins False r.timeline := by
      rcases hadjusts'.each id clock hclock with ⟨c, hc, halike, _⟩ | ⟨_, _, hbegins⟩
      · rw [ClockSet.scheduled_of_getElem? hc, ← halike.scheduled, hscheduled] at hdormant
        cases hdormant
      · exact hbegins
    obtain ⟨first, hfirst, hbeat⟩ := hbegins.onBeat hregular'' hfits hclock
    rw [hadjusts'.config, hleaves.config, hconfig, hadjusts.config] at hfirst
    exact ⟨r, first, hfirst, hbeat, hcourse'.inOrder horder, hwent.split hseen hafter⟩

/-- A clock that was started at some instant fires first at that instant, if the policy has it so
and it is a boundary where it still has its turn, and otherwise at the next boundary, if that fits
64 bits. Then it fires every period, as long as anyone is left on it, and hands out one cycle after
another. -/
theorem fires_on_beat (hb : b.Made log) (hbuild : b.build = .ok simulation)
    (h : simulation.Reaches trace machine)
    (hstarted : simulation.Started trace j id period now priority since)
    (hfits : period.overflowsAfter now = false) :
    ∃ first, b.config.clock.Begins period now priority first ∧
      (∀ front d back, since = front ++ d :: back →
        (∀ e ∈ front, e.fires id = true → e.Holds id) →
          d.activity.time ≤ Time.ofNat (first + front.countP (·.fires id) * period.factor) ∧
          (d.fires id = true →
            d.activity.time = Time.ofNat (first + front.countP (·.fires id) * period.factor) ∧
            (∀ c ∈ d.calls,
              c.cycle = now.ticks / period.factor + 1 + front.countP (·.fires id)) ∧
            ∃ clock, d.partition.clocks.clocks[id]? = some clock ∧ clock.period = period ∧
              d.calls.map Called.entry <+: clock.handlers ∧
              (d.after? ≠ none → d.calls.map Called.entry = clock.handlers))) ∧
      ∀ work p, machine.threads[j]? = some (.running work p) →
        (∀ d ∈ since, d.fires id = true → d.Holds id) →
          ∃ clock, p.clocks.clocks[id]? = some clock ∧ clock.period = period ∧
            clock.scheduled = true ∧ p.timeline.turns id =
              [clock.turn (Time.ofNat (first + since.countP (·.fires id) * period.factor))] := by
  obtain ⟨labels, cohort, hrun, htracks, _⟩ := h.cohort hb hbuild
  obtain ⟨hconforms, _⟩ := agrees_run hb hbuild hrun
  have hlt : j < cohort.length := by
    rw [hconforms.length]
    exact hstarted.lt hb hbuild hrun
  obtain ⟨r, first, hbegins, hbeat, horder, hwent⟩ :=
    hstarted.onBeat hb hbuild hfits hrun (List.getElem?_eq_getElem hlt)
  refine ⟨first, hbegins, ?_, ?_⟩
  · intro front d back hsince hholds
    obtain ⟨q, hcourse, hnext⟩ := hwent.made hsince
    have hnow := hbeat.course hcourse hholds
    refine ⟨hnow.time_le (hcourse.inOrder horder) hnext, fun hfires => ?_⟩
    exact ⟨hnow.time_eq hnext hfires, hnow.calls hnext hfires⟩
  · intro work p ht hholds
    have hs := htracks.stance_of_running ht
    rw [List.getElem?_eq_getElem hlt] at hs
    rw [Option.some.inj hs] at hwent
    have hnow := hbeat.course (hwent.course fun _ _ => by simp) hholds
    obtain ⟨clock, hclock, hperiod, hscheduled, _, hturn⟩ := hnow.clock
    exact ⟨clock, hclock, hperiod, hscheduled, hturn⟩

/-- A clock that is started at 20 ahead of its turn fires then, and at 30 for the second time: a
handler that was added meanwhile makes no difference. -/
theorem fires_on_beat_duet : ∃ trace machine since, Metronome.duet.Reaches trace machine ∧
    Metronome.duet.Started trace 0 0 Metronome.ten (Time.ofNat 20) 20 since ∧
    ∃ first front d back,
      ({} : ClockConfig).Begins Metronome.ten (Time.ofNat 20) 20 first ∧
      since = front ++ d :: back ∧ front.countP (·.fires 0) = 1 ∧
      d.activity.time = Time.ofNat (first + 1 * Metronome.ten.factor) ∧
      d.calls.length = 2 ∧ ∀ c ∈ d.calls, c.cycle = 20 / 10 + 1 + 1 := by
  have h := Metronome.reaches_run Metronome.duet 12
  have hseen : System.seenOf 0 (Metronome.run Metronome.duet 12).1 =
      [] ++ _ :: (_ :: _ :: _ :: _) := rfl
  have hstarted : Metronome.duet.Started (Metronome.run Metronome.duet 12).1 0 0 Metronome.ten
      (Time.ofNat 20) 20 _ := .dispatch [] _ _ _ _ _ hseen rfl rfl rfl rfl rfl rfl rfl rfl
  obtain ⟨first, hbegins, hbeat, _⟩ :=
    fires_on_beat Metronome.made_duet Metronome.build_duet h hstarted rfl
  obtain ⟨_, hsecond⟩ := hbeat [_, _] _ _ rfl (by
    intro e he hfires
    rcases List.mem_cons.mp he with rfl | he
    · exact ⟨_, _, rfl, rfl, nofun⟩
    · obtain rfl := List.mem_singleton.mp he
      cases hfires)
  obtain ⟨htime, hcycle, _⟩ := hsecond rfl
  exact ⟨_, _, _, h, hstarted, first, [_, _], _, _, hbegins, rfl, rfl, htime, rfl, hcycle⟩

end Simulation

end Lookahead
