import Lookahead.Proofs.Firings
import Lookahead.Proofs.Metronome

/-!
Clocks and their turns throughout a run.

Clocks are regular when a simulation is built, and every course keeps them so: whatever is
registered and removed, a clock that is scheduled has one turn pending and any other has none
(`Simulation.clocks_regular`).
-/

namespace Lookahead

variable {M : Model} {safe : Prop}

/-! ## Courses -/

theorem Partition.Waits.turns {p q : Partition M} (h : p.Waits q) (id : ClockId) :
    q.timeline.turns id = p.timeline.turns id := by
  obtain ⟨added, hadded, hnone⟩ := h.timeline
  rw [hadded]
  exact Timeline.turns_addAll _ fun a ha => by rw [(hnone a ha).2.1]; exact nofun

namespace Partition.Course

variable {p q r : Partition M} {ds more : List (Dispatch M)}

theorem regular (h : p.Course safe ds q) (hp : p.clocks.Regular safe p.timeline) :
    q.clocks.Regular safe q.timeline ∧ q.clocks.config = p.clocks.config ∧
      p.clocks.periods <+: q.clocks.periods := by
  refine h.invariant (P := fun q => q.clocks.Regular safe q.timeline ∧
    q.clocks.config = p.clocks.config ∧ p.clocks.periods <+: q.clocks.periods)
    ⟨hp, rfl, List.prefix_rfl⟩ ?_ ?_
  · intro q r ⟨hregular, hconfig, hperiods⟩ hwaits
    rw [hwaits.clocks]
    exact ⟨hregular.of_turns hwaits.turns, hconfig, hperiods⟩
  · intro q d r ⟨hregular, hconfig, hperiods⟩ hnext hexact hafter
    obtain ⟨set, timeline, _, hleaves, hadjusts, hregular'⟩ := hregular.upkeep hnext hexact hafter
    refine ⟨hregular', hadjusts.config.trans (hleaves.config.trans hconfig), ?_⟩
    rw [← hleaves.periods] at hperiods
    exact hperiods.trans hadjusts.periods

/-- The clocks of a partition after these dispatches: only dispatches change them. -/
theorem clocks_eq (h : p.Course safe ds q) :
    q.clocks = (ds.getLast?.bind Dispatch.after?).elim p.clocks Partition.clocks := by
  induction h with
  | refl => rfl
  | waits h hwaits ih => rw [hwaits.clocks, ih]
  | dispatch h hnext hexact hafter ih => simp [hafter]

/-- A course can be cut anywhere. -/
theorem append (h : p.Course safe (ds ++ more) q) :
    ∃ r, p.Course safe ds r ∧ r.Course safe more q := by
  generalize hall : ds ++ more = all at h
  induction h generalizing more with
  | refl =>
    obtain ⟨rfl, rfl⟩ := List.append_eq_nil_iff.mp hall
    exact ⟨p, .refl, .refl⟩
  | waits h hwaits ih =>
    obtain ⟨r, hr, hcourse⟩ := ih hall
    exact ⟨r, hr, .waits hcourse hwaits⟩
  | @dispatch q s all d h hnext hexact hafter ih =>
    rcases List.eq_nil_or_concat more with rfl | ⟨rest, e, rfl⟩
    · rw [List.append_nil] at hall
      subst hall
      exact ⟨s, .dispatch h hnext hexact hafter, .refl⟩
    · rw [List.concat_eq_append, ← List.append_assoc] at hall
      obtain ⟨hds, he⟩ := List.append_inj' hall rfl
      obtain ⟨r, hr, hcourse⟩ := ih hds
      obtain rfl := List.singleton_inj.mp he
      rw [List.concat_eq_append]
      exact ⟨r, hr, .dispatch hcourse hnext hexact hafter⟩

end Partition.Course

/-! ## Builders -/

/-- What is asked of a builder after it was `b`. -/
inductive Builder.Extends (b : Builder M) : Builder M → Prop
  | refl : Extends b b
  | addEnd {c c' : Builder M} {partition : PartitionId} {name : String} {latency : Nat}
      {receiver : Option M.Receiver} {linkEnd : LinkEnd} (hc : Extends b c)
      (h : c.addEnd partition name latency receiver = .ok (linkEnd, c')) : Extends b c'
  | scheduleEvent {c c' : Builder M} {linkEnd : LinkEnd} {time : Time} {payload : M.Payload}
      {priority : Int} (hc : Extends b c)
      (h : c.scheduleEvent linkEnd time payload priority = .ok c') : Extends b c'
  | registerClock {c c' : Builder M} {partition : PartitionId} {period : Period}
      {handler : M.Ticker} {handle : ClockHandle} (hc : Extends b c)
      (h : c.registerClock partition period handler = .ok (handle, c')) : Extends b c'
  | unregisterClock {c c' : Builder M} {partition : PartitionId} {handle : ClockHandle}
      {empty : Bool} (hc : Extends b c)
      (h : c.unregisterClock partition handle = .ok (empty, c')) : Extends b c'
  | addParticipant {c c' : Builder M} {partition : PartitionId} {participant : M.Participant}
      (hc : Extends b c) (h : c.addParticipant partition participant = .ok c') : Extends b c'

theorem Builder.Made.extends {b : Builder M} {log : List (Planned M.Payload)} (h : b.Made log) :
    ∃ (config : Config) (first : Builder M), Builder.ofConfig config = .ok first ∧
      first.Extends b := by
  induction h with
  | ofConfig h => exact ⟨_, _, h, .refl⟩
  | addEnd _ h ih =>
    obtain ⟨config, first, hfirst, hextends⟩ := ih
    exact ⟨config, first, hfirst, .addEnd hextends h⟩
  | scheduleEvent _ h ih =>
    obtain ⟨config, first, hfirst, hextends⟩ := ih
    exact ⟨config, first, hfirst, .scheduleEvent hextends h⟩
  | registerClock _ h ih =>
    obtain ⟨config, first, hfirst, hextends⟩ := ih
    exact ⟨config, first, hfirst, .registerClock hextends h⟩
  | unregisterClock _ h ih =>
    obtain ⟨config, first, hfirst, hextends⟩ := ih
    exact ⟨config, first, hfirst, .unregisterClock hextends h⟩
  | addParticipant _ h ih =>
    obtain ⟨config, first, hfirst, hextends⟩ := ih
    exact ⟨config, first, hfirst, .addParticipant hextends h⟩

namespace PartitionSetup

/-- `setup'` has the clocks of `setup`, and others that were started since. They all were at the
start of time, so none has overflowed. -/
def Keeps (setup setup' : PartitionSetup M) : Prop :=
  ∀ safe : Prop, setup.clocks.Regular safe setup.timeline → setup.timeline.now = Time.zero →
    setup'.clocks.Regular safe setup'.timeline ∧
      setup.clocks.Adjusts safe setup.timeline setup'.clocks setup'.timeline

variable {setup setup' setup'' : PartitionSetup M}

theorem Keeps.of_eq (hclocks : setup'.clocks = setup.clocks)
    (htimeline : setup'.timeline = setup.timeline) : setup.Keeps setup' := by
  intro safe h _
  rw [hclocks, htimeline]
  exact ⟨h, .refl _ _⟩

theorem Keeps.trans (h : setup.Keeps setup') (h' : setup'.Keeps setup'') :
    setup.Keeps setup'' := by
  intro safe hregular hzero
  obtain ⟨hregular', hadjusts⟩ := h safe hregular hzero
  obtain ⟨hregular'', hadjusts'⟩ := h' safe hregular' (hadjusts.now.trans hzero)
  exact ⟨hregular'', hadjusts.trans hadjusts'⟩

end PartitionSetup

namespace Builder

variable {b c c' : Builder M}

/-- Every partition of `c` has kept the clocks that it had in `b`. -/
structure Keeps (b c : Builder M) : Prop where
  config : c.config = b.config
  setups : ∀ (j : PartitionId) (setup' : PartitionSetup M), c.setups[j]? = some setup' →
    ∃ setup, b.setups[j]? = some setup ∧ setup.Keeps setup'

theorem Keeps.set (h : b.Keeps c) {i : PartitionId} {setup changed : PartitionSetup M}
    (hsetup : c.setups[i]? = some setup) (hconfig : c'.config = c.config)
    (hsetups : c'.setups = c.setups.set i changed) (hkeeps : setup.Keeps changed) :
    b.Keeps c' := by
  refine ⟨hconfig.trans h.config, ?_⟩
  intro j setup' hsetup'
  rw [hsetups] at hsetup'
  by_cases hij : j = i
  · subst hij
    rw [List.getElem?_set_self (List.getElem?_eq_some_iff.mp hsetup).1] at hsetup'
    obtain rfl := Option.some.inj hsetup'
    obtain ⟨first, hfirst, hbefore⟩ := h.setups j setup hsetup
    exact ⟨first, hfirst, hbefore.trans hkeeps⟩
  · rw [List.getElem?_set_ne (Ne.symm hij)] at hsetup'
    exact h.setups j setup' hsetup'

/-- Whatever is asked of a builder, clocks that were started stay where they are. -/
theorem Extends.keeps (h : b.Extends c) : b.Keeps c := by
  induction h with
  | refl => exact ⟨rfl, fun _ setup h => ⟨setup, h, .of_eq rfl rfl⟩⟩
  | addEnd _ h ih =>
    obtain ⟨setup, _, _, _, hsetup, _, rfl⟩ := addEnd_eq_ok h
    exact ih.set hsetup rfl rfl (.of_eq rfl rfl)
  | @scheduleEvent c c' linkEnd time payload priority _ h ih =>
    obtain ⟨setup, hsetup, rfl⟩ := scheduleEvent_eq_ok h
    refine ih.set hsetup rfl rfl fun _ hregular _ => ?_
    have hturns : ∀ id, (setup.timeline.insert time priority
        (.deliver ⟨linkEnd.link, payload⟩)).turns id = setup.timeline.turns id :=
      fun id => setup.timeline.turns_add_of_ne nofun
    exact ⟨hregular.of_turns hturns, .of_turns rfl rfl hturns⟩
  | registerClock _ h ih =>
    obtain ⟨setup, hsetup, rfl⟩ := registerClock_eq_ok h
    refine ih.set hsetup rfl rfl fun _ hregular hzero => hregular.attach fun _ => ?_
    simp [hzero, ClockSet.overflowsOn, Period.overflowsAfter_zero]
  | unregisterClock _ h ih =>
    obtain ⟨setup, clocks, hsetup, hclocks, rfl⟩ := unregisterClock_eq_ok h
    exact ih.set hsetup rfl rfl fun _ hregular _ => hregular.unregister hclocks
  | addParticipant _ h ih =>
    obtain ⟨setup, hsetup, rfl⟩ := addParticipant_eq_ok h
    exact ih.set hsetup rfl rfl (.of_eq rfl rfl)

/-- The clocks of a builder are regular, and were all started at the start of time. -/
theorem Made.regular {log : List (Planned M.Payload)} (hb : b.Made log) {j : PartitionId}
    {setup : PartitionSetup M} (hsetup : b.setups[j]? = some setup) :
    setup.clocks.Regular safe setup.timeline ∧
      ({ config := b.config.clock } : ClockSet M.Ticker).Adjusts safe {} setup.clocks
        setup.timeline := by
  obtain ⟨config, first, hfirst, hextends⟩ := hb.extends
  have hkeeps := hextends.keeps
  obtain ⟨_, _, _, rfl⟩ := ofConfig_eq_ok hfirst
  obtain ⟨blank, hblank, hsetupKeeps⟩ := hkeeps.setups j setup hsetup
  have hblank' := (List.getElem?_replicate.symm.trans hblank)
  split at hblank'
  · obtain rfl := Option.some.inj hblank'
    rw [hkeeps.config]
    exact hsetupKeeps safe (ClockSet.regular_empty config.clock) rfl
  · cases hblank'

/-- Clocks that were there earlier have kept their numbers. -/
theorem Extends.periods {log : List (Planned M.Payload)} (h : b.Extends c) (hb : b.Made log)
    {j : PartitionId} {setup setup' : PartitionSetup M} (hsetup : b.setups[j]? = some setup)
    (hsetup' : c.setups[j]? = some setup') : setup.clocks.periods <+: setup'.clocks.periods := by
  obtain ⟨first, hfirst, hkeeps⟩ := h.keeps.setups j setup' hsetup'
  rw [hsetup] at hfirst
  obtain rfl := Option.some.inj hfirst
  obtain ⟨hregular, hadjusts⟩ : setup.clocks.Regular True setup.timeline ∧ _ := hb.regular hsetup
  exact (hkeeps True hregular hadjusts.now).2.periods

end Builder

/-! ## Runs -/

theorem Tracks.stance_of_running {machine : Machine M} {cohort : Cohort M} {i : PartitionId}
    {work : Work} {p : Partition M} (h : Tracks machine cohort)
    (ht : machine.threads[i]? = some (.running work p)) :
    cohort[i]? = some (.running work p) := by
  cases h with
  | handing rounds parties hne hready h =>
    obtain ⟨q, _, hhands⟩ := h.stands i _ ht
    cases hhands
  | taking rounds parties hne hready h =>
    obtain ⟨q, _, _, _, _, _, htakes⟩ := h.stands i _ ht
    cases htakes
  | gathering rounds h =>
    obtain ⟨s, hs, hgathers⟩ := h.stands i _ ht
    cases hgathers
    exact hs

theorem Partition.turns_start (p : Partition M) (id : ClockId) :
    p.start.timeline.turns id = p.timeline.turns id := by
  rw [start_eq]
  refine Timeline.turns_addAll _ fun a ha => ?_
  unfold appointments at ha
  rcases List.mem_append.mp ha with ha | ha
  · split at ha
    · rw [List.mem_singleton.mp ha]
      exact nofun
    · cases ha
  · obtain ⟨time, _, rfl⟩ := List.mem_map.mp ha
    exact nofun

namespace Simulation

variable {b : Builder M} {log : List (Planned M.Payload)} {simulation : Simulation M}
  {trace : List (PartitionId × Dispatch M)} {machine : Machine M} {j : PartitionId}
  {p : Partition M}

theorem exists_setup (hbuild : b.build = .ok simulation)
    (hp : simulation.partitions[j]? = some p) :
    ∃ setup, b.setups[j]? = some setup ∧ p.clocks = setup.clocks ∧
      p.timeline = setup.timeline := by
  obtain ⟨_, window, _, rfl⟩ := Builder.build_eq_ok hbuild
  rw [List.getElem?_mapIdx] at hp
  obtain ⟨setup, hsetup, rfl⟩ := Option.map_eq_some_iff.mp hp
  exact ⟨setup, hsetup, rfl, rfl⟩

/-- A partition begins with clocks that are regular, and that were all started at the start of time.
-/
theorem regular_start (safe : Prop) (hb : b.Made log) (hbuild : b.build = .ok simulation)
    (hp : simulation.partitions[j]? = some p) :
    p.start.clocks.Regular safe p.start.timeline ∧
      ({ config := b.config.clock } : ClockSet M.Ticker).Adjusts safe {} p.start.clocks
        p.start.timeline := by
  obtain ⟨setup, hsetup, hclocks, htimeline⟩ := exists_setup hbuild hp
  obtain ⟨hregular, hadjusts⟩ := hb.regular hsetup
  rw [← hclocks, ← htimeline] at hregular hadjusts
  have hnow : p.start.timeline.now = p.timeline.now := by
    rw [Partition.start_eq, Timeline.now_addAll]
  have hpriority : p.start.timeline.priority = p.timeline.priority := by
    rw [Partition.start_eq, Timeline.priority_addAll]
  have hsame : p.start.clocks = p.clocks := rfl
  rw [hsame]
  exact ⟨hregular.of_turns p.turns_start,
    hadjusts.trans (.of_turns hnow hpriority p.turns_start)⟩

theorem Reaches.course (hb : b.Made log) (hbuild : b.build = .ok simulation)
    (h : simulation.Reaches trace machine)
    (hexact : safe → ∀ d ∈ System.seenOf j trace, d.Exact)
    {work : Work} (ht : machine.threads[j]? = some (.running work p)) :
    ∃ q, simulation.partitions[j]? = some q ∧ q.start.Course safe (System.seenOf j trace) p := by
  obtain ⟨labels, cohort, hrun, htracks, _⟩ := h.cohort hb hbuild
  have hs := htracks.stance_of_running ht
  obtain ⟨hconforms, _⟩ := agrees_run hb hbuild hrun
  have hlt : j < simulation.partitions.length := by
    have hplace := (List.getElem?_eq_some_iff.mp hs).1
    rw [hconforms.length] at hplace
    exact hplace
  have hp := List.getElem?_eq_getElem hlt
  have hwent := went_run hb hbuild hrun hexact hp hs
  exact ⟨_, hp, hwent.course (fun _ _ => by simp)⟩

/-- Between two dispatches a clock that is scheduled has exactly one turn pending and any other has
none. Who has handlers is scheduled, and every turn is that of a clock, in the configured priority
and at a multiple of its period. There is one clock for a period, and clocks are numbered as they
were made. -/
theorem clocks_regular (hb : b.Made log) (hbuild : b.build = .ok simulation)
    (h : simulation.Reaches trace machine) (ht : machine.threads[j]? = some (.running .timed p)) :
    (∀ id clock, p.clocks.clocks[id]? = some clock →
      (p.timeline.countPending fun action => action.clock? == some id) =
          (if clock.scheduled then 1 else 0) ∧
        (clock.handlers ≠ [] → clock.scheduled = true) ∧ clock.id = id) ∧
    (∀ a ∈ p.timeline.pending, ∀ id, a.payload = .clock id →
      ∃ clock, p.clocks.clocks[id]? = some clock ∧ a.priority = b.config.clock.priority ∧
        ((∀ d ∈ System.seenOf j trace, d.Exact) → a.time < Time.never →
          clock.period.factor ∣ a.time.ticks)) ∧
    (p.clocks.clocks.map fun clock => clock.period.factor).Nodup ∧
    (∀ (first : Builder M) (earlier : List (Planned M.Payload)) (setup : PartitionSetup M),
      first.Made earlier → first.Extends b → first.setups[j]? = some setup →
        setup.clocks.periods <+: p.clocks.periods) ∧
    ∀ (schedule : List PartitionId) (later : List (PartitionId × Dispatch M)) (final : Machine M)
      (q : Partition M), (Machine.system M).Run machine schedule later final →
        final.threads[j]? = some (.running .timed q) → p.clocks.periods <+: q.clocks.periods := by
  obtain ⟨start, hstart, hcourse⟩ := h.course hb hbuild id ht
  obtain ⟨hregularStart, hadjusts⟩ := regular_start _ hb hbuild hstart
  obtain ⟨hregular, hconfig, hperiods⟩ := hcourse.regular hregularStart
  rw [hadjusts.config] at hconfig
  refine ⟨?_, ?_, ?_, ?_, ?_⟩
  · intro id clock hclock
    have hplace := hregular.each id clock hclock
    refine ⟨?_, hplace.awake, hplace.id⟩
    rw [Timeline.countPending_eq]
    cases hscheduled : clock.scheduled with
    | false => rw [hplace.dormant hscheduled]; rfl
    | true =>
      obtain ⟨time, hturn, _⟩ := hplace.queued hscheduled
      rw [hturn]
      rfl
  · intro a ha id hpayload
    have hmem : a.unnumbered ∈ p.timeline.turns id :=
      List.mem_filter.mpr ⟨List.mem_map_of_mem ha, by simp [hpayload, Action.clock?]⟩
    obtain ⟨clock, hclock, hturn⟩ := hregular.clock_of_mem_turns hmem
    obtain ⟨hpriority, hdvd⟩ := hturn
    exact ⟨clock, hclock, hpriority.trans (congrArg ClockConfig.priority hconfig), hdvd⟩
  · have hdistinct := List.pairwise_map.mp hregular.distinct
    exact List.pairwise_map.mpr (hdistinct.imp fun hne heq => hne (Period.ext heq))
  · intro first earlier setup hfirst hextends hsetup
    obtain ⟨setup', hsetup', hclocks, _⟩ := exists_setup hbuild hstart
    have hbefore := hextends.periods hfirst hsetup hsetup'
    rw [← hclocks] at hbefore
    exact hbefore.trans hperiods
  · intro schedule later final q hrun hq
    have hlater : simulation.Reaches (trace ++ later) final := by
      obtain ⟨before, hbefore⟩ := h
      exact ⟨before ++ schedule, hbefore.trans hrun⟩
    obtain ⟨start', hstart', hcourse'⟩ := hlater.course hb hbuild False.elim hq
    obtain rfl := Option.some.inj (hstart.symm.trans hstart')
    rw [System.seenOf_append] at hcourse'
    obtain ⟨r, hr, hrest⟩ := hcourse'.append
    have hsame : r.clocks = p.clocks := hr.clocks_eq.trans hcourse.clocks_eq.symm
    rw [← hsame]
    exact (hrest.regular (hr.regular (regular_start False hb hbuild hstart).1).1).2.2

/-- While both handlers are on the clock it has one turn pending. -/
theorem clocks_regular_duet : ∃ trace machine p clock, Metronome.duet.Reaches trace machine ∧
    machine.threads[0]? = some (.running .timed p) ∧ p.clocks.clocks[0]? = some clock ∧
    clock.handlers.length = 2 ∧
    (p.timeline.countPending fun action => action.clock? == some 0) =
      (if clock.scheduled then 1 else 0) ∧
    (clock.handlers ≠ [] → clock.scheduled = true) ∧ clock.id = 0 := by
  have h := Metronome.reaches_run Metronome.duet 3
  exact ⟨_, _, _, _, h, rfl, rfl, rfl,
    (clocks_regular (j := 0) Metronome.made_duet Metronome.build_duet h rfl).1 0 _ rfl⟩

end Simulation

end Lookahead
