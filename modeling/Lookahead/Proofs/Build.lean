import Lookahead.Proofs.Clock
import Lookahead.Proofs.Wiring
import Lookahead.Simulation.Builder

/-!
Builders that were made by asking for one thing after another, and the simulations they build.

Whatever is asked for, a builder keeps one table and one setup for each partition, no link end is
wired to another end of another partition that does not exist, and nothing is pending but the
scheduled events and clock activities. Building adds that no link between two partitions is faster
than the window (`Builder.Sound.build`).
-/

namespace Lookahead

variable {M : Model}

/-- An event that was scheduled while a simulation was built. -/
structure Planned (π : Type) where
  target : LinkEnd
  time : Time
  priority : Int
  payload : π

def Planned.activity {π : Type} (e : Planned π) : Scheduled π where
  time := e.time
  priority := e.priority
  payload := .deliver ⟨e.target.link, e.payload⟩

/-- A builder that was made like this, with these events scheduled on the way. -/
inductive Builder.Made : Builder M → List (Planned M.Payload) → Prop
  | ofConfig {config : Config} {b : Builder M} (h : Builder.ofConfig config = .ok b) : Made b []
  | addEnd {b b' : Builder M} {log : List (Planned M.Payload)} {partition : PartitionId}
      {name : String} {latency : Nat} {receiver : Option M.Receiver} {linkEnd : LinkEnd}
      (hb : Made b log) (h : b.addEnd partition name latency receiver = .ok (linkEnd, b')) :
      Made b' log
  | scheduleEvent {b b' : Builder M} {log : List (Planned M.Payload)} {linkEnd : LinkEnd}
      {time : Time} {payload : M.Payload} {priority : Int}
      (hb : Made b log) (h : b.scheduleEvent linkEnd time payload priority = .ok b') :
      Made b' (log ++ [⟨linkEnd, time, priority, payload⟩])
  | registerClock {b b' : Builder M} {log : List (Planned M.Payload)} {partition : PartitionId}
      {period : Period} {handler : M.Ticker} {handle : ClockHandle}
      (hb : Made b log) (h : b.registerClock partition period handler = .ok (handle, b')) :
      Made b' log
  | unregisterClock {b b' : Builder M} {log : List (Planned M.Payload)} {partition : PartitionId}
      {handle : ClockHandle} {empty : Bool}
      (hb : Made b log) (h : b.unregisterClock partition handle = .ok (empty, b')) : Made b' log
  | addParticipant {b b' : Builder M} {log : List (Planned M.Payload)} {partition : PartitionId}
      {participant : M.Participant}
      (hb : Made b log) (h : b.addParticipant partition participant = .ok b') : Made b' log

/-! ## Calls that succeed -/

namespace Builder

variable {b b' : Builder M} {partition : PartitionId}

theorem setup_eq_ok {setup : PartitionSetup M} (h : b.setup partition = .ok setup) :
    b.setups[partition]? = some setup := by
  unfold Builder.setup at h
  split at h
  · rename_i s hs
    cases h
    exact hs
  · cases h

theorem addEnd_eq_ok {name : String} {latency : Nat} {receiver : Option M.Receiver}
    {linkEnd : LinkEnd} (h : b.addEnd partition name latency receiver = .ok (linkEnd, b')) :
    ∃ setup registration registry tables, b.setups[partition]? = some setup ∧
      b.registry.register (b.tables.set partition ((b.table partition).push name latency)) name
        ⟨partition, (b.table partition).nextLink⟩ = .ok (registration, registry, tables) ∧
      b' = { b with
        setups := b.setups.set partition { setup with receivers := setup.receivers ++ [receiver] }
        registry, tables } := by
  obtain ⟨setup, hsetup, h⟩ := bind_eq_ok_iff.mp h
  obtain ⟨⟨registration, registry, tables⟩, hregister, h⟩ := bind_eq_ok_iff.mp h
  cases h
  exact ⟨setup, registration, registry, tables, setup_eq_ok hsetup,
    mapError_eq_ok_iff.mp hregister, rfl⟩

theorem scheduleEvent_eq_ok {linkEnd : LinkEnd} {time : Time} {payload : M.Payload}
    {priority : Int} (h : b.scheduleEvent linkEnd time payload priority = .ok b') :
    ∃ setup, b.setups[linkEnd.partition]? = some setup ∧
      b' = b.withSetup linkEnd.partition { setup with
        timeline := setup.timeline.insert time priority (.deliver ⟨linkEnd.link, payload⟩) } := by
  obtain ⟨setup, hsetup, h⟩ := bind_eq_ok_iff.mp h
  obtain ⟨_, _, h⟩ := bind_eq_ok_iff.mp h
  cases h
  exact ⟨setup, setup_eq_ok hsetup, rfl⟩

theorem registerClock_eq_ok {period : Period} {handler : M.Ticker} {handle : ClockHandle}
    (h : b.registerClock partition period handler = .ok (handle, b')) :
    ∃ setup, b.setups[partition]? = some setup ∧
      b' = b.withSetup partition { setup with
        clocks := (setup.clocks.register period handler setup.timeline).2.1
        timeline := (setup.clocks.register period handler setup.timeline).2.2 } := by
  obtain ⟨setup, hsetup, h⟩ := bind_eq_ok_iff.mp h
  cases h
  exact ⟨setup, setup_eq_ok hsetup, rfl⟩

theorem unregisterClock_eq_ok {handle : ClockHandle} {empty : Bool}
    (h : b.unregisterClock partition handle = .ok (empty, b')) :
    ∃ setup clocks, b.setups[partition]? = some setup ∧
      setup.clocks.unregister handle = .ok (empty, clocks) ∧
      b' = b.withSetup partition { setup with clocks } := by
  obtain ⟨setup, hsetup, h⟩ := bind_eq_ok_iff.mp h
  obtain ⟨⟨_, clocks⟩, hclocks, h⟩ := bind_eq_ok_iff.mp h
  cases h
  exact ⟨setup, clocks, setup_eq_ok hsetup, hclocks, rfl⟩

theorem addParticipant_eq_ok {participant : M.Participant}
    (h : b.addParticipant partition participant = .ok b') :
    ∃ setup, b.setups[partition]? = some setup ∧
      b' = b.withSetup partition
        { setup with participants := setup.participants ++ [participant] } := by
  obtain ⟨setup, hsetup, h⟩ := bind_eq_ok_iff.mp h
  cases h
  exact ⟨setup, setup_eq_ok hsetup, rfl⟩

/-- A period given as text is a period. -/
theorem Made.registerClockSpec {log : List (Planned M.Payload)} (hb : b.Made log) {spec : String}
    {handler : M.Ticker} {handle : ClockHandle}
    (h : b.registerClockSpec partition spec handler = .ok (handle, b')) : b'.Made log := by
  obtain ⟨base, _, h⟩ := bind_eq_ok_iff.mp h
  obtain ⟨period, _, h⟩ := bind_eq_ok_iff.mp h
  exact hb.registerClock h

theorem ofConfig_eq_ok {config : Config} (h : ofConfig config = .ok b) :
    0 < config.partitions ∧ config.window ≠ some 0 ∧ config.stopAt ≠ some Time.zero ∧
      b = {
        config := config
        tables := (List.range config.partitions).map fun id => { partition := id }
        setups := List.replicate config.partitions { clocks := { config := config.clock } } } := by
  unfold ofConfig Config.validate at h
  by_cases hpartitions : config.partitions = 0
  · simp [hpartitions, throw, throwThe, MonadExceptOf.throw, bind, Except.bind] at h
  by_cases hranks : config.isMultiRank = true
  · simp [hpartitions, hranks, throw, throwThe, MonadExceptOf.throw, bind, Except.bind] at h
  by_cases hwindow : config.window = some 0
  · simp [hpartitions, hranks, hwindow, throw, throwThe, MonadExceptOf.throw, bind,
      Except.bind] at h
  by_cases hstop : config.stopAt = some Time.zero
  · simp [hpartitions, hranks, hwindow, hstop, throw, throwThe, MonadExceptOf.throw, bind,
      Except.bind] at h
  cases hbase : config.base with
  | error e =>
    simp [hpartitions, hranks, hwindow, hstop, hbase, bind, Except.bind] at h
  | ok base =>
    simp only [hpartitions, hranks, hwindow, hstop, hbase, bind, Except.bind, pure, Except.pure,
      Bool.false_eq_true, ↓reduceIte, Except.ok.injEq] at h
    exact ⟨Nat.pos_of_ne_zero hpartitions, hwindow, hstop, h.symm⟩

end Builder

/-! ## What is pending -/

def Activity.isDelivery {π : Type} (a : Scheduled π) : Bool := a.payload.event?.isSome

/-- The timeline of partition `j` before the run: these events were scheduled, and all else that is
pending are clock activities. -/
structure Timeline.Initial {π : Type} (timeline : Timeline π) (j : PartitionId)
    (log : List (Planned π)) : Prop where
  now : timeline.now = Time.zero
  order : timeline.InOrder
  work : ∀ a ∈ timeline.agenda, a.payload.isWork = true
  planned : (timeline.agenda.filter Activity.isDelivery).Perm
    ((log.filter fun e => e.target.partition == j).map Planned.activity)

namespace Timeline.Initial

variable {π : Type} {timeline : Timeline π} {j : PartitionId} {log : List (Planned π)}

theorem empty (j : PartitionId) : ({} : Timeline π).Initial j [] :=
  ⟨rfl, List.Pairwise.nil, by simp, by simp⟩

theorem schedule (h : timeline.Initial j log) (e : Planned π) (he : e.target.partition = j) :
    (timeline.add e.activity).Initial j (log ++ [e]) := by
  refine ⟨h.now, h.order.add _, ?_, ?_⟩
  · intro a ha
    rcases mem_agenda_add.mp ha with rfl | ha
    · rfl
    · exact h.work a ha
  · have hplace := Ordered.place_perm Activity.before e.activity.unnumbered timeline.agenda
    rw [agenda_add]
    refine (hplace.filter _).trans ?_
    have hdelivers : Activity.isDelivery e.activity.unnumbered = true := rfl
    rw [List.filter_cons_of_pos hdelivers, List.filter_append, List.map_append]
    have hlast : ([e].filter fun e => e.target.partition == j).map Planned.activity =
        [e.activity] := by
      simp [he]
    rw [hlast]
    exact (h.planned.cons _).trans (List.perm_append_singleton _ _).symm

/-- An event is scheduled for another partition. -/
theorem pass (h : timeline.Initial j log) (e : Planned π) (he : e.target.partition ≠ j) :
    timeline.Initial j (log ++ [e]) := by
  refine ⟨h.now, h.order, h.work, ?_⟩
  have : (log ++ [e]).filter (fun e => e.target.partition == j) =
      log.filter fun e => e.target.partition == j := by
    simp [List.filter_append, he]
  rw [this]
  exact h.planned

theorem start (h : timeline.Initial j log) {now : Time} {safe : Prop}
    {starts : List (Scheduled π)} (hstarts : ∀ a ∈ starts, a.IsTick now safe) :
    (timeline.addAll starts).Initial j log := by
  refine ⟨(now_addAll ..).trans h.now, h.order.addAll _, ?_, ?_⟩
  · intro a ha
    rcases mem_agenda_addAll.mp ha with ⟨b, hb, rfl⟩ | ha
    · obtain ⟨id, hid⟩ := (hstarts b hb).clock
      simp [hid, Action.isWork]
    · exact h.work a ha
  · refine ((agenda_addAll_perm timeline starts).filter _).trans ?_
    have hnone : (starts.map Activity.unnumbered).filter Activity.isDelivery = [] := by
      rw [List.filter_eq_nil_iff]
      intro a ha
      obtain ⟨b, hb, rfl⟩ := List.mem_map.mp ha
      obtain ⟨id, hid⟩ := (hstarts b hb).clock
      simp [Activity.isDelivery, hid, Action.event?]
    rw [List.filter_append, hnone]
    exact h.planned

end Timeline.Initial

/-! ## Builders -/

namespace Builder

/-- What holds of a builder whatever was asked of it. -/
structure Sound (b : Builder M) (log : List (Planned M.Payload)) : Prop where
  positive : 0 < b.setups.length
  size : b.tables.length = b.setups.length
  window : b.config.window ≠ some 0
  stopAt : b.config.stopAt ≠ some Time.zero
  wiring : Wiring b.tables b.registry.pending
  setups : ∀ (j : Nat) (setup : PartitionSetup M), b.setups[j]? = some setup →
    setup.timeline.Initial j log

variable {b b' : Builder M} {log : List (Planned M.Payload)} {i : Nat}
  {setup setup' : PartitionSetup M}

theorem Sound.table (h : b.Sound log) (hi : b.setups[i]? = some setup) :
    b.tables[i]? = some (b.table i) := by
  have hlt : i < b.tables.length := by
    rw [h.size]
    exact (List.getElem?_eq_some_iff.mp hi).1
  simp [Builder.table, List.getElem?_eq_getElem hlt]

theorem Sound.withSetup (h : b.Sound log) {log' : List (Planned M.Payload)}
    (hsetup : setup'.timeline.Initial i log')
    (hothers : ∀ (j : Nat) (timeline : Timeline M.Payload), j ≠ i → timeline.Initial j log →
      timeline.Initial j log') : (b.withSetup i setup').Sound log' := by
  refine ⟨?_, ?_, h.window, h.stopAt, h.wiring, ?_⟩
  · simpa [Builder.withSetup] using h.positive
  · simpa [Builder.withSetup] using h.size
  · intro j s hj
    have hj' : (b.setups.set i setup')[j]? = some s := hj
    by_cases hij : i = j
    · subst hij
      obtain ⟨hlt, hget⟩ := List.getElem?_eq_some_iff.mp hj'
      rw [List.getElem_set_self] at hget
      exact hget ▸ hsetup
    · rw [List.getElem?_set_ne hij] at hj'
      exact hothers j _ (Ne.symm hij) (h.setups j s hj')

/-- A builder has no link ends at first. -/
theorem routeAt_ofConfig {config : Config} (h : ofConfig config = .ok b) (e : LinkEnd) :
    routeAt b.tables e = none := by
  obtain ⟨_, _, _, rfl⟩ := ofConfig_eq_ok h
  unfold routeAt
  rw [List.getElem?_map]
  cases (List.range config.partitions)[e.partition]? <;> simp

theorem sound_ofConfig {config : Config} (h : ofConfig config = .ok b) : b.Sound [] := by
  have hroutes := routeAt_ofConfig h
  obtain ⟨hpositive, hwindow, hstop, rfl⟩ := ofConfig_eq_ok h
  refine ⟨by simpa using hpositive, by simp, hwindow, hstop, ⟨?_, ?_, by simp, by simp⟩, ?_⟩
  · intro j table hj
    simp only [List.getElem?_map] at hj
    obtain ⟨id, hid, rfl⟩ := Option.map_eq_some_iff.mp hj
    have := List.getElem?_eq_some_iff.mp hid
    simpa using this.2.symm
  · intro e f route he
    rw [hroutes] at he
    cases he
  · intro j s hj
    obtain ⟨_, hget⟩ := List.getElem?_eq_some_iff.mp hj
    rw [List.getElem_replicate] at hget
    exact hget ▸ Timeline.Initial.empty j

theorem Sound.addEnd (h : b.Sound log) {partition : PartitionId} {name : String} {latency : Nat}
    {receiver : Option M.Receiver} {linkEnd : LinkEnd}
    (hok : b.addEnd partition name latency receiver = .ok (linkEnd, b')) : b'.Sound log := by
  obtain ⟨setup, registration, registry, tables, hsetup, hregister, rfl⟩ := addEnd_eq_ok hok
  obtain ⟨hpushed, hfresh, hnew⟩ := h.wiring.push (h.table hsetup) name latency
  have hwaits : ∀ entry ∈ b.registry.pending,
      entry.2 ≠ (⟨partition, (b.table partition).nextLink⟩ : LinkEnd) := by
    rintro ⟨other, e⟩ hentry rfl
    obtain ⟨route, hroute, _⟩ := h.wiring.waiting other _ hentry
    rw [hfresh] at hroute
    cases hroute
  obtain ⟨hwiring, hlength⟩ := hpushed.register hnew rfl rfl hwaits hregister
  rw [List.length_set] at hlength
  have hkept : (b.withSetup partition
      { setup with receivers := setup.receivers ++ [receiver] }).Sound log :=
    h.withSetup (h.setups partition setup hsetup) fun _ _ _ hinitial => hinitial
  exact ⟨hkept.positive, hlength.trans hkept.size, h.window, h.stopAt, hwiring, hkept.setups⟩

/-- A builder is sound however it was made. -/
theorem Made.sound (h : b.Made log) : b.Sound log := by
  induction h with
  | ofConfig hok => exact sound_ofConfig hok
  | addEnd _ hok ih => exact ih.addEnd hok
  | @scheduleEvent b b' log linkEnd time payload priority _ hok ih =>
    obtain ⟨setup, hsetup, rfl⟩ := scheduleEvent_eq_ok hok
    refine ih.withSetup ((ih.setups _ setup hsetup).schedule ⟨linkEnd, time, priority, payload⟩ rfl)
      fun j timeline hne hinitial => hinitial.pass _ (Ne.symm hne)
  | @registerClock b b' log partition period handler handle _ hok ih =>
    obtain ⟨setup, hsetup, rfl⟩ := registerClock_eq_ok hok
    obtain ⟨clocks, starts, hstarts, heq⟩ := ClockSet.registerIn_eq (π := M.Payload)
      setup.clocks.config setup.clocks.nextHandler period handler setup.timeline.now
      setup.timeline.priority 0 setup.clocks.clocks
    refine ih.withSetup ?_ fun _ _ _ hinitial => hinitial
    have hstarted := (ih.setups _ setup hsetup).start hstarts
    have htimeline : (setup.clocks.register period handler setup.timeline).2.2 =
        setup.timeline.addAll starts := by
      simp [ClockSet.register, ClockSet.attach, heq setup.timeline rfl rfl]
    rw [← htimeline] at hstarted
    exact hstarted
  | unregisterClock _ hok ih =>
    obtain ⟨setup, clocks, hsetup, _, rfl⟩ := unregisterClock_eq_ok hok
    exact ih.withSetup (ih.setups _ setup hsetup) fun _ _ _ hinitial => hinitial
  | addParticipant _ hok ih =>
    obtain ⟨setup, hsetup, rfl⟩ := addParticipant_eq_ok hok
    exact ih.withSetup (ih.setups _ setup hsetup) fun _ _ _ hinitial => hinitial

/-! ## Windows -/

theorem fastest?_le {routes : List Route} {route : Route} (h : fastest? routes = some route) :
    ∀ other ∈ routes, route.latency ≤ other.latency := by
  induction routes generalizing route with
  | nil => cases h
  | cons first rest ih =>
    unfold fastest? at h
    cases hrest : fastest? rest with
    | none =>
      have hnil : rest = [] := by
        cases rest with
        | nil => rfl
        | cons second others =>
          unfold fastest? at hrest
          split at hrest
          · cases hrest
          · split at hrest <;> cases hrest
      simp only [hrest, Option.some.injEq] at h
      simp [hnil, h]
    | some least =>
      have hleast := ih hrest
      simp only [hrest] at h
      intro other hother
      rcases List.mem_cons.mp hother with rfl | hother
      · split at h <;> cases h <;> omega
      · have := hleast other hother
        split at h <;> cases h <;> omega

theorem fastest?_eq_none {routes : List Route} (h : fastest? routes = none) : routes = [] := by
  cases routes with
  | nil => rfl
  | cons first rest =>
    unfold fastest? at h
    split at h
    · cases h
    · split at h <;> cases h

/-- The window is not empty and no link between two partitions is faster. -/
theorem le_latency_of_window {window : Nat} (hconfig : b.config.window ≠ some 0)
    (h : b.window = .ok window) :
    1 ≤ window ∧ ∀ route ∈ b.crossRoutes, window ≤ route.latency := by
  unfold Builder.window at h
  cases hfast : fastest? b.crossRoutes with
  | none =>
    have hnone := fastest?_eq_none hfast
    rw [hnone]
    cases hw : b.config.window with
    | none =>
      simp only [hw, hfast, Except.ok.injEq] at h
      simp only [List.not_mem_nil, false_implies, implies_true, and_true]
      rw [← h]
      decide
    | some w =>
      simp only [hw, hfast, Except.ok.injEq] at h
      simp only [List.not_mem_nil, false_implies, implies_true, and_true]
      have : w ≠ 0 := by
        rintro rfl
        exact hconfig hw
      omega
  | some route =>
    have hleast := fastest?_le hfast
    cases hw : b.config.window with
    | none =>
      simp only [hw, hfast] at h
      split at h
      · cases h
      · cases h
        exact ⟨by omega, hleast⟩
    | some w =>
      simp only [hw, hfast] at h
      split at h
      · cases h
      · cases h
        have : window ≠ 0 := by
          rintro rfl
          exact hconfig hw
        refine ⟨by omega, fun other hother => ?_⟩
        have := hleast other hother
        omega

end Builder

/-! ## Simulations -/

/-- A partition of a simulation of `n` that has not begun to run. -/
structure Partition.Fresh (p : Partition M) (n i window : Nat) (stopAt : Option Time)
    (log : List (Planned M.Payload)) : Prop where
  id : p.id = i
  table : p.routes.partition = i
  member : ∃ profile, p.member = Member.fresh i n window profile
  crossing : ∀ (link : LinkId) (route : Route) (peer : LinkEnd), p.routes.get link = .ok route →
    route.delivery = .across peer →
      window ≤ route.latency ∧ peer.partition ≠ i ∧ peer.partition < n
  timeline : p.timeline.Initial i log
  synchronized : p.synchronized = decide (1 < n)
  stopAt : p.stopAt = stopAt
  tally : p.tally = {}
  participants : p.lifecycle = false → p.participants = []

namespace Builder

variable {b : Builder M} {log : List (Planned M.Payload)} {simulation : Simulation M}

theorem build_eq_ok (h : b.build = .ok simulation) :
    b.registry.pending = [] ∧ ∃ window, b.window = .ok window ∧
      simulation = ⟨b.setups.mapIdx (b.partition window), window⟩ := by
  obtain ⟨_, hfinalize, h⟩ := bind_eq_ok_iff.mp h
  obtain ⟨window, hwindow, h⟩ := bind_eq_ok_iff.mp h
  cases h
  refine ⟨?_, window, hwindow, rfl⟩
  replace hfinalize := mapError_eq_ok_iff.mp hfinalize
  unfold Registry.finalize Registry.pendingNames at hfinalize
  cases hpending : b.registry.pending with
  | nil => rfl
  | cons entry rest => simp [hpending] at hfinalize

theorem Made.waits (h : b.Made log) : ∀ (e : LinkEnd) (route : Route),
    routeAt b.tables e = some route → route.delivery = .unwired →
      (route.name, e) ∈ b.registry.pending := by
  induction h with
  | ofConfig hok =>
    intro e route he
    rw [routeAt_ofConfig hok] at he
    cases he
  | @addEnd b b' log partition name latency receiver linkEnd hb hok ih =>
    obtain ⟨setup, registration, registry, tables, hsetup, hregister, rfl⟩ := addEnd_eq_ok hok
    have htable := hb.sound.table hsetup
    obtain ⟨hpushed, _, hnew⟩ := hb.sound.wiring.push htable name latency
    refine hpushed.waits_register hnew rfl (fun f r hf hunwired hne => ?_) hregister
    rw [routeAt_push htable, if_neg hne] at hf
    exact ih f r hf hunwired
  | scheduleEvent _ hok ih =>
    obtain ⟨_, _, rfl⟩ := scheduleEvent_eq_ok hok
    exact ih
  | registerClock _ hok ih =>
    obtain ⟨_, _, rfl⟩ := registerClock_eq_ok hok
    exact ih
  | unregisterClock _ hok ih =>
    obtain ⟨_, _, _, _, rfl⟩ := unregisterClock_eq_ok hok
    exact ih
  | addParticipant _ hok ih =>
    obtain ⟨_, _, rfl⟩ := addParticipant_eq_ok hok
    exact ih

theorem Made.leads_of_build (hb : b.Made log) (h : b.build = .ok simulation) {e : LinkEnd}
    {route : Route} (he : routeAt b.tables e = some route) :
    ∃ f, route.delivery.leads e = some f := by
  refine Delivery.leads_of_ne (fun hunwired => ?_) e
  have hwaits := hb.waits e route he hunwired
  rw [(build_eq_ok h).1] at hwaits
  cases hwaits

/-- Every event was scheduled for a partition that exists. -/
theorem Made.target_lt (h : b.Made log) : ∀ e ∈ log, e.target.partition < b.setups.length := by
  induction h with
  | ofConfig h => simp
  | addEnd hb h ih =>
    obtain ⟨setup, registration, registry, tables, _, _, rfl⟩ := addEnd_eq_ok h
    simpa using ih
  | registerClock hb h ih =>
    obtain ⟨setup, _, rfl⟩ := registerClock_eq_ok h
    simpa [withSetup] using ih
  | unregisterClock hb h ih =>
    obtain ⟨setup, clocks, _, _, rfl⟩ := unregisterClock_eq_ok h
    simpa [withSetup] using ih
  | addParticipant hb h ih =>
    obtain ⟨setup, _, rfl⟩ := addParticipant_eq_ok h
    simpa [withSetup] using ih
  | scheduleEvent hb h ih =>
    obtain ⟨setup, hsetup, rfl⟩ := scheduleEvent_eq_ok h
    intro e he
    show e.target.partition < (List.set _ _ _).length
    rw [List.length_set]
    rcases List.mem_append.mp he with he | he
    · exact ih e he
    · obtain rfl := List.mem_singleton.mp he
      exact (List.getElem?_eq_some_iff.mp hsetup).1

theorem get_eq_ok {table : RouteTable} {link : LinkId} {route : Route}
    (h : table.get link = .ok route) : table.routes[link]? = some route := by
  unfold RouteTable.get at h
  split at h
  · rename_i r hr
    cases h
    exact hr
  · cases h

theorem Made.build (hb : b.Made log) (h : b.build = .ok simulation) :
    0 < simulation.partitions.length ∧ 1 ≤ simulation.window ∧
      ∀ (i : Nat) (p : Partition M), simulation.partitions[i]? = some p →
        p.lifecycle = b.lifecycle ∧
        p.Fresh simulation.partitions.length i simulation.window b.config.stopAt log := by
  have hsound := hb.sound
  obtain ⟨_, window, hwindow, rfl⟩ := build_eq_ok h
  obtain ⟨hone, hlatency⟩ := le_latency_of_window hsound.window hwindow
  refine ⟨by simpa using hsound.positive, hone, ?_⟩
  intro i p hp
  rw [List.getElem?_mapIdx] at hp
  obtain ⟨setup, hsetup, rfl⟩ := Option.map_eq_some_iff.mp hp
  have htable := hsound.table hsetup
  refine ⟨rfl, ?_⟩
  constructor
  case id => rfl
  case table => exact hsound.wiring.ids i _ htable
  case member => exact ⟨_, by rw [List.length_mapIdx]; rfl⟩
  case crossing =>
    intro link route peer hroute hdelivery
    have hget := get_eq_ok hroute
    have hat : routeAt b.tables ⟨i, link⟩ = some route := by
      simp only [routeAt, htable, Option.bind_some]
      exact hget
    obtain ⟨hbetween, back, hback, _⟩ := hsound.wiring.paired ⟨i, link⟩ peer route hat
      (by rw [hdelivery]; rfl)
    refine ⟨hlatency route ?_, (Delivery.between_eq_across (hbetween ▸ hdelivery)).2, ?_⟩
    · refine List.mem_flatMap.mpr ⟨b.table i, List.mem_of_getElem? htable, ?_⟩
      refine List.mem_filter.mpr ⟨List.mem_of_getElem? hget, ?_⟩
      simp [crosses, hdelivery]
    · rw [List.length_mapIdx, ← hsound.size]
      unfold routeAt at hback
      cases hpeer : b.tables[peer.partition]? with
      | none => simp [hpeer] at hback
      | some table => exact (List.getElem?_eq_some_iff.mp hpeer).1
  case timeline => exact hsound.setups i setup hsetup
  case synchronized =>
    rw [List.length_mapIdx]
    rfl
  case stopAt => rfl
  case tally => rfl
  case participants =>
    intro hlifecycle
    have hall := List.any_eq_false.mp hlifecycle setup (List.mem_of_getElem? hsetup)
    show setup.participants = []
    simpa using hall

end Builder

end Lookahead
