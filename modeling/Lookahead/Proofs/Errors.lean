import Lookahead.Proofs.Answers
import Lookahead.Proofs.Failing
import Lookahead.Proofs.Pairing
import Lookahead.Proofs.Provenance

/-!
Which errors there can be in a run.

In a simulation all link ends are wired and every partition has an outbox for every other, so a send
fails only on a link that there is not. The inboxes outlive all rounds, clocks that have a turn
exist, and whatever is delivered comes to a link end that there is. So the only partition that can
fail for want of a handler is one with an output link (`Draft.errors_ruled_out`).
-/

namespace Lookahead

variable {M : Model}

/-- A queue from which something is left to take is not found empty. -/
theorem Timeline.exists_advance {π : Type} (timeline : Timeline π)
    (h : timeline.isEmpty = false) : ∃ next, timeline.advance = .ok next := by
  cases hagenda : timeline.agenda with
  | nil =>
    rw [Timeline.isEmpty_iff.mpr hagenda] at h
    cases h
  | cons a rest =>
    obtain ⟨b, next, hadvance, _⟩ := Timeline.advance_of_agenda_cons hagenda
    exact ⟨(b, next), hadvance⟩

/-! ## Drafts -/

/-- A link end is added to the partition that it was asked for. -/
theorem Builder.partition_of_addEnd {b b' : Builder M} {partition : PartitionId} {name : String}
    {latency : Nat} {receiver : Option M.Receiver} {linkEnd : LinkEnd}
    (h : b.addEnd partition name latency receiver = .ok (linkEnd, b')) :
    linkEnd.partition = partition := by
  obtain ⟨_, _, h⟩ := bind_eq_ok_iff.mp h
  obtain ⟨_, _, h⟩ := bind_eq_ok_iff.mp h
  cases h
  rfl

namespace Draft

variable {draft : Draft M} {log : List (Planned M.Payload)} {a : Addition M}

theorem made_replace (h : draft.builder.Made log) {x : Except ConfigError (Builder M)}
    (hx : ∀ b, x = .ok b → ∃ log, b.Made log) : ∃ log, (draft.replace x).builder.Made log := by
  cases x with
  | error e => exact ⟨log, h⟩
  | ok b => exact hx b rfl

theorem made_addEnd (h : draft.builder.Made log) (partition : PartitionId) (name : String)
    (latency : Nat) (receiver : Option M.Receiver) :
    ∃ log, (draft.addEnd partition name latency receiver).builder.Made log := by
  unfold Draft.addEnd
  split
  · rename_i hok
    exact ⟨log, .addEnd h hok⟩
  · exact ⟨log, h⟩

theorem made_call (h : draft.builder.Made log) (c : Builder.Call M) :
    ∃ log, (draft.call c).builder.Made log := by
  cases c with
  | addLink partition name latency receiver => exact made_addEnd h ..
  | addOutputLink partition name latency => exact made_addEnd h ..
  | scheduleEvent linkEnd time payload priority =>
    exact made_replace h fun b hok => ⟨_, .scheduleEvent h hok⟩
  | registerClock partition period handler =>
    refine made_replace h fun b hok => ?_
    obtain ⟨_, hok⟩ := map_snd_eq_ok hok
    exact ⟨log, .registerClock h hok⟩
  | registerClockSpec partition spec handler =>
    refine made_replace h fun b hok => ?_
    obtain ⟨_, hok⟩ := map_snd_eq_ok hok
    exact ⟨log, h.registerClockSpec hok⟩
  | unregisterClock partition handle =>
    refine made_replace h fun b hok => ?_
    obtain ⟨_, hok⟩ := map_snd_eq_ok hok
    exact ⟨log, .unregisterClock h hok⟩
  | addParticipant partition participant =>
    exact made_replace h fun b hok => ⟨log, .addParticipant h hok⟩

/-- Whatever was asked for, the builder is one that can be made. -/
theorem made_calls (h : draft.builder.Made log) (calls : List (Builder.Call M)) :
    ∃ log, (calls.foldl Draft.call draft).builder.Made log := by
  induction calls generalizing draft log with
  | nil => exact ⟨log, h⟩
  | cons c calls ih =>
    obtain ⟨log', h'⟩ := made_call h c
    exact ih h'

theorem mem_added_replace {x : Except ConfigError (Builder M)} (ha : a ∈ (draft.replace x).added) :
    a ∈ draft.added := by
  cases x <;> exact ha

theorem mem_added_addEnd {partition : PartitionId} {name : String} {latency : Nat}
    {receiver : Option M.Receiver}
    (ha : a ∈ (draft.addEnd partition name latency receiver).added) :
    a ∈ draft.added ∨ a.receiver = receiver ∧ ∃ b,
      draft.builder.addEnd partition name latency receiver = .ok (a.linkEnd, b) := by
  unfold Draft.addEnd at ha
  split at ha
  · rename_i linkEnd b hok
    rcases List.mem_append.mp ha with ha | ha
    · exact Or.inl ha
    · obtain rfl := List.mem_singleton.mp ha
      exact Or.inr ⟨rfl, b, hok⟩
  · exact Or.inl ha

/-- What was added without a handler is an output link. -/
theorem exists_addOutputLink (calls : List (Builder.Call M))
    (ha : a ∈ (calls.foldl Draft.call draft).added) (hnone : a.receiver = none) :
    a ∈ draft.added ∨ ∃ front name latency back b,
      calls = front ++ .addOutputLink a.linkEnd.partition name latency :: back ∧
        (front.foldl Draft.call draft).builder.addOutputLink a.linkEnd.partition name latency =
          .ok (a.linkEnd, b) := by
  induction calls generalizing draft with
  | nil => exact Or.inl ha
  | cons c rest ih =>
    rcases ih ha with hadded | ⟨front, name, latency, back, b, rfl, hok⟩
    · cases c with
      | addLink partition name latency receiver =>
        rcases mem_added_addEnd hadded with hold | ⟨hreceiver, _⟩
        · exact Or.inl hold
        · rw [hnone] at hreceiver
          cases hreceiver
      | addOutputLink partition name latency =>
        rcases mem_added_addEnd hadded with hold | ⟨_, b, hok⟩
        · exact Or.inl hold
        · obtain rfl := Builder.partition_of_addEnd hok
          exact Or.inr ⟨[], name, latency, rest, b, rfl, hok⟩
      | _ => exact Or.inl (mem_added_replace hadded)
    · exact Or.inr ⟨c :: front, name, latency, back, b, rfl, hok⟩

theorem Paired.exists_without_receiver {pairs : List (LinkEnd × LinkEnd)} (h : draft.Paired pairs)
    {e : LinkEnd} (hroute : (routeAt draft.builder.tables e).isSome = true)
    (hnone : ∀ setup receiver, draft.builder.setups[e.partition]? = some setup →
      setup.receivers[e.link]? ≠ some (some receiver)) :
    ∃ a ∈ draft.added, a.linkEnd = e ∧ a.receiver = none := by
  have hmem := h.mem_ends.mpr (Option.isSome_iff_exists.mp hroute)
  obtain ⟨a, ha, rfl⟩ := List.mem_map.mp hmem
  obtain ⟨setup, hsetup, hreceiver⟩ := h.handlers a ha
  refine ⟨a, ha, rfl, ?_⟩
  cases hgiven : a.receiver with
  | none => rfl
  | some receiver => exact absurd (hgiven ▸ hreceiver) (hnone setup receiver hsetup)

end Draft

/-! ## Sends -/

namespace Simulation

variable {b : Builder M} {log : List (Planned M.Payload)} {simulation : Simulation M}
  {trace : List (PartitionId × Dispatch M)} {machine : Machine M} {j : PartitionId}
  {p first : Partition M} {t : Thread M}

/-- Whoever is at work has the link ends that it was built with, and all of them are open. -/
theorem Reaches.open_routes (hb : b.Made log) (hbuild : b.build = .ok simulation)
    (h : simulation.Reaches trace machine) {work : Work}
    (ht : machine.threads[j]? = some (.running work p)) :
    p.routes = b.table j ∧ p.routes.partition = j ∧ p.routes.Open p.member.outbound.length := by
  obtain ⟨labels, cohort, hrun, htracks, hplaced⟩ := h.cohort hb hbuild
  have hs := htracks.stance_of_running ht
  have hroutes : p.routes = b.table j := routes_run hbuild hrun j _ hs
  have hconforms := (agrees_run hb hbuild hrun).1
  have hlt := (List.getElem?_eq_some_iff.mp hs).1
  have hsize : cohort.length = b.tables.length :=
    (hconforms.length.trans (size_eq hbuild)).trans hb.sound.size.symm
  have houtboxes : p.member.outbound.length = b.tables.length :=
    ((hplaced j _ hs).outboxes).trans hsize
  have htable : b.tables[j]? = some (b.table j) :=
    hb.sound.table (List.getElem?_eq_getElem (hb.sound.size ▸ hsize ▸ hlt))
  have hrouteAt : ∀ {link : LinkId} {route : Route}, p.routes.get link = .ok route →
      routeAt b.tables ⟨j, link⟩ = some route := by
    intro link route hget
    unfold routeAt
    rw [htable, Option.bind_some]
    exact Builder.get_eq_ok (hroutes ▸ hget)
  refine ⟨hroutes, hroutes ▸ hb.sound.wiring.ids j _ htable, ?_, ?_⟩
  · intro link route hget hunwired
    obtain ⟨f, hleads⟩ := hb.leads_of_build hbuild (hrouteAt hget)
    rw [hunwired] at hleads
    cases hleads
  · intro link route peer hget hdelivery
    have hleads : route.delivery.leads ⟨j, link⟩ = some peer := by
      rw [hdelivery]
      rfl
    obtain ⟨_, back, hback, _⟩ := hb.sound.wiring.paired _ _ _ (hrouteAt hget) hleads
    obtain ⟨table, hpeer, _⟩ := Option.bind_eq_some_iff.mp hback
    rw [houtboxes]
    exact (List.getElem?_eq_some_iff.mp hpeer).1

/-- Who has failed for want of a handler has got an event for a link end of its own that it was
built without a handler for. -/
theorem Reaches.unhandled (hb : b.Made log) (hbuild : b.build = .ok simulation)
    (h : simulation.Reaches trace machine) (ht : machine.threads[j]? = some t) {i : PartitionId}
    {link : LinkId} (he : t.error? = some (.unhandled i link)) :
    i = j ∧
      (∃ d ∈ System.seenOf j trace, ∃ payload, d.activity.payload = .deliver ⟨link, payload⟩) ∧
      (routeAt b.tables ⟨j, link⟩).isSome = true ∧
        ∀ setup receiver, b.setups[j]? = some setup →
          setup.receivers[link]? ≠ some (some receiver) := by
  have hlt : j < simulation.partitions.length := by
    rw [← h.length_threads]
    exact (List.getElem?_eq_some_iff.mp ht).1
  have hfirst := List.getElem?_eq_getElem hlt
  rcases (h.kept hb hbuild hfirst ht).error _ he with hraised | ⟨d, hd, event, hevent, heq, hserved⟩
  · cases hraised
  · cases heq
    obtain ⟨_, _, hrun, _⟩ := h.cohort hb hbuild
    refine ⟨rfl, ⟨d, hd, event.payload, hevent⟩, delivered_exists hb hbuild hrun hd hevent, ?_⟩
    intro setup receiver hsetup hreceiver
    obtain ⟨_, window, _, rfl⟩ := Builder.build_eq_ok hbuild
    rw [List.getElem?_mapIdx, hsetup] at hfirst
    refine hserved ?_
    rw [← Option.some.inj hfirst]
    show (setup.receivers.map Option.isSome)[event.link]? = some true
    rw [List.getElem?_map, hreceiver]
    rfl

end Simulation

/-! ## The main result -/

/-- Which errors there can be in a machine that a simulation has come to, if its builder was asked
for this after it was `b`. -/
structure Machine.ErrorsRuledOut (machine : Machine M) (b : Builder M)
    (calls : List (Builder.Call M)) (trace : List (PartitionId × Dispatch M)) : Prop where
  /-- An attempt to send succeeds exactly if there is such a link end. -/
  sends : ∀ (i : PartitionId) (work : Work) (p : Partition M),
    machine.threads[i]? = some (.running work p) →
      ∀ attempt ∈ (Thread.running work p).attempts, attempt.answer =
        if attempt.link < ((calls.foldl Draft.call ⟨b, []⟩).builder.table i).size then .ok ()
        else .error (.unknownLink i attempt.link)
  /-- The attempts that succeed are all that is sent. -/
  granted : ∀ (work : Work) (p : Partition M), Thread.running work p ∈ machine.threads →
    (∀ d, work.dispatch? p = some d →
      (Thread.running work p).attempts.filterMap Attempt.granted? =
        d.sends.map fun s => s.source.link) ∧
    ∀ stage phase, work.phase? = some (stage, phase) →
      (Thread.running work p).attempts.filterMap Attempt.granted? =
        (p.acts stage phase).filterMap PhaseAct.sentLink?
  /-- No round fails by itself. -/
  rounds : ∀ (i : PartitionId) (work : Work) (p : Partition M) (round : Round M.Payload)
    (shared : Shared M.Payload) (seat : Seat M.Payload),
    machine.threads[i]? = some (.syncing work p round) →
      Seat.step? machine.shared ⟨p.member, p.timeline, .going round⟩ = some (shared, seat) →
        ∀ e, seat.progress ≠ .over (.error (.link e))
  /-- A queue from which an activity is taken is not empty. -/
  queues : (∀ p, Thread.running .timed p ∈ machine.threads → p.timeline.isEmpty = false →
      ∃ next, p.timeline.advance = .ok next) ∧
    ∀ t ∈ machine.threads, ∀ e, t.error? ≠ some (.queue e)
  /-- A clock that has a turn exists, and all firings are counted. -/
  clocks : (∀ p d id, Thread.running .timed p ∈ machine.threads → p.next? = some d →
      d.activity.payload = .clock id → ∃ clock, p.clocks.clocks[id]? = some clock) ∧
    ∀ t ∈ machine.threads, t.partition.tally.clockFires = t.partition.clocks.fired
  /-- Only an event for a link end that was added as an output link finds no handler. -/
  unhandled : ∀ (j : PartitionId) (t : Thread M) (i : PartitionId) (link : LinkId),
    machine.threads[j]? = some t → t.error? = some (.unhandled i link) →
      i = j ∧
        (∃ d ∈ System.seenOf j trace, ∃ payload, d.activity.payload = .deliver ⟨link, payload⟩) ∧
        ∃ front name latency back next, calls = front ++ .addOutputLink j name latency :: back ∧
          (front.foldl Draft.call ⟨b, []⟩).builder.addOutputLink j name latency =
            .ok (⟨j, link⟩, next)

/-- However a simulation was built and wherever a run gets to, a send fails only on a link that
there is not, no round fails by itself, no queue is found empty and no clock missing, and a handler
can be wanting only at an output link. -/
theorem Draft.errors_ruled_out {config : Config} {b : Builder M}
    (h : Builder.ofConfig config = .ok b) (calls : List (Builder.Call M))
    {simulation : Simulation M}
    (hbuild : (calls.foldl Draft.call ⟨b, []⟩).builder.build = .ok simulation)
    {trace : List (PartitionId × Dispatch M)} {machine : Machine M}
    (hreach : simulation.Reaches trace machine) : machine.ErrorsRuledOut b calls trace := by
  have hstart : (⟨b, []⟩ : Draft M).builder.Made [] := .ofConfig h
  obtain ⟨log, hmade⟩ := Draft.made_calls hstart calls
  obtain ⟨pairs, hpaired⟩ := (Draft.Paired.start h).calls calls
  have hplace : ∀ {t : Thread M}, t ∈ machine.threads → ∃ j, machine.threads[j]? = some t :=
    fun ht => List.mem_iff_getElem?.mp ht
  have hkept : ∀ {t : Thread M}, t ∈ machine.threads → ∃ j first,
      t.Kept j first (System.seenOf j trace) := by
    intro t ht
    obtain ⟨j, hj⟩ := hplace ht
    have hlt : j < simulation.partitions.length := by
      rw [← hreach.length_threads]
      exact (List.getElem?_eq_some_iff.mp hj).1
    exact ⟨j, _, hreach.kept hmade hbuild (List.getElem?_eq_getElem hlt) hj⟩
  constructor
  case sends =>
    intro i work p hp attempt hattempt
    obtain ⟨hroutes, hpartition, hopen⟩ := hreach.open_routes hmade hbuild hp
    rw [Thread.answer_of_mem_attempts hopen attempt hattempt, ← hroutes]
    unfold RouteTable.answer
    rw [hpartition]
  case granted =>
    exact fun work p _ =>
      ⟨fun d => Thread.granted_dispatch, fun stage phase => Thread.granted_phase⟩
  case rounds =>
    exact fun i work p round shared seat hp hstep => hreach.not_lost hmade hbuild hp hstep
  case queues =>
    refine ⟨fun p _ hne => p.timeline.exists_advance hne, fun t ht e he => ?_⟩
    obtain ⟨j, first, hj⟩ := hkept ht
    rcases hj.error _ he with hraised | ⟨_, _, _, _, heq, _⟩
    · cases hraised
    · cases heq
  case clocks =>
    refine ⟨fun p d id hp hnext hclock => ?_, fun t ht => ?_⟩
    · obtain ⟨j, hj⟩ := hplace hp
      exact hreach.exists_clock hmade hbuild hj hnext hclock
    · obtain ⟨j, first, hj⟩ := hkept ht
      exact hj.tallied
  case unhandled =>
    intro j t i link ht he
    obtain ⟨rfl, hdelivered, hroute, hnone⟩ := hreach.unhandled hmade hbuild ht he
    refine ⟨rfl, hdelivered, ?_⟩
    obtain ⟨a, ha, hend, hwithout⟩ := hpaired.exists_without_receiver hroute hnone
    rcases Draft.exists_addOutputLink calls ha hwithout with hbefore | hadded
    · cases hbefore
    · rw [hend] at hadded
      exact hadded

/-- A relay whose second partition cannot take the token. -/
def Relay.deadEnd : List (Builder.Call Ring.model) :=
  [.addLink 0 "relay" 2 runner, .addOutputLink 1 "relay" 2,
    .scheduleEvent ⟨0, 0⟩ Time.zero ⟨1⟩ Priority.event]

/-- That partition fails when the token comes to its output link. -/
theorem Draft.errors_ruled_out_deadEnd :
    Builder.ofConfig { partitions := 2 } = .ok Relay.blank ∧
    (Relay.deadEnd.foldl Draft.call ⟨Relay.blank, []⟩).builder.build =
      .ok (Relay.crewed 1 1 (some Relay.runner) none) ∧
    ∃ trace machine, (Relay.crewed 1 1 (some Relay.runner) none).Reaches trace machine ∧
      (∃ t, machine.threads[1]? = some t ∧ t.error? = some (.unhandled 1 0)) ∧
      machine.ErrorsRuledOut Relay.blank Relay.deadEnd trace := by
  have hblank : Builder.ofConfig { partitions := 2 } = .ok Relay.blank := rfl
  have hbuild : (Relay.deadEnd.foldl Draft.call ⟨Relay.blank, []⟩).builder.build =
      .ok (Relay.crewed 1 1 (some Relay.runner) none) := Relay.build_crew ..
  have h := Relay.reaches_run (Relay.crewed 1 1 (some Relay.runner) none) (Relay.turns 0)
  exact ⟨hblank, hbuild, _, _, h, ⟨_, rfl, rfl⟩, Draft.errors_ruled_out hblank _ hbuild h⟩

end Lookahead
