import Lookahead.Proofs.Channel

/-!
Whatever is delivered was asked for.

An event that is due somewhere was scheduled there before the run or sent there by a handler, also
while a run is failing (`Cohort.Warranted`). Events are scheduled for link ends that exist, and
sends lead to such, so every event comes to a link end that its partition has
(`Simulation.delivered_exists`).
-/

namespace Lookahead

variable {M : Model}

/-! ## Link ends stay -/

theorem isSome_routeAt_wire (tables : List RouteTable) (source target e : LinkEnd) :
    (routeAt (wire tables source target) e).isSome = (routeAt tables e).isSome := by
  rw [routeAt_wire]
  split
  · rename_i he
    rw [he, Option.isSome_map]
  · rfl

/-- Registering a link end makes no other ones, and loses none. -/
theorem Registry.isSome_routeAt_register {registry registry' : Registry}
    {tables tables' : List RouteTable} {name : String} {linkEnd : LinkEnd}
    {registration : Registration}
    (h : registry.register tables name linkEnd = .ok (registration, registry', tables'))
    (e : LinkEnd) : (routeAt tables' e).isSome = (routeAt tables e).isSome := by
  obtain ⟨_, _, h⟩ := bind_eq_ok_iff.mp h
  split at h
  · cases h
    rfl
  · split at h
    · cases h
      rfl
    · obtain ⟨_, _, h⟩ := bind_eq_ok_iff.mp h
      cases h
      rw [isSome_routeAt_wire, isSome_routeAt_wire]

namespace Builder

variable {b b' : Builder M} {log : List (Planned M.Payload)} {e linkEnd : LinkEnd}

/-- Link ends are never taken away. -/
theorem Sound.isSome_routeAt_addEnd (hb : b.Sound log) {partition : PartitionId} {name : String}
    {latency : Nat} {receiver : Option M.Receiver}
    (h : b.addEnd partition name latency receiver = .ok (linkEnd, b'))
    (he : (routeAt b.tables e).isSome = true) : (routeAt b'.tables e).isSome = true := by
  obtain ⟨setup, registration, registry, tables, hsetup, hregister, rfl⟩ := addEnd_eq_ok h
  show (routeAt tables e).isSome = true
  rw [Registry.isSome_routeAt_register hregister, routeAt_push (hb.table hsetup)]
  split
  · rfl
  · exact he

/-- Events are only scheduled for link ends that there are. -/
theorem Made.isSome_routeAt_target (hb : b.Made log) :
    ∀ e ∈ log, (routeAt b.tables e.target).isSome = true := by
  induction hb with
  | ofConfig h => simp
  | addEnd hb h ih => exact fun e he => hb.sound.isSome_routeAt_addEnd h (ih e he)
  | @scheduleEvent b b' log linkEnd time payload priority hb h ih =>
    have hend : (routeAt b.tables linkEnd).isSome = true := by
      obtain ⟨setup, hsetup, h⟩ := bind_eq_ok_iff.mp h
      obtain ⟨route, hroute, _⟩ := bind_eq_ok_iff.mp h
      unfold routeAt
      rw [hb.sound.table (setup_eq_ok hsetup), Option.bind_some,
        get_eq_ok (mapError_eq_ok_iff.mp hroute)]
      rfl
    obtain ⟨setup, hsetup, rfl⟩ := scheduleEvent_eq_ok h
    intro e he
    rcases List.mem_append.mp he with he | he
    · exact ih e he
    · obtain rfl := List.mem_singleton.mp he
      exact hend
  | registerClock _ h ih =>
    obtain ⟨_, _, rfl⟩ := registerClock_eq_ok h
    exact ih
  | unregisterClock _ h ih =>
    obtain ⟨_, _, _, _, rfl⟩ := unregisterClock_eq_ok h
    exact ih
  | addParticipant _ h ih =>
    obtain ⟨_, _, rfl⟩ := addParticipant_eq_ok h
    exact ih

end Builder

/-! ## Warrants -/

theorem mem_asked {log : List (Planned M.Payload)} {trace : List (PartitionId × Dispatch M)}
    {j : PartitionId} {a : Scheduled M.Payload} :
    a ∈ asked log trace j ↔ (∃ e ∈ log, e.target.partition = j ∧ e.activity = a) ∨
      ∃ entry ∈ trace, ∃ s ∈ entry.2.sends, s.target.partition = j ∧ s.activity = a := by
  simp [asked, Dispatch.asked, and_assoc]

theorem asked_append (log : List (Planned M.Payload)) (trace more : List (PartitionId × Dispatch M))
    (j : PartitionId) : asked log trace j ⊆ asked log (trace ++ more) j := by
  unfold asked
  rw [List.flatMap_append, ← List.append_assoc]
  exact List.subset_append_left ..

def Cohort.Warranted (log : List (Planned M.Payload)) (safe : Prop) (cohort : Cohort M)
    (trace : List (PartitionId × Dispatch M)) : Prop :=
  ∀ (j : Nat) (s : Stance M), cohort[j]? = some s →
    ∀ a ∈ s.partition.timeline.agenda, a.isDelivery = true →
      ∃ b ∈ asked log trace j, b.payload = a.payload ∧ (safe → b = a)

namespace Cohort.Warranted

variable {cohort : Cohort M} {parties : List (Party M)} {log : List (Planned M.Payload)}
  {trace : List (PartitionId × Dispatch M)} {number : Nat} {i : PartitionId} {work : Work}
  {p : Partition M} {safe : Prop}

/-- A partition works on: what it keeps it has sent to itself. -/
theorem workOn (h : cohort.Warranted log safe trace) (hi : cohort[i]? = some (.running work p))
    (hleaves : ∀ d, work.dispatch? p = some d → ∀ s ∈ d.sends,
      s.leaves = true ↔ s.target.partition ≠ i) :
    Warranted log safe (cohort.set i (Thread.workOn work p).stance)
      (trace ++ noteAt i (work.dispatch? p)) := by
  have hsteps := Thread.steps_workOn work p
  generalize (Thread.workOn work p).stance = s at hsteps
  generalize work.dispatch? p = dispatch at hsteps hleaves
  have hkept : ∀ {j : Nat} {a : Scheduled M.Payload},
      (∃ b ∈ asked log trace j, b.payload = a.payload ∧ (safe → b = a)) →
        ∃ b ∈ asked log (trace ++ noteAt i dispatch) j, b.payload = a.payload ∧ (safe → b = a) := by
    rintro j a ⟨b, hb, hsame⟩
    exact ⟨b, asked_append _ _ _ _ hb, hsame⟩
  refine forall_set (fun j r _ hr a ha hdelivery => hkept (h j r hr a ha hdelivery)) ?_
  intro a ha hdelivery
  cases hsteps with
  | quiet hagenda htimed hawaits hpreparing =>
    rw [hagenda] at ha
    exact hkept (h i _ hi a ha hdelivery)
  | @dispatch _ d ticks hwork hnext hticks hagenda houtboxes hawaits hready hpreparing =>
    rw [hagenda] at ha
    rcases Ordered.mem_placeAll.mp ha with hadded | hold
    · rcases List.mem_append.mp hadded with hkept | htick
      · obtain ⟨sent, hsent, hstays, rfl⟩ := Sent.mem_kept.mp hkept
        refine ⟨_, mem_asked.mpr (Or.inr ⟨(i, d), by simp [noteAt], sent, hsent, ?_, rfl⟩), rfl,
          fun _ => rfl⟩
        exact Sent.target_of_stays (hleaves d rfl sent hsent) hstays
      · rw [hticks a htick] at hdelivery
        cases hdelivery
    · have hbefore := Partition.mem_agenda_of_rest hnext hold
      exact hkept (h i _ hi a hbefore hdelivery)

/-- What comes in at a meeting was sent in the leg before it. It is as it was sent unless that was
for a time before the meeting. -/
theorem exists_posted (hlegs : InLegs (parties.map Stance.ready) trace number)
    (hready : ∀ q ∈ parties, (∃ p, q = ⟨.timed, p, .epoch⟩ ∧ p.timeline.InOrder) ∧
      q.partition.Buffers safe q.partition.timeline.now) {j : PartitionId}
    {a : Scheduled M.Payload} (ha : a ∈ Party.incoming parties j) :
    ∃ i, ∃ b ∈ posted number (System.seenOf i trace) j,
      b.payload = a.payload ∧ (safe → b = a.unnumbered) := by
  obtain ⟨q, hq, ha⟩ := List.mem_flatMap.mp ha
  obtain ⟨x, hx, rfl⟩ := List.mem_map.mp ha
  obtain ⟨i, hi⟩ := List.mem_iff_getElem?.mp hq
  obtain ⟨⟨p, rfl, _⟩, hbuffers⟩ := hready q hq
  have hposted : x.unnumbered ∈ posted number (System.seenOf i trace) j := by
    rw [← hlegs.outboxes i _ p (getElem?_ready hi) rfl j]
    exact List.mem_map_of_mem hx
  refine ⟨i, _, hposted, rfl, fun hsafe => ?_⟩
  rw [Party.horizon_epoch rfl, Activity.notBefore_eq_self ((Party.mem_outbox hbuffers hx).1 hsafe)]

/-- Everyone meets: what comes in was sent. -/
theorem meet (h : Warranted log safe (parties.map Stance.ready) trace)
    (hlegs : InLegs (parties.map Stance.ready) trace number)
    (hready : ∀ q ∈ parties, (∃ p, q = ⟨.timed, p, .epoch⟩ ∧ p.timeline.InOrder) ∧
      q.partition.Buffers safe q.partition.timeline.now) :
    Warranted log safe (exchanged parties) trace := by
  intro j s hs a ha hdelivery
  obtain ⟨q, hq, rfl⟩ := getElem?_exchanged hs
  obtain ⟨⟨p, rfl, _⟩, _⟩ := hready q (List.mem_of_getElem? hq)
  have hagenda := (Party.conclude_meeting p (Party.incoming parties j)
    (Party.least parties)).2.2.2 Activity.isDelivery fun _ => rfl
  have hmem : a ∈ (p.timeline.addAll (Party.incoming parties j)).agenda := by
    have hfiltered := List.mem_filter.mpr ⟨ha, hdelivery⟩
    rw [hagenda] at hfiltered
    exact (List.mem_filter.mp hfiltered).1
  rcases Timeline.mem_agenda_addAll.mp hmem with ⟨x, hx, rfl⟩ | hold
  · obtain ⟨i, b, hposted, hpayload, hsame⟩ := exists_posted hlegs hready hx
    obtain ⟨entry, hentry, _, sent, hsent, _, htarget, rfl⟩ := mem_posted hposted
    exact ⟨_, mem_asked.mpr (Or.inr ⟨entry, hentry, sent, hsent, htarget, rfl⟩), hpayload, hsame⟩
  · exact h j _ (getElem?_ready hq) a hold hdelivery

/-- Everyone has a round of an untimed stage. -/
theorem talk (h : Warranted log safe (parties.map Stance.ready) trace)
    (hready : ∀ q ∈ parties, ∃ work p own, q = ⟨work, p, .untimed own⟩ ∧ work ≠ .timed) :
    Warranted log safe (exchanged parties) trace := by
  intro j s hs
  obtain ⟨q, hq, rfl⟩ := getElem?_exchanged hs
  obtain ⟨work, p, own, rfl, hwork⟩ := hready q (List.mem_of_getElem? hq)
  rw [(Party.conclude_stage hwork p own _ _).2.1]
  exact h j _ (getElem?_ready hq)

end Cohort.Warranted

/-! ## Runs -/

namespace Simulation

variable {b : Builder M} {log : List (Planned M.Payload)} {simulation : Simulation M}
  {labels : List (Option PartitionId)} {trace : List (PartitionId × Dispatch M)}
  {cohort : Cohort M} {j : PartitionId} {d : Dispatch M} {event : Event M.Payload}

theorem warranted_start (safe : Prop) (hb : b.Made log) (hbuild : b.build = .ok simulation) :
    simulation.cohort.Warranted log safe [] := by
  intro j s hs a ha hdelivery
  obtain ⟨p, hp, rfl⟩ := exists_stance_start hs
  obtain ⟨_, _, hfresh⟩ := hb.build hbuild
  obtain ⟨_, hj⟩ := hfresh j p hp
  rw [Thread.partition_stance] at ha
  have hexpected : a ∈ p.start.expected := List.mem_filter.mpr ⟨ha, hdelivery⟩
  obtain ⟨e, he, rfl⟩ := List.mem_map.mp ((expected_start hj).mem_iff.mp hexpected)
  obtain ⟨hlog, htarget⟩ := List.mem_filter.mp he
  exact ⟨_, mem_asked.mpr (Or.inl ⟨e, hlog, beq_iff_eq.mp htarget, rfl⟩), rfl, fun _ => rfl⟩

/-- Throughout a run, also of one that fails, whatever is to be delivered was asked for. -/
theorem warranted_run {safe : Prop} (hb : b.Made log) (hbuild : b.build = .ok simulation)
    (hrun : (Cohort.system M).Run simulation.cohort labels trace cohort)
    (hexact : safe → ∀ entry ∈ trace, entry.2.Exact) : cohort.Warranted log safe trace := by
  have hruns : ∃ number, cohort.InLegs trace number ∧ cohort.Warranted log safe trace := by
    refine legs_run (P := fun cohort trace _ => cohort.Warranted log safe trace) safe hb hbuild
      (warranted_start safe hb hbuild) ?_ ?_ ?_ hrun hexact
    · intro cohort labels trace number i work p h _ hi _ hnext
      refine h.workOn hi fun d hd s hs => ?_
      have hentry : (i, d) ∈ trace ++ noteAt i (work.dispatch? p) := by simp [hd, noteAt]
      exact leaves_iff hb hbuild hnext hentry hs
    · exact fun h hlegs hepoch _ => h.meet hlegs hepoch
    · exact fun h hstage => h.talk hstage
  obtain ⟨_, _, h⟩ := hruns
  exact h

theorem delivered_exists (hb : b.Made log) (hbuild : b.build = .ok simulation)
    (hrun : (Cohort.system M).Run simulation.cohort labels trace cohort)
    (hd : d ∈ System.seenOf j trace) (hevent : d.activity.payload = .deliver event) :
    (routeAt b.tables ⟨j, event.link⟩).isSome = true := by
  obtain ⟨labels', trace', cohort', p, _, hbefore, hp, hnext⟩ :=
    dispatched_at hrun _ (System.mem_seenOf.mp hd)
  have hfirst := Partition.mem_agenda_of_next? hnext
  have hdelivery : Activity.isDelivery d.activity.unnumbered = true := by
    simp [Activity.isDelivery, Activity.unnumbered, hevent, Action.event?]
  have hlink : ∀ {link : LinkId} {payload : M.Payload},
      Action.deliver ⟨link, payload⟩ = d.activity.payload → link = event.link := by
    intro link payload h
    rw [hevent] at h
    cases h
    rfl
  obtain ⟨x, hx, hpayload, _⟩ :=
    warranted_run hb hbuild hbefore False.elim j _ hp _ hfirst hdelivery
  rcases mem_asked.mp hx with ⟨e, he, rfl, rfl⟩ | ⟨entry, hentry, s, hs, rfl, rfl⟩
  · have htarget := hb.isSome_routeAt_target e he
    rw [← hlink hpayload]
    exact htarget
  · obtain ⟨back, htarget, _⟩ := (proper_sends hb hbuild hbefore hentry hs).1.back
    rw [← hlink hpayload]
    exact Option.isSome_iff_exists.mpr ⟨back, htarget⟩

end Simulation

end Lookahead
