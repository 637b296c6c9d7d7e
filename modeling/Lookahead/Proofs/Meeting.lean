import Lookahead.Proofs.Agreement
import Lookahead.Proofs.Halting

/-!
Meetings of the partitions of a cohort.

When partitions meet, every one of them is at the instant of the meeting, and nothing that is handed
over arrives before it: unless the scheduling of a clock has overflowed unnoticed it is not even put
off. So nobody gets an event in its past, and they agree on the next meeting afterwards
(`Cohort.Agrees.step`).
-/

namespace Lookahead

variable {M : Model}

/-! ## Handing over -/

namespace Party

variable {q : Party M} {incoming : List (Scheduled M.Payload)} {least : Time}

theorem outbound_taken (q : Party M) (incoming : List (Scheduled M.Payload)) :
    (q.taken incoming).member.outbound = q.partition.member.outbound.map fun _ => {} := by
  obtain ⟨work, p, kind⟩ := q
  cases kind <;> rfl

theorem timeline_taken_epoch (hkind : q.kind = .epoch) :
    (q.taken incoming).timeline = q.partition.timeline.addAll incoming := by
  obtain ⟨work, p, kind⟩ := q
  cases hkind
  rfl

theorem horizon_epoch (hkind : q.kind = .epoch) : q.horizon = q.partition.timeline.now := by
  unfold horizon
  rw [hkind]

/-- What is handed over at a meeting is due at or after it, so nothing is put off. -/
theorem outgoing_eq {safe : Prop} (hkind : q.kind = .epoch) (hsafe : safe)
    (hbuffers : q.partition.Buffers safe q.partition.timeline.now) (j : PartitionId) :
    q.outgoing j = q.outbox j := by
  unfold outgoing
  rw [horizon_epoch hkind]
  refine (List.map_congr_left fun a ha => ?_).trans (List.map_id _)
  unfold outbox at ha
  cases hbox : q.partition.member.outbound[j]? with
  | none => simp [hbox] at ha
  | some box =>
    rw [hbox] at ha
    exact Activity.notBefore_eq_self ((hbuffers j box hbox a ha).2.1 hsafe)

theorem mem_outbox {j : PartitionId} {a : Scheduled M.Payload} {safe : Prop} {bound : Time}
    (hbuffers : q.partition.Buffers safe bound) (ha : a ∈ q.outbox j) :
    (safe → bound ≤ a.time) ∧ a.priority = Priority.event ∧ a.isDelivery = true := by
  unfold outbox at ha
  cases hbox : q.partition.member.outbound[j]? with
  | none => simp [hbox] at ha
  | some box =>
    rw [hbox] at ha
    exact (hbuffers j box hbox a ha).2

/-- What is taken in at a meeting are deliveries that are not due before it. -/
theorem mem_incoming {S : Setting} {parties : List (Party M)}
    (h : ∀ r ∈ parties, r.kind = .epoch ∧ r.partition.Meets S least ∧
      r.partition.Buffers S.exact (least.after S.window)) (j : PartitionId) :
    ∀ a ∈ Party.incoming parties j,
      least.after S.window ≤ a.time ∧ a.priority = Priority.event ∧ a.isDelivery = true := by
  intro a ha
  obtain ⟨r, hr, ha⟩ := List.mem_flatMap.mp ha
  obtain ⟨hkind, hmeets, hbuffers⟩ := h r hr
  obtain ⟨b, hb, rfl⟩ := List.mem_map.mp ha
  rw [horizon_epoch hkind, hmeets.now]
  exact ⟨Activity.le_notBefore b _, (mem_outbox hbuffers hb).2⟩

theorem least_le_minimum {parties : List (Party M)} {j : Nat} (hj : parties[j]? = some q) :
    Party.least parties ≤ q.minimum (Party.incoming parties j) := by
  refine (Time.foldl_min_le _ _).2 _ ?_
  refine List.mem_of_getElem? (i := j) ?_
  rw [List.getElem?_mapIdx, hj]
  rfl

theorem le_least {parties : List (Party M)} {bound : Time}
    (h : ∀ (j : Nat) (q : Party M), parties[j]? = some q →
      bound ≤ q.minimum (Party.incoming parties j)) : bound ≤ Party.least parties := by
  refine Time.le_foldl_min (Time.le_never _) ?_
  intro t ht
  obtain ⟨j, hj⟩ := List.mem_iff_getElem?.mp ht
  rw [List.getElem?_mapIdx] at hj
  obtain ⟨q, hq, rfl⟩ := Option.map_eq_some_iff.mp hj
  exact h j q hq

theorem minimum_epoch (hkind : q.kind = .epoch) :
    q.minimum incoming = (q.taken incoming).timeline.nextTime := by
  obtain ⟨work, p, kind⟩ := q
  cases hkind
  rfl

theorem exists_least {parties : List (Party M)} (hkind : ∀ q ∈ parties, q.kind = .epoch)
    (hnever : Party.least parties ≠ Time.never) :
    ∃ (j : Nat) (q : Party M), parties[j]? = some q ∧
      ∃ a ∈ (q.partition.timeline.addAll (Party.incoming parties j)).agenda,
        a.time = Party.least parties := by
  obtain ⟨j, hj⟩ := List.mem_iff_getElem?.mp (Time.foldl_min_mem hnever)
  rw [List.getElem?_mapIdx] at hj
  obtain ⟨q, hq, hmin⟩ := Option.map_eq_some_iff.mp hj
  have hepoch := hkind q (List.mem_of_getElem? hq)
  rw [minimum_epoch hepoch, timeline_taken_epoch hepoch] at hmin
  refine ⟨j, q, hq, ?_⟩
  cases hagenda : (q.partition.timeline.addAll (Party.incoming parties j)).agenda with
  | nil =>
    rw [Timeline.nextTime_of_agenda_nil hagenda] at hmin
    exact absurd hmin.symm hnever
  | cons a rest =>
    rw [Timeline.nextTime_of_agenda_cons hagenda] at hmin
    exact ⟨a, List.mem_cons_self, hmin⟩

end Party

theorem Partition.buffers_of_empty {p : Partition M}
    (h : ∃ outbound : List (Outbox M.Payload), p.member.outbound = outbound.map fun _ => {})
    (safe : Prop) (bound : Time) : p.Buffers safe bound := by
  obtain ⟨outbound, h⟩ := h
  intro j box hbox a ha
  rw [h, List.getElem?_map] at hbox
  obtain ⟨_, _, rfl⟩ := Option.map_eq_some_iff.mp hbox
  cases ha

theorem Partition.Meets.taken {q : Party M} {S : Setting} {least : Time}
    (h : q.partition.Meets S least) (hkind : q.kind = .epoch)
    {incoming : List (Scheduled M.Payload)}
    (hincoming : ∀ a ∈ incoming,
      least.after S.window ≤ a.time ∧ a.priority = Priority.event ∧ a.isDelivery = true) :
    (q.taken incoming).Meets S least := by
  have htimeline : (q.taken incoming).timeline = q.partition.timeline.addAll incoming :=
    Party.timeline_taken_epoch hkind
  have hwork : ∀ a ∈ incoming, a.payload.isWork = true :=
    fun a ha => Activity.isDelivery_isWork (hincoming a ha).2.2
  have hnextSync : (q.taken incoming).member.nextSync = q.partition.member.nextSync := by
    obtain ⟨work, p, kind⟩ := q
    cases kind <;> rfl
  refine ⟨?_, ?_, ?_, hnextSync.trans h.nextSync, ?_, ?_, h.late, h.many⟩
  · rw [htimeline]
    exact h.order.addAll _
  · rw [htimeline]
    exact h.current.addAll fun a ha => by
      rw [h.now]
      exact (hincoming a ha).1
  · rw [htimeline, Timeline.now_addAll]
    exact h.now
  · rw [htimeline, Timeline.filter_agenda_addAll _ fun a ha =>
      (Activity.isWork_iff.mp (hwork a ha)).1]
    exact h.syncs
  · rw [htimeline, Timeline.filter_agenda_addAll _ fun a ha =>
      (Activity.isWork_iff.mp (hwork a ha)).2]
    exact h.stops

theorem Partition.Meets.isWork_or_stop {p : Partition M} {S : Setting} {least : Time}
    (h : p.Meets S least) {a : Scheduled M.Payload} (ha : a ∈ p.timeline.agenda) :
    a.payload.isWork = true ∨ ∃ time, S.stopAt = some time ∧ a = Activity.ofStop time := by
  have hsync : a.isSync = false := by
    refine Bool.eq_false_iff.mpr fun hsync => ?_
    have hmem := List.mem_filter.mpr ⟨ha, hsync⟩
    rw [h.syncs] at hmem
    cases hmem
  by_cases hstop : a.isStop = true
  · have hmem := List.mem_filter.mpr ⟨ha, hstop⟩
    rw [h.stops] at hmem
    obtain ⟨time, htime, rfl⟩ := List.mem_map.mp hmem
    exact Or.inr ⟨time, Option.mem_toList.mp htime, rfl⟩
  · exact Or.inl (Activity.isWork_iff.mpr ⟨hsync, by simpa using hstop⟩)

theorem Partition.Meets.le_nextTime {p : Partition M} {S : Setting} {least : Time}
    (h : p.Meets S least) : least.after S.window ≤ p.timeline.nextTime := by
  cases hagenda : p.timeline.agenda with
  | nil =>
    rw [Timeline.nextTime_of_agenda_nil hagenda]
    exact Time.le_never _
  | cons a rest =>
    rw [Timeline.nextTime_of_agenda_cons hagenda, ← h.now]
    exact h.current a (by rw [hagenda]; exact List.mem_cons_self ..)

theorem Party.meeting_le_least {parties : List (Party M)} {S : Setting} {least : Time}
    (h : ∀ q ∈ parties, q.kind = .epoch ∧ q.partition.Meets S least ∧
      q.partition.Buffers S.exact (least.after S.window)) :
    least.after S.window ≤ Party.least parties := by
  refine le_least fun j q hq => ?_
  obtain ⟨hkind, hmeets, _⟩ := h q (List.mem_of_getElem? hq)
  rw [minimum_epoch hkind]
  exact (hmeets.taken hkind (mem_incoming h j)).le_nextTime

theorem Partition.Meets.resume {p : Partition M} {S : Setting} {least next : Time}
    (h : p.Meets S least) (hle : least.after S.window ≤ next) (hnext : next ≤ p.timeline.nextTime) :
    ({ p with
      member := { p.member.finishEpoch with nextSync := Seat.nextMeeting next S.window }
      timeline := p.timeline.insert (Seat.nextMeeting next S.window) Priority.threadSync .sync } :
      Partition M).OnTime S next := by
  have hmeeting : Seat.nextMeeting next S.window = next.after S.window := by
    have hafter := Time.le_after next S.window
    apply Time.ext
    unfold Seat.nextMeeting
    rw [Time.le_def] at hafter
    rw [Time.ticks_max]
    omega
  have hcurrent : next ≤ next.after S.window := Time.le_after _ _
  have hpending : ∀ a ∈ p.timeline.agenda, next ≤ a.time :=
    fun a ha => Time.le_trans hnext (h.order.nextTime_le a ha)
  have hmem : ∀ {a : Scheduled M.Payload} {time : Time},
      a ∈ (p.timeline.insert time Priority.threadSync .sync).agenda →
        a = .ofMeeting time ∨ a ∈ p.timeline.agenda :=
    fun ha => Timeline.mem_agenda_add.mp ha
  rw [hmeeting]
  constructor
  case order => exact h.order.add _
  case current =>
    intro _ a ha
    rcases hmem ha with rfl | ha
    · show p.timeline.now ≤ next.after S.window
      rw [h.now]
      exact Time.le_trans hle hcurrent
    · exact h.current a ha
  case pending =>
    intro _ a ha
    rcases hmem ha with rfl | ha
    · exact hcurrent
    · exact hpending a ha
  case nextSync => rfl
  case syncs =>
    have hadd : (p.timeline.insert (next.after S.window) Priority.threadSync .sync).agenda =
        Ordered.place Activity.before (.ofMeeting (next.after S.window)) p.timeline.agenda :=
      Timeline.agenda_add _ _
    have hperm := (Ordered.place_perm Activity.before
      (.ofMeeting (next.after S.window) : Scheduled M.Payload) p.timeline.agenda).filter
        Activity.isSync
    rw [List.filter_cons_of_pos (by rfl), h.syncs] at hperm
    rw [if_pos h.many, ← List.perm_singleton]
    show (List.filter _ (p.timeline.insert _ _ _).agenda).Perm _
    rw [hadd]
    exact hperm
  case stops =>
    exact (p.timeline.filter_agenda_meeting (next.after S.window) rfl).trans h.stops

/-! ## Concluding -/

namespace Fits

variable {S : Setting} {q : Party M}

theorem ready_init {phase : Nat} (h : Fits S (.init phase) (.ready q)) :
    ∃ p own, q = ⟨.init phase, p, .untimed own⟩ ∧ p.OnTime S Time.zero := by
  cases h with
  | prepared _ p own h => exact ⟨p, own, rfl, h⟩

/-- Who is ready in the timed run has come to the meeting or has left, and everyone did the same. -/
theorem ready_timed {least : Time} (h : Fits S (.timed least) (.ready q)) :
    (¬ S.Leaves least ∧ q.work = .timed ∧ q.kind = .epoch ∧ q.partition.Meets S least ∧
      q.partition.Buffers S.exact (least.after S.window)) ∨
    (S.Leaves least ∧ ∃ stop p own, q = ⟨.complete 0 stop, p, .untimed own⟩ ∧
      p.Finished S stop) := by
  cases h with
  | meeting _ p h hbuffers =>
    refine Or.inl ⟨?_, rfl, rfl, h, hbuffers⟩
    rintro (halone | ⟨time, hat, hle⟩)
    · exact halone h.many
    · have hlate := h.late time hat
      rw [Time.lt_def] at hlate
      rw [Time.le_def] at hle
      omega
  | left _ stop p own hleaves h => exact Or.inr ⟨hleaves, stop, p, own, rfl, h⟩

theorem ready_complete {phase : Nat} (h : Fits S (.complete phase) (.ready q)) :
    ∃ stop p own, q = ⟨.complete phase stop, p, .untimed own⟩ ∧ p.Finished S stop := by
  cases h with
  | completed _ stop p own h => exact ⟨stop, p, own, rfl, h⟩

/-- A round of the last stage leads to the next phase or to the end. -/
theorem conclude_complete {phase : Nat} {stop : StopReason} {p : Partition M} {own : Nat}
    (h : p.Finished S stop) (incoming : List (Scheduled M.Payload)) (least : Time) :
    Fits S (if least = Time.never then .finished else .complete (phase + 1))
      (Party.conclude ⟨.complete phase stop, p, .untimed own⟩ incoming least).stance := by
  unfold Party.conclude
  by_cases hleast : least = Time.never
  · simp only [hleast, ne_eq, not_true_eq_false, decide_false, ↓reduceIte]
    exact .finished stop _ (h.timeline rfl)
  · simp only [hleast, ne_eq, not_false_eq_true, decide_true, ↓reduceIte]
    exact .completing (phase + 1) stop _ (h.timeline rfl)

/-- A round of the first stage leads to the next phase or to the timed run. -/
theorem conclude_init {phase : Nat} {p : Partition M} {own : Nat} (h : p.OnTime S Time.zero)
    (incoming : List (Scheduled M.Payload)) (least : Time) :
    Fits S (if least = Time.never then .timed Time.zero else .init (phase + 1))
      (Party.conclude ⟨.init phase, p, .untimed own⟩ incoming least).stance := by
  unfold Party.conclude
  by_cases hleast : least = Time.never
  · simp only [hleast, ne_eq, not_true_eq_false, decide_false, ↓reduceIte]
    refine .running Time.zero _ ⟨h.order, h.current, h.pending, h.nextSync, h.syncs, h.stops⟩ ?_
    exact Partition.buffers_of_empty ⟨p.member.outbound, rfl⟩ _ _
  · simp only [hleast, ne_eq, not_false_eq_true, decide_true, ↓reduceIte]
    exact .preparing (phase + 1) _ ⟨h.order, h.current, h.pending, h.nextSync, h.syncs, h.stops⟩

/-- An epoch leads to the next meeting, or to the end of the timed run if nothing is left to do. -/
theorem conclude_epoch {least next : Time} {i : Nat} (hwork : q.work = .timed)
    (hkind : q.kind = .epoch) (h : q.partition.Meets S least)
    (hconforms : q.partition.Conforms S i) {incoming : List (Scheduled M.Payload)}
    (hincoming : ∀ a ∈ incoming,
      least.after S.window ≤ a.time ∧ a.priority = Priority.event ∧ a.isDelivery = true)
    (hle : least.after S.window ≤ next) (hnext : next ≤ q.minimum incoming) :
    Fits S
      (if next = Time.never then if S.lifecycle then .complete 0 else .finished else .timed next)
      (q.conclude incoming next).stance := by
  have hmeets := h.taken hkind hincoming
  rw [Party.minimum_epoch hkind] at hnext
  have hlike : (q.taken incoming).Like q.partition := Partition.Like.taken q incoming
  by_cases hnever : next = Time.never
  · have hfinished : (q.taken incoming).Finished S .drained := by
      refine ⟨hmeets.current, fun a ha => ?_⟩
      exact Time.eq_never (hnever ▸ Time.le_trans hnext (hmeets.order.nextTime_le a ha))
    unfold Party.conclude
    simp only [hkind, hnever, ↓reduceIte]
    unfold Thread.finishTimed
    have hlifecycle : (q.taken incoming).lifecycle = S.lifecycle :=
      hlike.lifecycle.trans hconforms.lifecycle
    cases hS : S.lifecycle with
    | true =>
      simp only [hlifecycle, hS, ↓reduceIte]
      exact .completing 0 .drained _ (hfinished.timeline rfl)
    | false =>
      simp only [hlifecycle, hS, ↓reduceIte, Bool.false_eq_true]
      exact .finished .drained _ (hfinished.timeline rfl)
  · have hwindow : (q.taken incoming).member.window = S.window :=
      hlike.window.trans hconforms.window
    unfold Party.conclude
    simp only [hkind, hwork, hnever, ↓reduceIte, hwindow]
    refine .running next _ (hmeets.resume hle hnext) ?_
    exact Partition.buffers_of_empty
      ⟨q.partition.member.outbound, Party.outbound_taken q incoming⟩ _ _

end Fits

/-! ## Agreement -/

namespace Cohort.Agrees

variable {cohort next : Cohort M} {S : Setting} {m : Moment} {parties : List (Party M)}

theorem fits_party (h : Cohort.Agrees (parties.map Stance.ready) S m) {j : Nat} {q : Party M}
    (hq : parties[j]? = some q) : Fits S m (.ready q) :=
  h j (.ready q) (Cohort.getElem?_ready hq)

theorem fits_mem (h : Cohort.Agrees (parties.map Stance.ready) S m) {q : Party M}
    (hq : q ∈ parties) : Fits S m (.ready q) := by
  obtain ⟨j, hj⟩ := List.mem_iff_getElem?.mp hq
  exact h.fits_party hj

theorem conforms_party (h : Cohort.Conforms (parties.map Stance.ready) S) {j : Nat} {q : Party M}
    (hq : parties[j]? = some q) : q.partition.Conforms S j :=
  h.each j (.ready q) (Cohort.getElem?_ready hq)

/-- Everyone agrees after an exchange if everyone that was ready comes to the same moment. -/
theorem exchanged (h : ∀ (j : Nat) (q : Party M), parties[j]? = some q →
    Fits S m (q.conclude (Party.incoming parties j) (Party.least parties)).stance) :
    (Cohort.exchanged parties).Agrees S m := by
  intro j s hs
  obtain ⟨q, hq, rfl⟩ := Cohort.getElem?_exchanged hs
  exact h j q hq

theorem exchange_meeting {least : Time}
    (h : ∀ q ∈ parties, q.work = .timed ∧ q.kind = .epoch ∧ q.partition.Meets S least ∧
      q.partition.Buffers S.exact (least.after S.window))
    (hconforms : Cohort.Conforms (parties.map Stance.ready) S) :
    (Cohort.exchanged parties).Agrees S
      (if Party.least parties = Time.never then if S.lifecycle then .complete 0 else .finished
        else .timed (Party.least parties)) := by
  have hincoming : ∀ j, ∀ a ∈ Party.incoming parties j,
      least.after S.window ≤ a.time ∧ a.priority = Priority.event ∧ a.isDelivery = true :=
    Party.mem_incoming fun r hr => (h r hr).2
  refine exchanged fun j q hq => ?_
  obtain ⟨hwork, hkind, hmeets, _⟩ := h q (List.mem_of_getElem? hq)
  exact Fits.conclude_epoch hwork hkind hmeets (conforms_party hconforms hq) (hincoming j)
    (Party.meeting_le_least fun r hr => (h r hr).2) (Party.least_le_minimum hq)

theorem exchange (h : cohort.Agrees S m) (hconforms : cohort.Conforms S)
    (hstep : cohort.exchange? = some next) : ∃ m', next.Agrees S m' := by
  obtain ⟨parties, hne, rfl, rfl⟩ := exchange?_eq_some_iff.mp hstep
  cases m with
  | init phase =>
    refine ⟨if Party.least parties = Time.never then .timed Time.zero else .init (phase + 1),
      exchanged fun j q hq => ?_⟩
    obtain ⟨p, own, rfl, hontime⟩ := (h.fits_party hq).ready_init
    exact Fits.conclude_init hontime _ _
  | complete phase =>
    refine ⟨if Party.least parties = Time.never then .finished else .complete (phase + 1),
      exchanged fun j q hq => ?_⟩
    obtain ⟨stop, p, own, rfl, hfinished⟩ := (h.fits_party hq).ready_complete
    exact Fits.conclude_complete hfinished _ _
  | finished =>
    obtain ⟨q, hq⟩ := List.exists_mem_of_ne_nil parties hne
    cases h.fits_mem hq
  | timed least =>
    by_cases hleaves : S.Leaves least
    · refine ⟨if Party.least parties = Time.never then .finished else .complete 1,
        exchanged fun j q hq => ?_⟩
      rcases (h.fits_party hq).ready_timed with ⟨hstays, _⟩ | ⟨_, stop, p, own, rfl, hfinished⟩
      · exact absurd hleaves hstays
      · exact Fits.conclude_complete hfinished _ _
    · have hmeets : ∀ q ∈ parties, q.work = .timed ∧ q.kind = .epoch ∧
          q.partition.Meets S least ∧ q.partition.Buffers S.exact (least.after S.window) := by
        intro q hq
        rcases (h.fits_mem hq).ready_timed with ⟨_, hmeeting⟩ | ⟨hleft, _⟩
        · exact hmeeting
        · exact absurd hleft hleaves
      exact ⟨_, exchange_meeting hmeets hconforms⟩

theorem step (h : cohort.Agrees S m) (hconforms : cohort.Conforms S) {label : Option PartitionId}
    (hstep : cohort.step? label = some next)
    (hexact : S.exact → ∀ entry ∈ (Cohort.system M).note cohort label, entry.2.Exact) :
    ∃ m', next.Agrees S m' := by
  cases label with
  | none => exact h.exchange hconforms hstep
  | some i =>
    obtain ⟨work, p, hi, rfl⟩ := step?_some_iff.mp hstep
    refine ⟨m, fun j s hs => ?_⟩
    by_cases hij : i = j
    · subst hij
      have hlt := (List.getElem?_eq_some_iff.mp hi).1
      rw [List.getElem?_set_self hlt] at hs
      cases hs
      refine (h i _ hi).work (hconforms.each i _ hi) fun hsafe d hd => ?_
      refine hexact hsafe (i, d) ?_
      rw [note_of_running hi]
      exact mem_noteAt.mpr ⟨rfl, hd⟩
    · rw [List.getElem?_set_ne hij] at hs
      exact h j s hs

end Cohort.Agrees

/-! ## Runs -/

def Builder.setting (b : Builder M) (simulation : Simulation M) (exact : Prop := False) :
    Setting where
  partitions := simulation.partitions.length
  window := simulation.window
  stopAt := b.config.stopAt
  lifecycle := b.lifecycle
  exact := exact

def Partition.appointments (p : Partition M) : List (Scheduled M.Payload) :=
  (if p.synchronized then [.ofMeeting p.member.nextSync] else []) ++
    p.stopAt.toList.map .ofStop

theorem Partition.start_eq (p : Partition M) :
    p.start = { p with timeline := p.timeline.addAll p.appointments } := by
  unfold start appointments
  rw [Timeline.addAll_append]
  cases p.synchronized <;> cases p.stopAt <;> rfl

theorem Partition.Fresh.onTime {p : Partition M} {n i window : Nat} {stopAt : Option Time}
    {log : List (Planned M.Payload)} (h : p.Fresh n i window stopAt log) (lifecycle : Bool)
    (exact : Prop) : p.start.OnTime ⟨n, window, stopAt, lifecycle, exact⟩ Time.zero := by
  obtain ⟨profile, hmember⟩ := h.member
  have hnextSync : p.member.nextSync = Time.zero.after window := by
    rw [hmember]
    exact Time.ext (by simp [Member.fresh])
  have hzero : ∀ t : Time, Time.zero ≤ t := fun t => Nat.zero_le _
  have hperm := Timeline.agenda_addAll_perm p.timeline p.appointments
  have hnone : ∀ kind : Scheduled M.Payload → Bool,
      (∀ a : Scheduled M.Payload, a.payload.isWork = true → kind a = false) →
        p.timeline.agenda.filter kind = [] := by
    intro kind hkind
    rw [List.filter_eq_nil_iff]
    intro a ha
    simp [hkind a (h.timeline.work a ha)]
  have hsyncs : (p.appointments.map Activity.unnumbered).filter Activity.isSync =
      if 1 < n then [.ofMeeting (Time.zero.after window)] else [] := by
    unfold appointments
    rw [h.synchronized, hnextSync]
    by_cases hmany : 1 < n <;> cases p.stopAt <;>
      simp [hmany, List.filter_cons, Activity.isSync, Activity.ofMeeting, Activity.ofStop,
        Activity.unnumbered]
  have hstops : (p.appointments.map Activity.unnumbered).filter Activity.isStop =
      stopAt.toList.map Activity.ofStop := by
    unfold appointments
    rw [h.stopAt]
    by_cases hmany : p.synchronized <;> cases stopAt <;>
      simp [hmany, List.filter_cons, Activity.isStop, Activity.ofMeeting, Activity.ofStop,
        Activity.unnumbered]
  rw [start_eq]
  constructor
  case order => exact h.timeline.order.addAll _
  case current =>
    intro _ a _
    rw [Timeline.now_addAll, h.timeline.now]
    exact hzero _
  case pending => exact fun _ a _ => hzero _
  case nextSync => exact hnextSync
  case syncs =>
    have hsync := hperm.filter Activity.isSync
    rw [List.filter_append, hsyncs, hnone _ fun a ha => (Activity.isWork_iff.mp ha).1,
      List.append_nil] at hsync
    show List.filter _ (p.timeline.addAll p.appointments).agenda = _
    by_cases hmany : 1 < n
    · rw [if_pos hmany] at hsync ⊢
      exact List.perm_singleton.mp hsync
    · rw [if_neg hmany] at hsync ⊢
      exact List.perm_nil.mp hsync
  case stops =>
    have hstop := hperm.filter Activity.isStop
    rw [List.filter_append, hstops, hnone _ fun a ha => (Activity.isWork_iff.mp ha).2,
      List.append_nil] at hstop
    show List.filter _ (p.timeline.addAll p.appointments).agenda = _
    cases stopAt with
    | none => exact List.perm_nil.mp hstop
    | some time => exact List.perm_singleton.mp hstop

namespace Simulation

variable {b : Builder M} {log : List (Planned M.Payload)} {simulation : Simulation M}

theorem conforms_start (hb : b.Made log) (hbuild : b.build = .ok simulation) (exact : Prop) :
    simulation.cohort.Conforms (b.setting simulation exact) := by
  refine ⟨List.length_map .., ?_⟩
  intro i s hs
  obtain ⟨p, hp, rfl⟩ := exists_stance_start hs
  obtain ⟨hlifecycle, hfresh⟩ := (hb.build hbuild).2.2 i p hp
  obtain ⟨profile, hmember⟩ := hfresh.member
  show p.start.Conforms _ i
  have hwindow : p.member.window = simulation.window := by rw [hmember]; rfl
  have houtboxes : p.member.outbound.length = simulation.partitions.length := by
    rw [hmember]
    exact List.length_replicate ..
  exact ⟨hfresh.id, hfresh.table, houtboxes, hwindow, hlifecycle, hfresh.synchronized,
    hfresh.stopAt, hfresh.crossing⟩

theorem agrees_start (hb : b.Made log) (hbuild : b.build = .ok simulation) (exact : Prop) :
    ∃ m, simulation.cohort.Agrees (b.setting simulation exact) m := by
  refine ⟨if b.lifecycle then .init 0 else .timed Time.zero, ?_⟩
  intro i s hs
  obtain ⟨p, hp, rfl⟩ := exists_stance_start hs
  obtain ⟨hlifecycle, hfresh⟩ := (hb.build hbuild).2.2 i p hp
  have hontime := hfresh.onTime b.lifecycle exact
  obtain ⟨profile, hmember⟩ := hfresh.member
  unfold Thread.start
  rw [hlifecycle]
  cases b.lifecycle with
  | true => exact .preparing 0 _ hontime
  | false =>
    refine .running Time.zero _ hontime ?_
    refine Partition.buffers_of_empty ⟨p.member.outbound, ?_⟩ _ _
    show p.member.outbound = p.member.outbound.map fun _ => {}
    rw [hmember]
    simp [Member.fresh]

section Runs

variable {labels : List (Option PartitionId)} {trace : List (PartitionId × Dispatch M)}
  {cohort : Cohort M}

theorem agrees_while {exact : Prop} (hb : b.Made log) (hbuild : b.build = .ok simulation)
    (hrun : (Cohort.system M).Run simulation.cohort labels trace cohort)
    (hexact : exact → ∀ entry ∈ trace, entry.2.Exact) :
    cohort.Conforms (b.setting simulation exact) ∧
      ∃ m, cohort.Agrees (b.setting simulation exact) m := by
  induction hrun with
  | refl => exact ⟨conforms_start hb hbuild exact, agrees_start hb hbuild exact⟩
  | step _ hstep ih =>
    obtain ⟨hconforms, m, hagrees⟩ := ih fun hsafe entry hentry =>
      hexact hsafe entry (List.mem_append_left _ hentry)
    exact ⟨hconforms.step hstep, hagrees.step hconforms hstep fun hsafe entry hentry =>
      hexact hsafe entry (List.mem_append_right _ hentry)⟩

theorem agrees_run (hb : b.Made log) (hbuild : b.build = .ok simulation)
    (hrun : (Cohort.system M).Run simulation.cohort labels trace cohort) :
    cohort.Conforms (b.setting simulation) ∧ ∃ m, cohort.Agrees (b.setting simulation) m :=
  agrees_while hb hbuild hrun False.elim

/-- If no clock has overflowed unnoticed, everyone is on time as well. -/
theorem agrees_exact (hb : b.Made log) (hbuild : b.build = .ok simulation)
    (hrun : (Cohort.system M).Run simulation.cohort labels trace cohort)
    (hexact : ∀ entry ∈ trace, entry.2.Exact) :
    cohort.Conforms (b.setting simulation True) ∧
      ∃ m, cohort.Agrees (b.setting simulation True) m :=
  agrees_while hb hbuild hrun fun _ => hexact

end Runs

end Simulation

end Lookahead
