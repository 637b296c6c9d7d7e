import Lookahead.Proofs.Accounts

/-!
Events are conserved.

An exchange moves what waits in the outboxes to the agendas of its destinations, so the accounts of
a cohort stay in order from the start to the end of every run, unless a partition fails.
-/

namespace Lookahead

variable {M : Model}

/-! ## Exchanging -/

namespace Party

variable {q : Party M} {incoming : List (Scheduled M.Payload)}

theorem outboxFor_taken (q : Party M) (incoming : List (Scheduled M.Payload)) (j : PartitionId) :
    (q.taken incoming).outboxFor j = [] := by
  unfold Partition.outboxFor
  rw [outbound_taken, List.getElem?_map]
  cases q.partition.member.outbound[j]? <;> rfl

/-- Whatever follows an exchange, nothing is left to be handed over. -/
theorem transit_conclude (q : Party M) (incoming : List (Scheduled M.Payload)) (least : Time)
    (j : PartitionId) : (q.conclude incoming least).stance.transit j = [] := by
  have hempty : ∀ p : Partition M, p.member.outbound = (q.taken incoming).member.outbound →
      p.outboxFor j = [] := by
    intro p hp
    have := q.outboxFor_taken incoming j
    unfold Partition.outboxFor at *
    rw [hp]
    exact this
  unfold conclude
  cases hkind : q.kind with
  | epoch =>
    by_cases hleast : least = Time.never
    · simp only [hleast, ↓reduceIte, Thread.transit_finishTimed]
    · simp only [hleast, ↓reduceIte]
      cases hwork : q.work with
      | timed => exact hempty _ rfl
      | init phase => rfl
      | complete phase stop => rfl
  | untimed own =>
    simp only [Thread.afterRound]
    split
    · rfl
    · exact hempty _ rfl
    · rfl
    · rfl
    · exact hempty _ rfl

theorem events_taken (q : Party M) (incoming : List (Scheduled M.Payload)) :
    (q.taken incoming).tally.events = q.partition.tally.events := by
  unfold taken handed
  split <;> rfl

theorem events_conclude (q : Party M) (incoming : List (Scheduled M.Payload)) (least : Time) :
    (q.conclude incoming least).stance.partition.tally.events = q.partition.tally.events := by
  rw [← events_taken q incoming]
  unfold conclude
  cases hkind : q.kind with
  | epoch =>
    by_cases hleast : least = Time.never
    · simp only [hleast, ↓reduceIte, Thread.events_finishTimed]
    · simp only [hleast, ↓reduceIte]
      rfl
  | untimed own =>
    simp only [Thread.afterRound]
    split <;> rfl

/-- The next meeting is no delivery. -/
theorem expected_conclude (q : Party M) (incoming : List (Scheduled M.Payload)) (least : Time) :
    (q.conclude incoming least).stance.partition.expected = (q.taken incoming).expected := by
  unfold conclude
  cases hkind : q.kind with
  | epoch =>
    by_cases hleast : least = Time.never
    · simp only [hleast, ↓reduceIte, Thread.expected_finishTimed]
      rfl
    · simp only [hleast, ↓reduceIte]
      exact (q.taken incoming).timeline.filter_agenda_meeting _ rfl
  | untimed own =>
    unfold Partition.expected
    simp only [Thread.partition_stance, Thread.timeline_afterRound]

theorem expected_taken_untimed {own : Nat} (hkind : q.kind = .untimed own) :
    (q.taken incoming).expected = q.partition.expected := by
  obtain ⟨work, p, kind⟩ := q
  cases hkind
  rfl

theorem countP_expected_taken (hkind : q.kind = .epoch)
    (hincoming : ∀ a ∈ incoming, a.isDelivery = true) (kind : Scheduled M.Payload → Bool) :
    (q.taken incoming).expected.countP kind =
      q.partition.expected.countP kind + (incoming.map Activity.unnumbered).countP kind := by
  have hall : (incoming.map Activity.unnumbered).filter Activity.isDelivery =
      incoming.map Activity.unnumbered := by
    rw [List.filter_eq_self]
    intro a ha
    obtain ⟨b, hb, rfl⟩ := List.mem_map.mp ha
    exact hincoming b hb
  have hperm := (Timeline.agenda_addAll_perm q.partition.timeline incoming).filter
    Activity.isDelivery
  rw [List.filter_append, hall] at hperm
  have hcount := hperm.countP_eq kind
  rw [List.countP_append] at hcount
  have hexpected : (q.taken incoming).expected =
      (q.partition.timeline.addAll incoming).agenda.filter Activity.isDelivery := by
    unfold Partition.expected
    rw [timeline_taken_epoch hkind]
  rw [hexpected, hcount, Nat.add_comm]
  rfl

end Party

namespace Cohort

variable {S : Setting} {m : Moment} {parties : List (Party M)}

/-- An exchange is an epoch for everyone or for nobody. -/
theorem Agrees.kinds (h : Agrees (parties.map Stance.ready) S m) :
    (∀ q ∈ parties, q.kind = .epoch ∧
      q.partition.Buffers S.exact q.partition.timeline.now) ∨
      ∀ q ∈ parties, ∃ own, q.kind = .untimed own := by
  have hfits : ∀ q ∈ parties, Fits S m (.ready q) := fun q hq => h.fits_mem hq
  cases m with
  | init phase =>
    refine Or.inr fun q hq => ?_
    obtain ⟨p, own, rfl, _⟩ := (hfits q hq).ready_init
    exact ⟨own, rfl⟩
  | complete phase =>
    refine Or.inr fun q hq => ?_
    obtain ⟨stop, p, own, rfl, _⟩ := (hfits q hq).ready_complete
    exact ⟨own, rfl⟩
  | finished =>
    refine Or.inr fun q hq => ?_
    cases hfits q hq
  | timed least =>
    by_cases hleaves : S.Leaves least
    · refine Or.inr fun q hq => ?_
      rcases (hfits q hq).ready_timed with ⟨hstays, _⟩ | ⟨_, stop, p, own, rfl, _⟩
      · exact absurd hleaves hstays
      · exact ⟨own, rfl⟩
    · refine Or.inl fun q hq => ?_
      rcases (hfits q hq).ready_timed with ⟨_, _, hkind, hmeets, hbuffers⟩ | ⟨hleft, _⟩
      · exact ⟨hkind, by rw [hmeets.now]; exact hbuffers⟩
      · exact absurd hleft hleaves

theorem transit_untimed (h : ∀ q ∈ parties, ∃ own, q.kind = .untimed own) (j : PartitionId) :
    ((parties.map Stance.ready).flatMap fun s => s.transit j) = [] := by
  rw [List.flatMap_eq_nil_iff]
  intro s hs
  obtain ⟨q, hq, rfl⟩ := List.mem_map.mp hs
  obtain ⟨own, hkind⟩ := h q hq
  obtain ⟨work, p, kind⟩ := q
  cases hkind
  rfl

theorem transit_epoch {safe : Prop} (hsafe : safe) (h : ∀ q ∈ parties, q.kind = .epoch ∧
    q.partition.Buffers safe q.partition.timeline.now) (j : PartitionId) :
    ((parties.map Stance.ready).flatMap fun s => s.transit j) =
      (Party.incoming parties j).map Activity.unnumbered := by
  induction parties with
  | nil => rfl
  | cons q rest ih =>
    obtain ⟨hkind, hbuffers⟩ := h q (List.mem_cons_self ..)
    have hincoming : Party.incoming (q :: rest) j = q.outgoing j ++ Party.incoming rest j := rfl
    have htransit : (Stance.ready q).transit j = (q.outbox j).map Activity.unnumbered := by
      obtain ⟨work, p, kind⟩ := q
      cases hkind
      rfl
    rw [hincoming, List.map_append, Party.outgoing_eq hkind hsafe hbuffers, List.map_cons,
      List.flatMap_cons, htransit, ih fun r hr => h r (List.mem_cons_of_mem _ hr)]

/-- At any meeting it takes in what is in transit to it, for whatever time that is. -/
theorem countP_transit_epoch {safe : Prop} (h : ∀ q ∈ parties, q.kind = .epoch ∧
    q.partition.Buffers safe q.partition.timeline.now) (j : PartitionId)
    {kind : Scheduled M.Payload → Bool} (hkind : safe ∨ Activity.Timeless kind) :
    ((parties.map Stance.ready).flatMap fun s => s.transit j).countP kind =
      ((Party.incoming parties j).map Activity.unnumbered).countP kind := by
  rcases hkind with hsafe | htimeless
  · rw [transit_epoch hsafe h]
  · induction parties with
    | nil => rfl
    | cons q rest ih =>
      have hincoming : Party.incoming (q :: rest) j = q.outgoing j ++ Party.incoming rest j := rfl
      have htransit : (Stance.ready q).transit j = (q.outbox j).map Activity.unnumbered := by
        obtain ⟨work, p, kind⟩ := q
        cases (h _ (List.mem_cons_self ..)).1
        rfl
      have hoff : ((q.outgoing j).map Activity.unnumbered).countP kind =
          ((q.outbox j).map Activity.unnumbered).countP kind := by
        unfold Party.outgoing
        rw [List.map_map, List.countP_map, List.countP_map]
        refine List.countP_congr fun a _ => ?_
        have hsame : kind (a.notBefore q.horizon).unnumbered = kind a.unnumbered :=
          htimeless _ _ rfl
        exact Bool.eq_iff_iff.mp hsame
      rw [hincoming, List.map_append, List.countP_append, hoff, List.map_cons, List.flatMap_cons,
        List.countP_append, htransit, ih fun r hr => h r (List.mem_cons_of_mem _ hr)]

theorem transit_exchanged (parties : List (Party M)) (j : PartitionId) :
    ((exchanged parties).flatMap fun s => s.transit j) = [] := by
  rw [List.flatMap_eq_nil_iff]
  intro s hs
  obtain ⟨k, hk⟩ := List.mem_iff_getElem?.mp hs
  obtain ⟨q, _, rfl⟩ := Cohort.getElem?_exchanged hk
  exact q.transit_conclude _ _ j

variable {log : List (Planned M.Payload)} {trace : List (PartitionId × Dispatch M)}

theorem Accounts.exchange (h : Accounts (parties.map Stance.ready) S.exact log trace)
    (hagrees : Agrees (parties.map Stance.ready) S m) :
    (exchanged parties).Accounts S.exact log trace := by
  constructor
  case counted =>
    intro j s hs
    obtain ⟨q, hq, rfl⟩ := getElem?_exchanged hs
    rw [Party.events_conclude]
    exact h.counted j _ (getElem?_ready hq)
  case conserved =>
    intro j s hs kind hkind
    obtain ⟨q, hq, rfl⟩ := getElem?_exchanged hs
    have hbefore := h.conserved j _ (getElem?_ready hq) kind hkind
    have hpartition : (Stance.ready q).partition = q.partition := rfl
    rw [hpartition] at hbefore
    rw [transit_exchanged, Party.expected_conclude]
    rcases hagrees.kinds with hepoch | huntimed
    · have hincoming : ∀ a ∈ Party.incoming parties j, a.isDelivery = true := by
        intro a ha
        obtain ⟨r, hr, ha⟩ := List.mem_flatMap.mp ha
        obtain ⟨b, hb, rfl⟩ := List.mem_map.mp ha
        exact (Party.mem_outbox (hepoch r hr).2 hb).2.2
      rw [countP_transit_epoch hepoch j hkind] at hbefore
      rw [Party.countP_expected_taken (hepoch q (List.mem_of_getElem? hq)).1 hincoming]
      simp only [List.countP_nil]
      omega
    · obtain ⟨own, hkind⟩ := huntimed q (List.mem_of_getElem? hq)
      rw [transit_untimed huntimed] at hbefore
      rw [Party.expected_taken_untimed hkind]
      exact hbefore

end Cohort

/-! ## Runs -/

/-- Every step keeps the accounts in order, unless a partition fails. -/
theorem Cohort.Accounts.step {cohort next : Cohort M} {S : Setting} {m : Moment}
    {log : List (Planned M.Payload)} {trace : List (PartitionId × Dispatch M)}
    {label : Option PartitionId} (h : cohort.Broken ∨ cohort.Accounts S.exact log trace)
    (hagrees : cohort.Agrees S m) (hconforms : cohort.Conforms S)
    (hstep : cohort.step? label = some next) :
    next.Broken ∨ next.Accounts S.exact log (trace ++ (Cohort.system M).note cohort label) := by
  cases label with
  | none =>
    obtain ⟨parties, _, rfl, rfl⟩ := exchange?_eq_some_iff.mp hstep
    rcases h with hbroken | haccounts
    · exact absurd hbroken (not_broken_ready parties)
    · have hnote : (Cohort.system M).note (parties.map Stance.ready) none = [] := rfl
      rw [hnote, List.append_nil]
      exact Or.inr (haccounts.exchange hagrees)
  | some i =>
    obtain ⟨work, p, hi, rfl⟩ := step?_some_iff.mp hstep
    rw [note_of_running hi]
    rcases h with hbroken | haccounts
    · exact Or.inl (hbroken.set hi (Or.inl fun _ _ h => by cases h))
    · have hlt : i < S.partitions := by
        rw [← hconforms.length]
        exact (List.getElem?_eq_some_iff.mp hi).1
      rcases (hagrees i _ hi).balanced (hconforms.each i _ hi) hlt with ⟨e, q, hfailed⟩ | hbalanced
      · exact Or.inl (.of_failed (i := i) (e := e) (p := q)
          (by rw [hfailed]; exact getElem?_set_of_some hi))
      · exact Or.inr (haccounts.set hi hbalanced)

/-- Neither the first meeting nor the stop is a delivery. -/
theorem Partition.isDelivery_of_mem_appointments {p : Partition M} {a : Scheduled M.Payload}
    (h : a ∈ p.appointments) : Activity.isDelivery a.unnumbered = false := by
  unfold Partition.appointments at h
  rcases List.mem_append.mp h with h | h
  · split at h
    · obtain rfl := List.mem_singleton.mp h
      rfl
    · cases h
  · obtain ⟨time, _, rfl⟩ := List.mem_map.mp h
    rfl

namespace Simulation

variable {b : Builder M} {log : List (Planned M.Payload)} {simulation : Simulation M}

theorem expected_start {p : Partition M} {n i window : Nat} {stopAt : Option Time}
    (h : p.Fresh n i window stopAt log) :
    p.start.expected.Perm
      ((log.filter fun e => e.target.partition == i).map Planned.activity) := by
  have hexpected : p.start.expected = p.expected := by
    rw [Partition.start_eq]
    exact Timeline.filter_agenda_addAll p.timeline fun a ha =>
      Partition.isDelivery_of_mem_appointments ha
  rw [hexpected]
  exact h.timeline.planned

theorem transit_start {p : Partition M} {n i window : Nat} {stopAt : Option Time}
    (h : p.Fresh n i window stopAt log) (j : PartitionId) :
    (Thread.start p).stance.transit j = [] := by
  obtain ⟨profile, hmember⟩ := h.member
  unfold Thread.start
  cases p.lifecycle with
  | true => rfl
  | false =>
    have houtbound : p.start.member.outbound = List.replicate n {} := by
      show p.member.outbound = _
      rw [hmember]
      rfl
    show p.start.outboxFor j = []
    unfold Partition.outboxFor
    rw [houtbound, List.getElem?_replicate]
    split <;> rfl

theorem accounts_start (safe : Prop) (hb : b.Made log) (hbuild : b.build = .ok simulation) :
    simulation.cohort.Accounts safe log [] := by
  have hback : ∀ (j : Nat) (s : Stance M), simulation.cohort[j]? = some s → ∃ p,
      p.Fresh simulation.partitions.length j simulation.window b.config.stopAt log ∧
        s = (Thread.start p).stance := by
    intro j s hs
    obtain ⟨p, hp, rfl⟩ := exists_stance_start hs
    exact ⟨p, ((hb.build hbuild).2.2 j p hp).2, rfl⟩
  have htransit : ∀ j, (simulation.cohort.flatMap fun s => s.transit j) = [] := by
    intro j
    rw [List.flatMap_eq_nil_iff]
    intro s hs
    obtain ⟨k, hk⟩ := List.mem_iff_getElem?.mp hs
    obtain ⟨p, hfresh, rfl⟩ := hback k s hk
    exact transit_start hfresh j
  constructor
  case conserved =>
    intro j s hs kind _
    obtain ⟨p, hfresh, rfl⟩ := hback j s hs
    have hcount := (expected_start hfresh).countP_eq kind
    have hpartition : (Thread.start p).stance.partition = p.start := rfl
    rw [htransit, hpartition, hcount]
    simp [deliveries, abandoned, asked]
  case counted =>
    intro j s hs
    obtain ⟨p, hfresh, rfl⟩ := hback j s hs
    have hevents : p.tally.events = 0 := by rw [hfresh.tally]
    exact hevents

theorem accounts_run {safe : Prop} (hb : b.Made log) (hbuild : b.build = .ok simulation)
    {labels : List (Option PartitionId)} {trace : List (PartitionId × Dispatch M)}
    {cohort : Cohort M} (hrun : (Cohort.system M).Run simulation.cohort labels trace cohort)
    (hexact : safe → ∀ entry ∈ trace, entry.2.Exact) :
    cohort.Broken ∨ cohort.Accounts safe log trace := by
  induction hrun with
  | refl => exact Or.inr (accounts_start safe hb hbuild)
  | step hrun hstep ih =>
    have hbefore := fun hsafe entry hentry => hexact hsafe entry (List.mem_append_left _ hentry)
    obtain ⟨hconforms, m, hagrees⟩ := agrees_while hb hbuild hrun hbefore
    exact Cohort.Accounts.step (ih hbefore) hagrees hconforms hstep

/-- Every dispatch of a run was made by a partition of a cohort that the run came to before. -/
theorem dispatched_at {start cohort : Cohort M} {labels : List (Option PartitionId)}
    {trace : List (PartitionId × Dispatch M)}
    (hrun : (Cohort.system M).Run start labels trace cohort) : ∀ entry ∈ trace,
      ∃ labels' trace' cohort' p, trace' <+: trace ∧
        (Cohort.system M).Run start labels' trace' cohort' ∧
        cohort'[entry.1]? = some (.running .timed p) ∧ p.next? = some entry.2 := by
  induction hrun with
  | refl => simp
  | @step labels trace x y label hrun hstep ih =>
    intro entry hentry
    rcases List.mem_append.mp hentry with hentry | hentry
    · obtain ⟨labels', trace', cohort', p, hfront, hdispatched⟩ := ih entry hentry
      exact ⟨labels', trace', cohort', p, hfront.trans (List.prefix_append ..), hdispatched⟩
    · cases label with
      | none => cases hentry
      | some i =>
        obtain ⟨hi, hdispatch⟩ := mem_noteAt.mp hentry
        obtain ⟨s, hs, hdispatch⟩ := Option.bind_eq_some_iff.mp hdispatch
        rw [← hi] at hs
        cases s with
        | ready q => cases hdispatch
        | failed e p => cases hdispatch
        | ended stop p => cases hdispatch
        | running work p =>
          cases work with
          | init phase => cases hdispatch
          | complete phase stop => cases hdispatch
          | timed => exact ⟨labels, trace, x, p, List.prefix_append .., hrun, hs, hdispatch⟩

theorem dispatched_run {exact : Prop} (hb : b.Made log) (hbuild : b.build = .ok simulation)
    {labels : List (Option PartitionId)} {trace : List (PartitionId × Dispatch M)}
    {cohort : Cohort M} (hrun : (Cohort.system M).Run simulation.cohort labels trace cohort)
    (hexact : exact → ∀ entry ∈ trace, entry.2.Exact) :
    ∀ entry ∈ trace, entry.1 < simulation.partitions.length ∧
      ∃ (p : Partition M) (least : Time), p.next? = some entry.2 ∧
        p.Conforms (b.setting simulation exact) entry.1 ∧
        p.OnTime (b.setting simulation exact) least ∧
        p.Buffers exact (least.after simulation.window) := by
  intro entry hentry
  obtain ⟨labels', trace', cohort', p, hfront, hbefore, hp, hnext⟩ :=
    dispatched_at hrun entry hentry
  obtain ⟨hconforms, m, hagrees⟩ := agrees_while hb hbuild hbefore fun hsafe earlier hearlier =>
    hexact hsafe earlier (hfront.subset hearlier)
  have hlt := (List.getElem?_eq_some_iff.mp hp).1
  rw [hconforms.length] at hlt
  cases hagrees entry.1 _ hp with
  | running least p hontime hbuffers =>
    exact ⟨hlt, p, least, hnext, hconforms.each entry.1 _ hp, hontime, hbuffers⟩

/-- What was abandoned is not due before the stop. -/
theorem abandoned_late (hb : b.Made log) (hbuild : b.build = .ok simulation)
    {labels : List (Option PartitionId)} {trace : List (PartitionId × Dispatch M)}
    {cohort : Cohort M} (hrun : (Cohort.system M).Run simulation.cohort labels trace cohort)
    (hexact : ∀ entry ∈ trace, entry.2.Exact) (j : PartitionId) :
    ∀ a ∈ abandoned trace j, 1 < simulation.partitions.length ∧
      a.priority = Priority.event ∧ ∃ time, b.config.stopAt = some time ∧ time ≤ a.time := by
  intro a ha
  obtain ⟨entry, hentry, ha⟩ := List.mem_flatMap.mp ha
  obtain ⟨hlt, p, least, hnext, hconforms, hontime, hbuffers⟩ :=
    dispatched_run hb hbuild hrun (fun _ : True => hexact) entry hentry
  unfold Dispatch.abandoned at ha
  split at ha
  case h_2 => cases ha
  case h_1 hstop =>
    have hbox : a ∈ p.outboxFor j := by
      rw [← Partition.outboxFor_of_next? hnext]
      exact ha
    obtain ⟨_, hdue, hpriority, _⟩ := hbuffers.of_mem_outboxFor hbox
    have hmany : 1 < simulation.partitions.length := by
      refine Nat.not_le.mp fun halone => ?_
      rw [hbuffers.alone hconforms hlt (Nat.not_lt.mpr halone) j] at hbox
      cases hbox
    refine ⟨hmany, hpriority, ?_⟩
    rcases (hontime.leaves_of_stop hnext hstop).1 with halone | ⟨time, hat, hle⟩
    · exact absurd hmany halone
    · exact ⟨time, hat, Time.le_trans hle (hdue trivial)⟩

theorem routes_run (hbuild : b.build = .ok simulation) {labels : List (Option PartitionId)}
    {trace : List (PartitionId × Dispatch M)} {cohort : Cohort M}
    (hrun : (Cohort.system M).Run simulation.cohort labels trace cohort) :
    ∀ (i : Nat) (s : Stance M), cohort[i]? = some s → s.partition.routes = b.table i := by
  refine hrun.invariant (P := fun cohort : Cohort M => ∀ (i : Nat) (s : Stance M),
    cohort[i]? = some s → s.partition.routes = b.table i) ?_ ?_
  · intro i s hs
    obtain ⟨_, window, _, rfl⟩ := Builder.build_eq_ok hbuild
    unfold Simulation.cohort at hs
    rw [List.getElem?_map, List.getElem?_mapIdx] at hs
    cases hsetup : b.setups[i]? with
    | none => simp [hsetup] at hs
    | some setup =>
      simp only [hsetup, Option.map_some, Option.some.injEq] at hs
      rw [← hs]
      rfl
  · intro x label y hx hstep i s hs
    obtain ⟨s', hs', hlike⟩ := Cohort.like_step? hstep hs
    rw [hlike.routes]
    exact hx i s' hs'

end Simulation

end Lookahead
