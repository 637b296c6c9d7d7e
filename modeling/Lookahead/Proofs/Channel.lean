import Lookahead.Proofs.Delivery
import Lookahead.Proofs.Mail
import Lookahead.Proofs.Precedence

/-!
What is sent on a link end arrives at its peer first in, first out, instant by instant.

Between partitions a meeting brings what was sent in the leg before it, so after a number of
meetings the sends of that many legs have come to the agenda of the destination, in the order of
sending (`Cohort.Conveys`). Within a partition a send comes to the agenda at once. On an agenda,
those of one time and priority stay in the order in which they came.
-/

namespace Lookahead

/-! ## Activities of one kind -/

namespace Activity

variable {π : Type}

def isFor (link : LinkId) (a : Scheduled π) : Bool :=
  a.payload.event?.any fun event => event.link == link

theorem target_eq_of_isFor {target f : LinkEnd} {a : Scheduled π} {payload : π}
    (ha : a.payload = .deliver ⟨target.link, payload⟩) (hpartition : target.partition = f.partition)
    (h : a.isFor f.link = true) : target = f := by
  have hlink : target.link = f.link := by simpa [isFor, ha, Action.event?] using h
  cases target
  cases f
  cases hpartition
  cases hlink
  rfl

theorem isFor_of_target_eq {target f : LinkEnd} {a : Scheduled π} {payload : π}
    (ha : a.payload = .deliver ⟨target.link, payload⟩) (h : target = f) :
    a.isFor f.link = true := by
  simp [isFor, ha, Action.event?, h]

theorem isDelivery_of_isFor {link : LinkId} {a : Scheduled π} (h : a.isFor link = true) :
    a.isDelivery = true := by
  unfold isFor at h
  unfold isDelivery
  cases hevent : a.payload.event? with
  | none => simp [hevent] at h
  | some event => rfl

/-- What is put on an agenda goes behind everything there of a kind all of which tie. -/
theorem filter_placeAll_of_ties {x : Scheduled π} {kind : Scheduled π → Bool}
    (hties : ∀ a, kind a = true → x.ties a = true) (added : List (Scheduled π))
    {items : List (Scheduled π)} (horder : Ordered.InOrder before items) :
    (Ordered.placeAll before added items).filter kind =
      items.filter kind ++ added.filter kind := by
  have htied : ∀ l : List (Scheduled π), l.filter kind = (l.filter x.ties).filter kind := by
    intro l
    rw [List.filter_filter]
    refine List.filter_congr fun a _ => ?_
    cases hkind : kind a with
    | false => rfl
    | true => rw [hties a hkind]; rfl
  rw [htied, filter_ties_placeAll x added horder, List.filter_append, ← htied, ← htied]

end Activity

/-- Requests that are told apart by what becomes of them only. -/
theorem filter_map_filter_congr {α β : Type} {f : α → β} {p q : α → Bool} {kind : β → Bool}
    {items : List α} (h : ∀ a ∈ items, kind (f a) = true → p a = q a) :
    ((items.filter p).map f).filter kind = ((items.filter q).map f).filter kind := by
  rw [List.filter_map, List.filter_map, List.filter_filter, List.filter_filter]
  refine congrArg (List.map f) (List.filter_congr fun a ha => ?_)
  show (kind (f a) && p a) = (kind (f a) && q a)
  cases hkind : kind (f a) with
  | false => rfl
  | true => rw [h a ha hkind]

variable {M : Model}

/-! ## Legs in a row -/

theorem mem_of_mem_leg {number : Nat} {seen : List (Dispatch M)} {d : Dispatch M}
    (h : d ∈ leg number seen) : d ∈ seen := by
  induction seen generalizing number with
  | nil => cases number <;> cases h
  | cons e seen ih =>
    cases number with
    | zero =>
      unfold leg at h
      split at h
      · cases h
      · exact (List.mem_cons.mp h).elim (fun heq => heq ▸ List.mem_cons_self ..)
          fun hmem => List.mem_cons_of_mem _ (ih hmem)
    | succ number =>
      unfold leg at h
      split at h <;> exact List.mem_cons_of_mem _ (ih h)

theorem mem_posted {number : Nat} {trace : List (PartitionId × Dispatch M)} {i j : PartitionId}
    {a : Scheduled M.Payload} (h : a ∈ posted number (System.seenOf i trace) j) :
    ∃ entry ∈ trace, entry.1 = i ∧ ∃ s ∈ entry.2.sends,
      s.leaves = true ∧ s.target.partition = j ∧ s.activity = a := by
  obtain ⟨s, hs, hsent⟩ := Sent.mem_bound.mp h
  obtain ⟨d, hd, hs⟩ := List.mem_flatMap.mp hs
  exact ⟨(i, d), System.mem_seenOf.mp (mem_of_mem_leg hd), rfl, s, hs, hsent⟩

/-- The first legs are the beginning of what was done. -/
theorem prefix_sends_legs (number : Nat) (seen : List (Dispatch M)) :
    ((List.range number).flatMap fun k => (leg k seen).flatMap Dispatch.sends) <+:
      seen.flatMap Dispatch.sends := by
  induction seen generalizing number with
  | nil =>
    have hnil : ∀ k, leg k ([] : List (Dispatch M)) = [] := fun k => by cases k <;> rfl
    simp [hnil]
  | cons d seen ih =>
    cases number with
    | zero => exact List.nil_prefix
    | succ number =>
      rw [List.range_succ_eq_map, List.flatMap_cons, List.flatMap_map]
      cases hsync : d.activity.isSync with
      | true =>
        simp only [leg, hsync, ↓reduceIte, List.flatMap_nil, List.nil_append, List.flatMap_cons,
          Dispatch.sends_of_isSync hsync]
        exact ih number
      | false =>
        have hmore := ih (number + 1)
        rw [List.range_succ_eq_map, List.flatMap_cons, List.flatMap_map] at hmore
        simp only [leg, hsync, Bool.false_eq_true, ↓reduceIte, List.flatMap_cons,
          List.append_assoc]
        exact List.prefix_append_right_inj _ |>.mpr hmore

theorem Sent.bound_flatMap {α π : Type} (items : List α) (f : α → List (Sent π))
    (j : PartitionId) : bound (items.flatMap f) j = items.flatMap fun a => bound (f a) j := by
  unfold bound
  rw [List.filter_flatMap, List.map_flatMap]

/-! ## Conveying -/

/-- What has come to the agenda of `j` from the sends of `i` after a number of meetings. -/
def conveyed (number : Nat) (trace : List (PartitionId × Dispatch M)) (i j : PartitionId) :
    List (Scheduled M.Payload) :=
  if i = j then Sent.kept ((System.seenOf j trace).flatMap Dispatch.sends)
  else (List.range number).flatMap fun k => posted k (System.seenOf i trace) j

/-- All that is sent to `j` of one kind is sent by `i`. -/
structure Sole (trace : List (PartitionId × Dispatch M)) (i j : PartitionId)
    (kind : Scheduled M.Payload → Bool) : Prop where
  leaves : ∀ entry ∈ trace, ∀ s ∈ entry.2.sends,
    s.leaves = true ↔ s.target.partition ≠ entry.1
  source : ∀ entry ∈ trace, ∀ s ∈ entry.2.sends, s.target.partition = j →
    kind s.activity = true → entry.1 = i

/-- Of one kind, `j` has dispatched or has on its agenda what it had at the start and then what `i`
has sent it, in this order. -/
def Cohort.Conveys (queued : List (Scheduled M.Payload)) (i j : PartitionId)
    (kind : Scheduled M.Payload → Bool) (cohort : Cohort M)
    (trace : List (PartitionId × Dispatch M)) (number : Nat) : Prop :=
  ∀ s, cohort[j]? = some s →
    ((System.seenOf j trace).map fun d => d.activity.unnumbered).filter kind ++
        s.partition.timeline.agenda.filter kind =
      queued.filter kind ++ (conveyed number trace i j).filter kind

section

variable {trace : List (PartitionId × Dispatch M)} {number : Nat} {i j k : PartitionId}
  {kind : Scheduled M.Payload → Bool}

/-- While `k` is in a leg, its dispatches add to what it has sent to itself. -/
theorem conveyed_append_noteAt (h : (meetings (System.seenOf k trace)).length = number)
    (d : Option (Dispatch M)) (i j : PartitionId) :
    conveyed number (trace ++ noteAt k d) i j =
      conveyed number trace i j ++
        if i = j ∧ k = j then Sent.kept (d.toList.flatMap Dispatch.sends) else [] := by
  unfold conveyed
  by_cases hij : i = j
  · rw [if_pos hij, if_pos hij, System.seenOf_append, List.flatMap_append, Sent.kept_append]
    by_cases hkj : k = j
    · subst hkj
      rw [if_pos ⟨hij, rfl⟩, seenOf_noteAt_self]
    · rw [if_neg fun hboth => hkj hboth.2, seenOf_noteAt_of_ne hkj]
      rfl
  · rw [if_neg hij, if_neg hij, if_neg fun hboth => hij hboth.1, List.append_nil]
    rw [List.flatMap_def, List.flatMap_def]
    refine congrArg List.flatten (List.map_congr_left fun m hm => ?_)
    exact posted_append_noteAt (h ▸ List.mem_range.mp hm) d i j

theorem conveyed_succ (number : Nat) (trace : List (PartitionId × Dispatch M))
    (i j : PartitionId) :
    conveyed (number + 1) trace i j =
      conveyed number trace i j ++
        if i = j then [] else posted number (System.seenOf i trace) j := by
  unfold conveyed
  by_cases hij : i = j
  · rw [if_pos hij, if_pos hij, if_pos hij, List.append_nil]
  · rw [if_neg hij, if_neg hij, if_neg hij, List.range_succ, List.flatMap_append,
      List.flatMap_singleton]

/-- Of this kind a partition keeps something only if it is the one that sends and the one that is
sent to. -/
theorem Sole.filter_kept (h : Sole trace i j kind) {d : Dispatch M} (hentry : (j, d) ∈ trace) :
    (Sent.kept d.sends).filter kind = (if i = j then Sent.kept d.sends else []).filter kind := by
  by_cases hij : i = j
  · rw [if_pos hij]
  · rw [if_neg hij, List.filter_nil, List.filter_eq_nil_iff]
    intro a ha hkind
    obtain ⟨s, hs, hstays, rfl⟩ := Sent.mem_kept.mp ha
    have htarget := Sent.target_of_stays (h.leaves _ hentry s hs) hstays
    exact hij (h.source _ hentry s hs htarget hkind).symm

/-- Of this kind a meeting brings what the one partition has sent. -/
theorem Sole.filter_arrivals (h : Sole trace i j kind) {n : Nat} (hi : i < n) :
    (arrivals n number trace j).filter kind =
      (if i = j then [] else posted number (System.seenOf i trace) j).filter kind := by
  have hnone : ∀ k, (i = j ∨ k ≠ i) →
      (posted number (System.seenOf k trace) j).filter kind = [] := by
    intro k hk
    rw [List.filter_eq_nil_iff]
    intro a ha hkind
    obtain ⟨entry, hentry, rfl, s, hs, hleaves, htarget, rfl⟩ := mem_posted ha
    have hsource := h.source entry hentry s hs htarget hkind
    rcases hk with hij | hk
    · exact (h.leaves entry hentry s hs).mp hleaves (htarget.trans (hij.symm.trans hsource.symm))
    · exact hk hsource
  unfold arrivals
  rw [List.filter_flatMap]
  by_cases hij : i = j
  · rw [if_pos hij, List.filter_nil, List.flatMap_eq_nil_iff]
    exact fun k _ => hnone k (Or.inl hij)
  · rw [if_neg hij]
    refine flatMap_eq_of_getElem? (List.getElem?_range hi) fun k m hk hm => ?_
    obtain ⟨_, rfl⟩ := List.getElem?_eq_some_iff.mp hm
    rw [List.getElem_range]
    exact hnone k (Or.inr hk)

end

namespace Cohort.Conveys

variable {cohort : Cohort M} {parties : List (Party M)} {trace : List (PartitionId × Dispatch M)}
  {queued : List (Scheduled M.Payload)} {number : Nat} {i j k : PartitionId} {work : Work}
  {p : Partition M} {kind : Scheduled M.Payload → Bool} {x : Scheduled M.Payload}

theorem workOn (h : cohort.Conveys queued i j kind trace number)
    (hties : ∀ a, kind a = true → x.ties a = true)
    (hdelivery : ∀ a, kind a = true → a.isDelivery = true) (hlegs : cohort.InLegs trace number)
    (hk : cohort[k]? = some (.running work p)) (horder : work = .timed → p.timeline.InOrder)
    (hsole : Sole (trace ++ noteAt k (work.dispatch? p)) i j kind) :
    Conveys queued i j kind (cohort.set k (Thread.workOn work p).stance)
      (trace ++ noteAt k (work.dispatch? p)) number := by
  have hcount : (meetings (System.seenOf k trace)).length = number := hlegs.counted k _ hk
  have hsteps := Thread.steps_workOn work p
  generalize (Thread.workOn work p).stance = s at hsteps
  generalize work.dispatch? p = dispatch at hsteps hsole
  intro r hr
  rw [conveyed_append_noteAt hcount, System.seenOf_append, List.filter_append]
  by_cases hkj : k = j
  · subst hkj
    rw [getElem?_set_of_some hk] at hr
    cases hr
    have hbefore := h _ hk
    rw [Stance.partition_running] at hbefore
    rw [seenOf_noteAt_self]
    simp only [eq_self, and_true]
    cases hsteps with
    | quiet hagenda htimed hawaits hpreparing =>
      have hnone : (if i = k then
          Sent.kept ((none : Option (Dispatch M)).toList.flatMap Dispatch.sends) else []) = [] :=
        ite_self _
      rw [hagenda, hnone, List.filter_nil, List.append_nil, Option.toList_none, List.append_nil]
      exact hbefore
    | @dispatch _ d ticks hwork hnext hticks hagenda houtboxes hawaits hready hpreparing =>
      have hin : d.partition.timeline.InOrder := Partition.inOrder_of_next? hnext (horder hwork)
      have hnoticks : ticks.filter kind = [] := by
        rw [List.filter_eq_nil_iff]
        intro a ha hkind
        exact absurd (hdelivery a hkind) (by simp [hticks a ha])
      have hkept := hsole.filter_kept (show (k, d) ∈ trace ++ noteAt k (some d) by simp [noteAt])
      rw [Partition.filter_agenda_of_next? hnext] at hbefore
      rw [hagenda, Activity.filter_placeAll_of_ties hties _ hin, List.filter_append, hnoticks,
        List.append_nil, hkept, Option.toList_some, List.map_append, List.filter_append,
        List.flatMap_singleton, ← List.append_assoc, ← List.append_assoc, ← hbefore]
      simp only [List.append_assoc, List.map_cons, List.map_nil]
  · rw [List.getElem?_set_ne hkj] at hr
    rw [seenOf_noteAt_of_ne hkj, List.append_nil, if_neg fun hboth => hkj hboth.2,
      List.filter_nil, List.append_nil]
    exact h r hr

theorem meet (h : Conveys queued i j kind (parties.map Stance.ready) trace number)
    (hties : ∀ a, kind a = true → x.ties a = true)
    (hdelivery : ∀ a, kind a = true → a.isDelivery = true)
    (hlegs : InLegs (parties.map Stance.ready) trace number)
    (hready : ∀ q ∈ parties, (∃ p, q = ⟨.timed, p, .epoch⟩ ∧ p.timeline.InOrder) ∧
      q.partition.Buffers True q.partition.timeline.now)
    (hsole : Sole trace i j kind) (hi : i < parties.length) :
    Conveys queued i j kind (exchanged parties) trace (number + 1) := by
  intro s hs
  obtain ⟨q, hq, rfl⟩ := getElem?_exchanged hs
  obtain ⟨⟨p, rfl, horder⟩, _⟩ := hready q (List.mem_of_getElem? hq)
  have hincoming := InTurn.incoming_eq_arrivals hlegs (fun q hq => by
    obtain ⟨⟨p, hp, _⟩, hbuffers⟩ := hready q hq
    exact ⟨⟨p, hp⟩, hbuffers⟩) j
  have hnomeeting : ∀ time, kind (.ofMeeting time) = false := by
    intro time
    rw [← Bool.not_eq_true]
    intro hkind
    cases hdelivery _ hkind
  rw [(Party.conclude_meeting p (Party.incoming parties j) (Party.least parties)).2.2.2 kind
      hnomeeting, Timeline.agenda_addAll, Activity.filter_placeAll_of_ties hties _ horder,
    hincoming, hsole.filter_arrivals hi, conveyed_succ, List.filter_append, ← List.append_assoc,
    ← List.append_assoc, ← h _ (getElem?_ready hq)]
  rfl

/-- Everyone has a round of an untimed stage. -/
theorem talk (h : Conveys queued i j kind (parties.map Stance.ready) trace number)
    (hready : ∀ q ∈ parties, ∃ work p own, q = ⟨work, p, .untimed own⟩ ∧ work ≠ .timed) :
    Conveys queued i j kind (exchanged parties) trace number := by
  intro s hs
  obtain ⟨q, hq, rfl⟩ := getElem?_exchanged hs
  obtain ⟨work, p, own, rfl, hwork⟩ := hready q (List.mem_of_getElem? hq)
  rw [(Party.conclude_stage hwork p own _ _).2.1]
  exact h _ (getElem?_ready hq)

end Cohort.Conveys

/-! ## Before the run -/

def plannedFor (log : List (Planned M.Payload)) (j : PartitionId) : List (Scheduled M.Payload) :=
  (log.filter fun e => e.target.partition == j).map Planned.activity

theorem plannedFor_concat (log : List (Planned M.Payload)) (e : Planned M.Payload)
    (j : PartitionId) :
    plannedFor (M := M) (log ++ [e]) j =
      plannedFor (M := M) log j ++ if e.target.partition = j then [e.activity] else [] := by
  unfold plannedFor
  by_cases hj : e.target.partition = j <;> simp [List.filter_append, hj]

namespace Builder

def Queues (kind : Scheduled M.Payload → Bool) (b : Builder M) (log : List (Planned M.Payload)) :
    Prop :=
  ∀ (j : Nat) (setup : PartitionSetup M), b.setups[j]? = some setup →
    setup.timeline.agenda.filter kind = (plannedFor (M := M) log j).filter kind

variable {b : Builder M} {log : List (Planned M.Payload)} {kind : Scheduled M.Payload → Bool}
  {x : Scheduled M.Payload}

theorem Queues.withSetup (h : b.Queues kind log) {i : Nat} {setup : PartitionSetup M}
    (hsetup : setup.timeline.agenda.filter kind = (plannedFor (M := M) log i).filter kind) :
    (b.withSetup i setup).Queues kind log :=
  forall_set (fun j r _ hr => h j r hr) hsetup

theorem Made.queues (h : b.Made log) (hties : ∀ a, kind a = true → x.ties a = true)
    (hdelivery : ∀ a, kind a = true → a.isDelivery = true) : b.Queues kind log := by
  induction h with
  | ofConfig hok =>
    obtain ⟨_, _, _, rfl⟩ := ofConfig_eq_ok hok
    intro j setup hj
    obtain ⟨_, rfl⟩ := List.getElem?_eq_some_iff.mp hj
    rw [List.getElem_replicate]
    rfl
  | addEnd _ hok ih =>
    obtain ⟨setup, _, _, _, hsetup, _, rfl⟩ := addEnd_eq_ok hok
    exact ih.withSetup (ih _ setup hsetup)
  | @scheduleEvent b b' log linkEnd time payload priority hb hok ih =>
    obtain ⟨setup, hsetup, rfl⟩ := scheduleEvent_eq_ok hok
    refine forall_set (fun j r hne hr => ?_) ?_
    · rw [plannedFor_concat, if_neg (Ne.symm hne), List.append_nil]
      exact ih j r hr
    · rw [plannedFor_concat, if_pos rfl, List.filter_append, ← ih _ setup hsetup]
      let e : Planned M.Payload := ⟨linkEnd, time, priority, payload⟩
      have hadded : (setup.timeline.add e.activity).agenda =
          Ordered.placeAll Activity.before [e.activity] setup.timeline.agenda :=
        Timeline.agenda_add ..
      exact (congrArg (List.filter kind) hadded).trans
        (Activity.filter_placeAll_of_ties hties _ (hb.sound.setups _ setup hsetup).order)
  | @registerClock b b' log partition period handler handle hb hok ih =>
    obtain ⟨setup, hsetup, rfl⟩ := registerClock_eq_ok hok
    obtain ⟨clocks, starts, hstarts, heq⟩ := ClockSet.registerIn_eq (π := M.Payload)
      setup.clocks.config setup.clocks.nextHandler period handler setup.timeline.now
      setup.timeline.priority 0 setup.clocks.clocks
    have htimeline : (setup.clocks.register period handler setup.timeline).2.2 =
        setup.timeline.addAll starts := by
      simp [ClockSet.register, ClockSet.attach, heq setup.timeline rfl rfl]
    refine ih.withSetup ?_
    rw [← ih _ setup hsetup, htimeline]
    refine Timeline.filter_agenda_addAll _ fun a ha => ?_
    obtain ⟨id, hid⟩ := (hstarts a ha).clock
    rw [← Bool.not_eq_true]
    intro hkind
    simpa [Activity.isDelivery, hid, Action.event?] using hdelivery _ hkind
  | unregisterClock _ hok ih =>
    obtain ⟨setup, _, hsetup, _, rfl⟩ := unregisterClock_eq_ok hok
    exact ih.withSetup (ih _ setup hsetup)
  | addParticipant _ hok ih =>
    obtain ⟨setup, hsetup, rfl⟩ := addParticipant_eq_ok hok
    exact ih.withSetup (ih _ setup hsetup)

end Builder

/-! ## Runs -/

def deliveredOn (trace : List (PartitionId × Dispatch M)) (f : LinkEnd) :
    List (Scheduled M.Payload) :=
  (deliveries trace f.partition).filter (Activity.isFor f.link)

def sentOn (trace : List (PartitionId × Dispatch M)) (e : LinkEnd) : List (Sent M.Payload) :=
  ((System.seenOf e.partition trace).flatMap Dispatch.sends).filter fun s => s.source == e

/-- The events scheduled for a link end, in the order of scheduling. -/
def plannedOn (log : List (Planned M.Payload)) (f : LinkEnd) : List (Planned M.Payload) :=
  log.filter fun e => e.target == f

/-- What the link end `f` is asked to deliver if sends on `e` lead to it: the events scheduled for
it, and then what is sent. -/
def askedOn (log : List (Planned M.Payload)) (trace : List (PartitionId × Dispatch M))
    (e f : LinkEnd) : List (Scheduled M.Payload) :=
  (plannedOn (M := M) log f).map Planned.activity ++ (sentOn trace e).map Sent.activity

namespace Simulation

variable {b : Builder M} {log : List (Planned M.Payload)} {simulation : Simulation M}
  {labels : List (Option PartitionId)} {trace : List (PartitionId × Dispatch M)}
  {cohort : Cohort M} {e f : LinkEnd} {x : Scheduled M.Payload}

/-- A send leaves exactly if its link end leads to another partition. -/
theorem leaves_iff (hb : b.Made log) (hbuild : b.build = .ok simulation)
    (hrun : (Cohort.system M).Run simulation.cohort labels trace cohort)
    {entry : PartitionId × Dispatch M} (hentry : entry ∈ trace) {s : Sent M.Payload}
    (hs : s ∈ entry.2.sends) : s.leaves = true ↔ s.target.partition ≠ entry.1 := by
  have hproper := (proper_sends hb hbuild hrun hentry hs).1
  have hbetween := (hb.sound.wiring.paired _ _ _ hproper.route hproper.leads).1
  unfold Sent.leaves
  rw [hbetween, ← hproper.source]
  unfold Delivery.between
  by_cases hsame : s.source.partition = s.target.partition
  · simp [hsame]
  · simp [hsame, Ne.symm hsame]

/-- The sends for one link end are made on its peer, and nobody else sends anything for it. -/
theorem sole_run (hb : b.Made log) (hbuild : b.build = .ok simulation)
    (hrun : (Cohort.system M).Run simulation.cohort labels trace cohort)
    (hwired : Wired b.tables e f) :
    (∀ entry ∈ trace, ∀ s ∈ entry.2.sends, (s.source = e ↔ s.target = f)) ∧
      Sole trace e.partition f.partition fun a => x.ties a && a.isFor f.link := by
  have hpeer : ∀ entry ∈ trace, ∀ s ∈ entry.2.sends, (s.source = e ↔ s.target = f) := by
    intro entry hentry s hs
    have hproper := (proper_sends hb hbuild hrun hentry hs).1
    have hsent : Wired b.tables s.source s.target := ⟨s.route, hproper.route, hproper.leads⟩
    constructor
    · rintro rfl
      obtain ⟨route, hroute, hleads⟩ := hwired
      obtain ⟨route', hroute', hleads'⟩ := hsent
      rw [hroute] at hroute'
      cases hroute'
      exact Option.some.inj (hleads'.symm.trans hleads)
    · intro htarget
      rw [htarget] at hsent
      exact hb.sound.wiring.wired_unique hwired hsent
  refine ⟨hpeer, fun entry hentry s hs => leaves_iff hb hbuild hrun hentry hs, ?_⟩
  intro entry hentry s hs htarget hkind
  have hproper := (proper_sends hb hbuild hrun hentry hs).1
  have hf := Activity.target_eq_of_isFor rfl htarget (Bool.and_eq_true_iff.mp hkind).2
  rw [← hproper.source, (hpeer entry hentry s hs).mpr hf]

/-- Throughout a run a link end conveys what is sent on its peer. -/
theorem conveys_run (hb : b.Made log) (hbuild : b.build = .ok simulation)
    (hrun : (Cohort.system M).Run simulation.cohort labels trace cohort)
    (hexact : ∀ entry ∈ trace, entry.2.Exact) (hwired : Wired b.tables e f)
    (x : Scheduled M.Payload) :
    ∃ number, cohort.InLegs trace number ∧
      cohort.Conveys (plannedFor (M := M) log f.partition) e.partition f.partition
        (fun a => x.ties a && a.isFor f.link) trace number := by
  have hties : ∀ a : Scheduled M.Payload, (x.ties a && a.isFor f.link) = true →
      x.ties a = true := fun a h => (Bool.and_eq_true_iff.mp h).1
  have hdelivery : ∀ a : Scheduled M.Payload, (x.ties a && a.isFor f.link) = true →
      a.isDelivery = true := fun a h => Activity.isDelivery_of_isFor (Bool.and_eq_true_iff.mp h).2
  refine legs_run True hb hbuild ?_ ?_ ?_ ?_ hrun fun _ => hexact
  · intro s hs
    obtain ⟨p, hp, rfl⟩ := exists_stance_start hs
    have hnone : conveyed 0 ([] : List (PartitionId × Dispatch M)) e.partition f.partition = [] :=
      by unfold conveyed; split <;> rfl
    obtain ⟨_, window, _, rfl⟩ := Builder.build_eq_ok hbuild
    obtain ⟨setup, hsetup, rfl⟩ := Option.map_eq_some_iff.mp (List.getElem?_mapIdx ▸ hp)
    rw [hnone, ← hb.queues hties hdelivery f.partition setup hsetup, List.filter_nil,
      List.append_nil]
    show ((b.partition window f.partition setup).start).timeline.agenda.filter _ = _
    rw [Partition.start_eq]
    refine Timeline.filter_agenda_addAll _ fun a ha => ?_
    rw [← Bool.not_eq_true]
    exact fun hkind => absurd (hdelivery _ hkind)
      (by simp [Partition.isDelivery_of_mem_appointments ha])
  · intro cohort labels trace number i work p hconveys hlegs hi horder hnext
    exact hconveys.workOn hties hdelivery hlegs hi horder (sole_run hb hbuild hnext hwired).2
  · intro parties labels trace number hconveys hlegs hready hnext
    refine hconveys.meet hties hdelivery hlegs hready (sole_run hb hbuild hnext hwired).2 ?_
    have hlength := (agrees_run hb hbuild hnext).1.length
    have hlt := hwired.lt
    rw [Cohort.length_exchanged, List.length_map] at hlength
    rw [hb.sound.size, ← size_eq hbuild] at hlt
    rw [hlength]
    exact hlt
  · exact fun hconveys hstage => hconveys.talk hstage

/-- What has been conveyed to a link end is the beginning of what was sent on its peer. -/
theorem prefix_conveyed (hb : b.Made log) (hbuild : b.build = .ok simulation)
    (hrun : (Cohort.system M).Run simulation.cohort labels trace cohort)
    (hwired : Wired b.tables e f) (number : Nat) (x : Scheduled M.Payload) :
    (conveyed number trace e.partition f.partition).filter
        (fun a => x.ties a && a.isFor f.link) <+:
      ((sentOn trace e).map Sent.activity).filter fun a => x.ties a && a.isFor f.link := by
  obtain ⟨hpeer, hsole⟩ := sole_run (x := x) hb hbuild hrun hwired
  have hsent : ∀ s ∈ (System.seenOf e.partition trace).flatMap Dispatch.sends,
      (x.ties s.activity && s.activity.isFor f.link) = true →
        (s.source = e ↔ s.target.partition = f.partition) ∧
          (s.leaves = true ↔ s.target.partition ≠ e.partition) := by
    intro s hs hkind
    obtain ⟨d, hd, hs⟩ := List.mem_flatMap.mp hs
    have hentry := System.mem_seenOf.mp hd
    refine ⟨(hpeer _ hentry s hs).trans ⟨fun h => congrArg _ h, fun h => ?_⟩,
      hsole.leaves _ hentry s hs⟩
    exact Activity.target_eq_of_isFor rfl h (Bool.and_eq_true_iff.mp hkind).2
  unfold conveyed
  by_cases hsame : e.partition = f.partition
  · rw [if_pos hsame, ← hsame]
    refine (filter_map_filter_congr fun s hs hkind => ?_) ▸ List.prefix_rfl
    obtain ⟨hsource, hleaves⟩ := hsent s hs hkind
    rw [← hsame] at hsource
    rw [Bool.eq_iff_iff, beq_iff_eq, hsource, Bool.not_eq_true', ← Bool.not_eq_true, hleaves,
      Decidable.not_not]
  · rw [if_neg hsame]
    have hlegs := ((prefix_sends_legs number (System.seenOf e.partition trace)).filter
      fun s => s.leaves && s.target.partition == f.partition).map Sent.activity
    have hposted : ((List.range number).flatMap fun k =>
        posted k (System.seenOf e.partition trace) f.partition) =
      Sent.bound ((List.range number).flatMap fun k =>
        (leg k (System.seenOf e.partition trace)).flatMap Dispatch.sends) f.partition :=
      (Sent.bound_flatMap ..).symm
    rw [hposted]
    refine (hlegs.filter _).trans ((filter_map_filter_congr fun s hs hkind => ?_) ▸ List.prefix_rfl)
    obtain ⟨hsource, hleaves⟩ := hsent s hs hkind
    rw [Bool.eq_iff_iff, beq_iff_eq, hsource, Bool.and_eq_true, beq_iff_eq, hleaves]
    exact ⟨fun htarget => ⟨fun hback => hsame (hback.symm.trans htarget), htarget⟩, And.right⟩

theorem deliveries_eq (trace : List (PartitionId × Dispatch M)) (j : PartitionId) :
    deliveries trace j =
      ((System.seenOf j trace).map fun d => d.activity.unnumbered).filter Activity.isDelivery := by
  unfold deliveries
  induction System.seenOf j trace with
  | nil => rfl
  | cons d seen ih =>
    rw [List.flatMap_cons, ih, List.map_cons]
    have hkind : Activity.isDelivery d.activity.unnumbered = d.activity.isDelivery := rfl
    unfold Dispatch.delivered
    rw [List.filter_cons, hkind]
    split <;> rfl

/-- What is delivered on a link end at one time and priority is the beginning of what it was asked
to deliver then, in the order of asking. -/
theorem prefix_deliveredOn (hb : b.Made log) (hbuild : b.build = .ok simulation)
    (hrun : (Cohort.system M).Run simulation.cohort labels trace cohort)
    (hexact : ∀ entry ∈ trace, entry.2.Exact) (hwired : Wired b.tables e f)
    (x : Scheduled M.Payload) :
    (deliveredOn trace f).filter x.ties <+: (askedOn log trace e f).filter x.ties := by
  obtain ⟨number, _, hconveys⟩ := conveys_run hb hbuild hrun hexact hwired x
  obtain ⟨hpeer, _⟩ := sole_run (x := x) hb hbuild hrun hwired
  have hasked : (askedOn log trace e f).filter x.ties =
      (askedOn log trace e f).filter fun a => x.ties a && a.isFor f.link := by
    refine List.filter_congr fun a ha => ?_
    have hfor : a.isFor f.link = true := by
      rcases List.mem_append.mp ha with ha | ha
      · obtain ⟨e', he', rfl⟩ := List.mem_map.mp ha
        exact Activity.isFor_of_target_eq rfl (beq_iff_eq.mp (List.mem_filter.mp he').2)
      · obtain ⟨s, hs, rfl⟩ := List.mem_map.mp ha
        obtain ⟨hs, hsource⟩ := List.mem_filter.mp hs
        obtain ⟨d, hd, hs⟩ := List.mem_flatMap.mp hs
        exact Activity.isFor_of_target_eq rfl
          ((hpeer _ (System.mem_seenOf.mp hd) s hs).mp (beq_iff_eq.mp hsource))
    rw [hfor, Bool.and_true]
  have hplanned : (plannedFor (M := M) log f.partition).filter
        (fun a => x.ties a && a.isFor f.link) =
      ((plannedOn (M := M) log f).map Planned.activity).filter
        fun a => x.ties a && a.isFor f.link := by
    refine filter_map_filter_congr fun e' _ hkind => ?_
    rw [Bool.eq_iff_iff, beq_iff_eq, beq_iff_eq]
    exact ⟨fun h => Activity.target_eq_of_isFor rfl h (Bool.and_eq_true_iff.mp hkind).2,
      fun h => congrArg _ h⟩
  have hdelivered : (deliveredOn trace f).filter x.ties =
      ((System.seenOf f.partition trace).map fun d => d.activity.unnumbered).filter
        fun a => x.ties a && a.isFor f.link := by
    unfold deliveredOn
    rw [deliveries_eq, List.filter_filter, List.filter_filter]
    refine List.filter_congr fun a _ => ?_
    cases hfor : a.isFor f.link with
    | false => simp
    | true => simp [Activity.isDelivery_of_isFor hfor]
  have hlt : f.partition < cohort.length := by
    have hlt := (hb.sound.wiring.wired_symm hwired).lt
    rw [hb.sound.size, ← size_eq hbuild] at hlt
    rw [(agrees_run hb hbuild hrun).1.length]
    exact hlt
  have hall := hconveys _ (List.getElem?_eq_getElem hlt)
  rw [hplanned] at hall
  obtain ⟨rest, hrest⟩ := prefix_conveyed hb hbuild hrun hwired number x
  unfold askedOn at hasked ⊢
  rw [hasked, hdelivered, List.filter_append, ← hrest, ← List.append_assoc, ← hall,
    List.append_assoc]
  exact List.prefix_append ..

end Simulation

end Lookahead
