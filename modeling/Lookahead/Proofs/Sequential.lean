import Lookahead.Proofs.Accounts
import Lookahead.Proofs.Lanes

/-!
The sequential executor, which has no meetings.

It lets a partition go whose next activity is due no later than that of any other, one activity at a
time, and puts what it sends to others straight onto their timelines. Handlers cannot tell such a
run from one of lanes that are served in the order of time (`Sequential.lanes_run`).
-/

namespace Lookahead

variable {M : Model}

/-! ## The executor -/

def Partition.queue (p : Partition M) (added : List (Scheduled M.Payload)) : Partition M :=
  { p with timeline := p.timeline.addAll added }

def Partition.emptied (p : Partition M) : Partition M :=
  { p with member := { p.member with outbound := p.member.outbound.map fun _ => {} } }

/-- Where a partition stands that takes turns with the others. -/
inductive Solo (M : Model) where
  | live (p : Partition M)
  | stopped (p : Partition M)
  | failed (e : RunError) (p : Partition M)

namespace Solo

def partition : Solo M → Partition M
  | .live p => p
  | .stopped p => p
  | .failed _ p => p

def isLive : Solo M → Bool
  | .live _ => true
  | _ => false

/-- When the next activity is due that is going to be dispatched. -/
def nextTime : Solo M → Time
  | .live p => p.timeline.nextTime
  | _ => Time.never

def dispatch? : Solo M → Option (Dispatch M)
  | .live p => p.next?
  | _ => none

def isDone : Solo M → Bool
  | .live p => p.timeline.isEmpty
  | .stopped _ => true
  | .failed _ _ => false

/-- Put activities on the timeline of a partition, wherever it stands. -/
def queue (s : Solo M) (added : List (Scheduled M.Payload)) : Solo M :=
  match s with
  | .live p => .live (p.queue added)
  | .stopped p => .stopped (p.queue added)
  | .failed e p => .failed e (p.queue added)

end Solo

/-- All partitions of a simulation, run by one executor. -/
abbrev Sequential (M : Model) := List (Solo M)

namespace Sequential

/-- Partition `p` at this position goes on, and what it has sent is put onto the timelines of the
others at once. -/
def handOver (solos : Sequential M) (position : PartitionId) (p : Partition M) : Sequential M :=
  (solos.set position (.live p.emptied)).mapIdx fun j s => s.queue (p.outboxFor j)

/-- The partition at this position takes a turn, if it has something to do and none of the others
has something to do before. -/
def step? (solos : Sequential M) (position : PartitionId) : Option (Sequential M) :=
  match solos[position]? with
  | some (.live p) =>
    if p.timeline.isEmpty = false ∧ ∀ s ∈ solos, p.timeline.nextTime ≤ s.nextTime then
      match p.dispatch with
      | .dispatch p => some (solos.handOver position p)
      | .sync _ => none
      | .stop _ p => some (solos.set position (.stopped p))
      | .fail e p => some (solos.set position (.failed e p))
    else none
  | _ => none

def system (M : Model) : System (Sequential M) PartitionId (PartitionId × Dispatch M) where
  step? := step?
  note solos position := noteAt position (solos[position]?.bind Solo.dispatch?)

/-- Nobody has failed, and nobody who has not stopped has anything left to do. -/
def Ended (solos : Sequential M) : Prop := ∀ s ∈ solos, s.isDone = true

instance (solos : Sequential M) : Decidable solos.Ended :=
  inferInstanceAs (Decidable (∀ s ∈ solos, s.isDone = true))

def activities (trace : List (PartitionId × Dispatch M)) (solos : Sequential M)
    (j : PartitionId) : List (Scheduled M.Payload) :=
  (System.seenOf j trace).map (fun d => d.activity.unnumbered) ++
    solos[j]?.elim [] fun s => s.partition.timeline.agenda

/-- No event that is sent to another partition has the time and the priority of another activity
there. -/
def TieFree (trace : List (PartitionId × Dispatch M)) (solos : Sequential M) : Prop :=
  ∀ entry ∈ trace, ∀ s ∈ entry.2.sends, s.leaves = true →
    (activities trace solos s.target.partition).countP s.activity.ties ≤ 1

instance (trace : List (PartitionId × Dispatch M)) (solos : Sequential M) :
    Decidable (TieFree trace solos) :=
  inferInstanceAs (Decidable (∀ entry ∈ trace, ∀ s ∈ entry.2.sends, s.leaves = true →
    (activities trace solos s.target.partition).countP s.activity.ties ≤ 1))

end Sequential

def Partition.alone (p : Partition M) : Partition M := { p with synchronized := false }.start

def Simulation.sequential (simulation : Simulation M) : Sequential M :=
  simulation.partitions.map fun p => .live p.alone

/-! ## Turns -/

namespace Sequential

variable {solos next : Sequential M} {i : PartitionId}

theorem getElem?_handOver_self {s : Solo M} (hi : solos[i]? = some s) (p : Partition M) :
    (solos.handOver i p)[i]? = some ((Solo.live p.emptied).queue (p.outboxFor i)) := by
  unfold handOver
  rw [List.getElem?_mapIdx, List.getElem?_set_self (List.getElem?_eq_some_iff.mp hi).1,
    Option.map_some]

theorem getElem?_handOver_of_ne {k : Nat} (hki : k ≠ i) (p : Partition M) :
    (solos.handOver i p)[k]? = solos[k]?.map fun s => s.queue (p.outboxFor k) := by
  unfold handOver
  rw [List.getElem?_mapIdx, List.getElem?_set_ne (Ne.symm hki)]

@[simp] theorem length_handOver (solos : Sequential M) (i : PartitionId) (p : Partition M) :
    (solos.handOver i p).length = solos.length := by
  unfold handOver
  rw [List.length_mapIdx, List.length_set]

/-- What a turn can come to. -/
theorem step?_eq_some (h : solos.step? i = some next) :
    ∃ p d, solos[i]? = some (.live p) ∧ p.next? = some d ∧
      (∀ s ∈ solos, p.timeline.nextTime ≤ s.nextTime) ∧
      ((∃ e : Effect M, d.activity.payload.isWork = true ∧ e.Of d ∧ e.fault = none ∧
          next = solos.handOver i (d.partition.after e)) ∨
        (d.activity.payload = .stop ∧ next = solos.set i (.stopped d.partition)) ∨
        ∃ err q, next = solos.set i (.failed err q)) := by
  unfold step? at h
  split at h
  case h_2 => cases h
  case h_1 p hi =>
    split at h
    case isFalse => cases h
    case isTrue hturn =>
      obtain ⟨hempty, hleast⟩ := hturn
      cases hnext : p.next? with
      | none =>
        have hnil := Timeline.isEmpty_iff.mpr (Partition.next?_eq_none_iff.mp hnext)
        rw [hempty] at hnil
        cases hnil
      | some d =>
        refine ⟨p, d, hi, hnext, hleast, ?_⟩
        rw [Thread.dispatch_eq hnext] at h
        cases hpayload : d.activity.payload with
        | sync =>
          rw [hpayload] at h
          cases h
        | stop =>
          rw [hpayload] at h
          cases h
          exact Or.inr (Or.inl ⟨rfl, rfl⟩)
        | deliver _ | clock _ =>
          have hwork : d.activity.payload.isWork = true := by
            rw [hpayload]
            rfl
          obtain ⟨e, heffect⟩ := d.exists_effect hwork
          rw [heffect.act d.partition rfl rfl rfl] at h
          unfold Partition.next at h
          cases hfault : e.fault with
          | none =>
            rw [hfault] at h
            cases h
            exact Or.inl ⟨e, by rw [← hpayload]; exact hwork, heffect, hfault, rfl⟩
          | some err =>
            rw [hfault] at h
            cases h
            exact Or.inr (Or.inr ⟨err, _, rfl⟩)

def Broken (solos : Sequential M) : Prop := ∃ (k : Nat) (e : RunError) (p : Partition M),
  solos[k]? = some (.failed e p)

theorem Ended.not_broken (h : solos.Ended) : ¬ solos.Broken := by
  rintro ⟨k, e, p, hk⟩
  cases h _ (List.mem_of_getElem? hk)

theorem Broken.step (h : solos.Broken) (hstep : solos.step? i = some next) : next.Broken := by
  obtain ⟨k, e, p, hk⟩ := h
  obtain ⟨q, d, hi, _, _, hcases⟩ := step?_eq_some hstep
  have hki : k ≠ i := by
    rintro rfl
    rw [hi] at hk
    cases hk
  rcases hcases with ⟨e', _, _, _, rfl⟩ | ⟨_, rfl⟩ | ⟨err, r, rfl⟩
  · refine ⟨k, e, p.queue ((d.partition.after e').outboxFor k), ?_⟩
    rw [getElem?_handOver_of_ne hki, hk]
    rfl
  · exact ⟨k, e, p, by rw [List.getElem?_set_ne (Ne.symm hki)]; exact hk⟩
  · exact ⟨k, e, p, by rw [List.getElem?_set_ne (Ne.symm hki)]; exact hk⟩

end Sequential

/-! ## Sequential runs as runs of lanes -/

def Solo.lane (s : Solo M) : Lane M where
  inside := s.partition.inside
  agenda := s.partition.timeline.agenda
  live := s.isLive

/-- A partition between two turns. -/
structure Solo.Tidy (s : Solo M) (window n : Nat) (k : PartitionId) : Prop where
  inside : s.partition.inside.Sound window k
  order : s.partition.timeline.InOrder
  outboxes : s.partition.member.outbound = List.replicate n {}

theorem Partition.map_unnumbered_outboxFor (p : Partition M) (j : PartitionId) :
    (p.outboxFor j).map Activity.unnumbered = p.outboxFor j := by
  unfold outboxFor
  rw [List.map_map]
  rfl

theorem Partition.inside_emptied (p : Partition M) : p.emptied.inside = p.inside := by
  simp [emptied, inside]

namespace Solo

variable {s : Solo M} {window n : Nat} {k : PartitionId} {added : List (Scheduled M.Payload)}

theorem lane_queue (h : added.map Activity.unnumbered = added) :
    (s.queue added).lane =
      { s.lane with agenda := Ordered.placeAll Activity.before added s.lane.agenda } := by
  have hagenda := Timeline.agenda_addAll s.partition.timeline added
  rw [h] at hagenda
  unfold lane
  rw [← hagenda]
  cases s <;> rfl

theorem Tidy.queue (h : s.Tidy window n k) (added : List (Scheduled M.Payload)) :
    (s.queue added).Tidy window n k := by
  obtain ⟨hinside, horder, houtboxes⟩ := h
  cases s <;> exact ⟨hinside, horder.addAll added, houtboxes⟩

theorem Tidy.outboxFor (h : s.Tidy window n k) (j : PartitionId) :
    s.partition.outboxFor j = [] := by
  unfold Partition.outboxFor
  rw [h.outboxes, List.getElem?_replicate]
  split <;> rfl

end Solo

namespace Sequential

variable {solos next : Sequential M} {i : PartitionId} {window : Nat}

def lanes (solos : Sequential M) : Lanes M := fun k => solos[k]?.map Solo.lane

/-- All partitions between two turns. -/
def Tidy (solos : Sequential M) (window : Nat) : Prop := ∀ (k : Nat) (s : Solo M),
  solos[k]? = some s → s.Tidy window solos.length k

theorem Tidy.sound (h : solos.Tidy window) : solos.lanes.Sound window := by
  intro k lane hk
  obtain ⟨s, hs, rfl⟩ := Option.map_eq_some_iff.mp hk
  exact ⟨(h k s hs).inside, (h k s hs).order⟩

def handled (trace : List (PartitionId × Dispatch M)) : List (PartitionId × Handled M) :=
  trace.map fun entry => (entry.1, entry.2.handled)

section

variable {p : Partition M} {d : Dispatch M} {e : Effect M} {o : Outcome M}

theorem Tidy.outboxFor_after (h : solos.Tidy window) (hi : solos[i]? = some (.live p))
    (hnext : p.next? = some d) (heffect : e.Of d) (j : PartitionId) :
    (d.partition.after e).outboxFor j = Sent.bound d.sends j := by
  have hempty : p.outboxFor j = [] := (h i _ hi).outboxFor j
  rw [Partition.outboxFor_after heffect, Partition.outboxFor_of_next? hnext, hempty,
    List.nil_append]

theorem Tidy.lanes_handOver (h : solos.Tidy window) (hi : solos[i]? = some (.live p))
    (hnext : p.next? = some d) (heffect : e.Of d)
    (ho : p.inside.outcome? d.activity.unnumbered = some o) (hlive : o.live = true)
    (hsends : o.sends = d.sends) (hinside : o.inside = (d.partition.after e).inside)
    (hafter : (d.partition.after e).timeline.agenda =
      Ordered.placeAll Activity.before o.added d.partition.timeline.agenda) :
    lanes (solos.handOver i (d.partition.after e)) =
      solos.lanes.dispatched i o d.partition.timeline.agenda := by
  have houtbox := fun j => h.outboxFor_after hi hnext heffect j
  funext k
  by_cases hki : k = i
  · subst hki
    have hnone : Sent.bound d.sends k = [] := by
      rw [List.eq_nil_iff_forall_not_mem, ← hsends]
      intro x hx
      exact ((h k _ hi).inside.le_bound ho k x hx).2.2 rfl
    rw [lanes, getElem?_handOver_self hi, Option.map_some,
      Solo.lane_queue (Partition.map_unnumbered_outboxFor ..), houtbox, hnone,
      Ordered.placeAll_nil, Lanes.dispatched_self, hlive, hinside, ← hafter,
      ← Partition.inside_emptied]
    rfl
  · rw [lanes, getElem?_handOver_of_ne hki, houtbox, Lanes.dispatched_of_ne hki, hsends, lanes,
      Option.map_map, Option.map_map]
    congr 1
    funext s
    exact Solo.lane_queue (by rw [← houtbox]; exact Partition.map_unnumbered_outboxFor ..)

theorem Tidy.handOver (h : solos.Tidy window) (hi : solos[i]? = some (.live p))
    (hnext : p.next? = some d) (ho : p.inside.outcome? d.activity.unnumbered = some o)
    (hinside : o.inside = (d.partition.after e).inside) :
    Tidy (solos.handOver i (d.partition.after e)) window := by
  intro k s hs
  rw [length_handOver]
  by_cases hki : k = i
  · subst hki
    rw [getElem?_handOver_self hi] at hs
    cases hs
    obtain ⟨hsound, horder, houtboxes⟩ := h k _ hi
    obtain ⟨timeline, hadvance, hpartition⟩ := Partition.next?_eq_some_iff.mp hnext
    refine Solo.Tidy.queue ⟨?_, ?_, ?_⟩ _
    · show (d.partition.after e).emptied.inside.Sound window k
      rw [Partition.inside_emptied, ← hinside]
      exact hsound.outcome ho
    · show (d.partition.after e).timeline.InOrder
      have hbefore : d.partition.timeline.InOrder := by
        rw [hpartition]
        exact Timeline.InOrder.of_advance horder hadvance
      exact hbefore.addAll _
    · show (Sent.postAll e.sends d.partition.member.outbound).map
        (fun _ => ({} : Outbox M.Payload)) = _
      rw [List.map_const', Sent.length_postAll, hpartition]
      show List.replicate p.member.outbound.length _ = _
      rw [show p.member.outbound = _ from houtboxes, List.length_replicate]
  · rw [getElem?_handOver_of_ne hki] at hs
    obtain ⟨r, hr, rfl⟩ := Option.map_eq_some_iff.mp hs
    exact (h k r hr).queue _

theorem Tidy.stop (h : solos.Tidy window) (hi : solos[i]? = some (.live p))
    (hnext : p.next? = some d) :
    Tidy (solos.set i (.stopped d.partition)) window ∧
      lanes (solos.set i (.stopped d.partition)) =
        solos.lanes.dispatched i ⟨p.inside, [], [], false⟩ d.partition.timeline.agenda := by
  have hlt := (List.getElem?_eq_some_iff.mp hi).1
  obtain ⟨hsound, horder, houtboxes⟩ := h i _ hi
  obtain ⟨timeline, hadvance, hpartition⟩ := Partition.next?_eq_some_iff.mp hnext
  refine ⟨?_, ?_⟩
  · intro k s hs
    rw [List.length_set]
    by_cases hki : k = i
    · subst hki
      rw [List.getElem?_set_self hlt] at hs
      cases hs
      refine ⟨?_, ?_, ?_⟩
      · show d.partition.inside.Sound window k
        rw [Partition.inside_of_next? hnext]
        exact hsound
      · show d.partition.timeline.InOrder
        rw [hpartition]
        exact Timeline.InOrder.of_advance horder hadvance
      · show d.partition.member.outbound = _
        rw [hpartition]
        exact houtboxes
    · rw [List.getElem?_set_ne (Ne.symm hki)] at hs
      exact h k s hs
  · funext k
    by_cases hki : k = i
    · subst hki
      rw [lanes, List.getElem?_set_self hlt, Option.map_some, Lanes.dispatched_self,
        ← Partition.inside_of_next? hnext]
      rfl
    · rw [lanes, List.getElem?_set_ne (Ne.symm hki), Lanes.dispatched_of_ne hki, lanes,
        Option.map_map]
      rfl

end

/-- A turn is a step of the lanes, unless it fails. -/
theorem Tidy.step (h : solos.Tidy window) (hstep : solos.step? i = some next) :
    next.Broken ∨ (next.Tidy window ∧ solos.lanes.step? i = some next.lanes ∧
      solos.lanes.note i = handled ((system M).note solos i)) := by
  obtain ⟨p, d, hi, hnext, _, hcases⟩ := step?_eq_some hstep
  obtain ⟨hagenda, _, _⟩ := Partition.agenda_of_next? hnext
  have hlane : solos.lanes i = some ⟨p.inside,
      d.activity.unnumbered :: d.partition.timeline.agenda, true⟩ := by
    unfold lanes
    rw [hi, ← hagenda]
    rfl
  have hnote : (system M).note solos i = [(i, d)] := by
    show noteAt i (solos[i]?.bind Solo.dispatch?) = _
    rw [hi]
    show noteAt i p.next? = _
    rw [hnext]
    rfl
  rcases hcases with ⟨e, hwork, heffect, hfault, rfl⟩ | ⟨hstop, rfl⟩ | ⟨err, q, rfl⟩
  case inr.inr =>
    exact Or.inl ⟨i, err, q, List.getElem?_set_self (List.getElem?_eq_some_iff.mp hi).1⟩
  case inl =>
    obtain ⟨o, ho, hlive, hsends, hinside, _, hafter⟩ :=
      Partition.outcome_of_work hnext hwork heffect hfault
    refine Or.inr ⟨h.handOver hi hnext ho hinside, ?_, ?_⟩
    · rw [Lanes.step?_of hlane ho,
        h.lanes_handOver hi hnext heffect ho hlive hsends hinside hafter]
    · rw [Lanes.note_of hlane ho, hnote, handled, List.map_singleton,
        Partition.handled_eq hnext ho]
  case inr.inl =>
    have ho : p.inside.outcome? d.activity.unnumbered = some ⟨p.inside, [], [], false⟩ :=
      Inside.outcome?_stop hstop
    obtain ⟨htidy, hlanes⟩ := h.stop hi hnext
    refine Or.inr ⟨htidy, ?_, ?_⟩
    · rw [Lanes.step?_of hlane ho, hlanes]
    · rw [Lanes.note_of hlane ho, hnote, handled, List.map_singleton,
        Partition.handled_eq hnext ho]

/-! ## Runs -/

variable {final : Sequential M} {schedule : List PartitionId}
  {trace : List (PartitionId × Dispatch M)}

theorem handled_append (front back : List (PartitionId × Dispatch M)) :
    handled (front ++ back) = handled front ++ handled back := List.map_append

theorem seenOf_handled (k : PartitionId) (trace : List (PartitionId × Dispatch M)) :
    System.seenOf k (handled trace) = (System.seenOf k trace).map Dispatch.handled := by
  unfold System.seenOf handled
  rw [List.filterMap_map, List.map_filterMap]
  congr 1
  funext entry
  simp only [Function.comp_apply]
  split <;> rfl

/-- Where nobody has failed in the end, nobody ever has. -/
theorem not_broken_of_run (hrun : (system M).Run solos schedule trace final)
    (hended : final.Ended) : ¬ solos.Broken := by
  intro hbroken
  refine hended.not_broken ?_
  exact hrun.invariant (P := Broken) hbroken fun _ _ _ hx hstep => hx.step hstep

theorem lanes_run (h : solos.Tidy window) (hrun : (system M).Run solos schedule trace final)
    (hended : final.Ended) :
    (Lanes.system M).Run solos.lanes schedule (handled trace) final.lanes := by
  induction schedule generalizing solos trace with
  | nil =>
    obtain ⟨rfl, rfl⟩ := hrun.eq_of_nil
    exact .refl
  | cons i schedule ih =>
    obtain ⟨next, rest, hstep, hrest, rfl⟩ := hrun.of_cons
    rcases h.step hstep with hbroken | ⟨htidy, hlanes, hnote⟩
    · exact absurd hbroken (not_broken_of_run hrest hended)
    · rw [handled_append, ← hnote]
      exact System.Run.cons hlanes (ih htidy hrest)

theorem inTime (h : solos.Tidy window) (hrun : (system M).Run solos schedule trace final)
    (hexact : ∀ entry ∈ handled trace, entry.2.Exact) (hended : final.Ended) :
    Lanes.InTime (handled trace) := by
  induction schedule generalizing solos trace with
  | nil =>
    obtain ⟨rfl, rfl⟩ := hrun.eq_of_nil
    exact List.Pairwise.nil
  | cons i schedule ih =>
    obtain ⟨next, rest, hstep, hrest, rfl⟩ := hrun.of_cons
    rcases h.step hstep with hbroken | ⟨htidy, hlanes, hnote⟩
    · exact absurd hbroken (not_broken_of_run hrest hended)
    · obtain ⟨p, d, hi, hnext, hleast, _⟩ := step?_eq_some hstep
      have hfrom : solos.lanes.From d.activity.time := by
        intro k lane hk hlive a ha
        obtain ⟨s, hs, rfl⟩ := Option.map_eq_some_iff.mp hk
        have htime := Timeline.nextTime_of_agenda_cons (Partition.agenda_of_next? hnext).1
        rw [Activity.time_unnumbered] at htime
        rw [← htime]
        cases s with
        | live q =>
          exact Time.le_trans (hleast _ (List.mem_of_getElem? hs))
            (Timeline.InOrder.nextTime_le (h k _ hs).order a ha)
        | stopped q => cases hlive
        | failed e q => cases hlive
      rw [handled_append] at hexact
      have hrest' := fun entry hentry => hexact entry (List.mem_append_right _ hentry)
      have hlater := (hfrom.step h.sound hlanes fun entry hentry =>
        hexact entry (List.mem_append_left _ (hnote ▸ hentry))).1.run htidy.sound
          (lanes_run htidy hrest hended) hrest'
      have hfirst : handled ((system M).note solos i) = [(i, d.handled)] := by
        show handled (noteAt i (solos[i]?.bind Solo.dispatch?)) = _
        rw [hi]
        show handled (noteAt i p.next?) = _
        rw [hnext]
        rfl
      rw [handled_append, hfirst]
      exact List.pairwise_cons.mpr ⟨hlater, ih htidy hrest hrest'⟩

/-- What has been dispatched overflows no clock as its handlers see it. -/
theorem exact_handled (hrun : (system M).Run solos schedule trace final)
    (hexact : ∀ entry ∈ trace, entry.2.Exact) : ∀ entry ∈ handled trace, entry.2.Exact := by
  intro entry hentry
  obtain ⟨original, horiginal, rfl⟩ := List.mem_map.mp hentry
  obtain ⟨x, i, hnote⟩ := hrun.exists_note horiginal
  obtain ⟨-, hdispatch⟩ := mem_noteAt.mp hnote
  obtain ⟨s, -, hs⟩ := Option.bind_eq_some_iff.mp hdispatch
  cases s with
  | live p => exact (Partition.exact_handled hs).mpr (hexact original horiginal)
  | stopped p => cases hs
  | failed e p => cases hs

theorem activities_eq_served (k : PartitionId) :
    activities trace final k = Lanes.served (handled trace) final.lanes k := by
  unfold activities Lanes.served lanes
  rw [seenOf_handled, List.map_map]
  cases final[k]? <;> rfl

/-- Without ties, what comes from other lanes ties with nothing. -/
theorem TieFree.apart (h : TieFree trace final) : Lanes.Apart (handled trace) final.lanes := by
  intro entry hentry k x hx
  obtain ⟨original, horiginal, rfl⟩ := List.mem_map.mp hentry
  obtain ⟨s, hs, hleaves, rfl, rfl⟩ := Sent.mem_bound.mp hx
  rw [← activities_eq_served]
  exact h original horiginal s hs hleaves

theorem Ended.lanes (h : final.Ended) : final.lanes.Ended := by
  intro k lane hk hlive
  obtain ⟨s, hs, rfl⟩ := Option.map_eq_some_iff.mp hk
  have hs' := h s (List.mem_of_getElem? hs)
  cases s with
  | live p => exact Timeline.isEmpty_iff.mp hs'
  | stopped p => cases hlive
  | failed e p => cases hlive

end Sequential

end Lookahead
