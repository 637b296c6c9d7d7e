import Lookahead.Proofs.Conservation
import Lookahead.Proofs.Sequential

/-!
Cohorts that follow lanes.

What a cohort has dispatched is what the lanes have served so far, and what is on its way between
partitions is already on the agendas of the lanes (`Cohort.Follows`). A partition that dispatches
something serves its lane before others that the lanes would have served first, which makes no
difference as nothing can reach it any more by then (`Cohort.Follows.serve`).
-/

namespace Lookahead

variable {M : Model}

/-! ## What is on its way -/

/-- What is on its way to a partition: it waits for the next meeting, or it never got to one. -/
def Cohort.flight (cohort : Cohort M) (trace : List (PartitionId × Dispatch M))
    (k : PartitionId) : List (Scheduled M.Payload) :=
  (cohort.flatMap fun s => s.transit k) ++ abandoned trace k

/-- An event is due too late to get in front of what is dispatched before the next meeting. -/
structure Setting.Late (S : Setting) (least : Time) (a : Scheduled M.Payload) : Prop where
  many : 1 < S.partitions
  priority : a.priority = Priority.event
  due : least.after S.window ≤ a.time ∨ ∃ time, S.stopAt = some time ∧ time ≤ a.time

def Setting.Abandons (S : Setting) (trace : List (PartitionId × Dispatch M)) : Prop :=
  ∀ (k : PartitionId), ∀ a ∈ abandoned trace k, 1 < S.partitions ∧
    a.priority = Priority.event ∧ ∃ time, S.stopAt = some time ∧ time ≤ a.time

namespace Partition

def duties (p : Partition M) : List (Scheduled M.Payload) :=
  p.timeline.agenda.filter fun a => !a.isSync

variable {p : Partition M} {S : Setting} {least : Time} {d : Dispatch M}

theorem duties_of_next? (hnext : p.next? = some d) :
    p.duties = (if d.activity.isSync then [] else [d.activity.unnumbered]) ++
      d.partition.duties := by
  unfold duties
  rw [(agenda_of_next? hnext).1, List.filter_cons]
  have hsame : d.activity.unnumbered.isSync = d.activity.isSync := rfl
  rw [hsame]
  cases d.activity.isSync <;> rfl

/-- Nothing gets in front of what comes next if it is late. -/
theorem OnTime.before_late (h : p.OnTime S least) (hnext : p.next? = some d)
    {x : Scheduled M.Payload} (hx : S.Late least x) : d.activity.unnumbered.before x = true := by
  have hagenda := (agenda_of_next? hnext).1
  have hfirst : ∀ y ∈ p.timeline.agenda, y.before d.activity.unnumbered = false := by
    intro y hy
    rw [hagenda] at hy
    rcases List.mem_cons.mp hy with rfl | hy
    · rw [Activity.not_before_iff]
      omega
    · exact h.order.head_not_after hagenda y hy
  have hevent := hx.priority
  rw [Activity.before_iff]
  rcases hx.due with hdue | ⟨time, hat, hdue⟩
  · have hmem : (Activity.ofMeeting (least.after S.window) : Scheduled M.Payload) ∈
        p.timeline.agenda.filter Activity.isSync := by
      rw [h.syncs, if_pos hx.many]
      exact List.mem_cons_self ..
    have hmeeting := hfirst _ (List.mem_filter.mp hmem).1
    rw [Activity.not_before_iff] at hmeeting
    rw [Time.le_def] at hdue
    simp only [Activity.ofMeeting, Priority.threadSync] at hmeeting
    simp only [Priority.event] at hevent
    omega
  · have hmem : (Activity.ofStop time : Scheduled M.Payload) ∈
        p.timeline.agenda.filter Activity.isStop := by
      rw [h.stops, hat]
      exact List.mem_cons_self ..
    have hstop := hfirst _ (List.mem_filter.mp hmem).1
    rw [Activity.not_before_iff] at hstop
    rw [Time.le_def] at hdue
    simp only [Activity.ofStop, Priority.stop] at hstop
    simp only [Priority.event] at hevent
    omega

theorem OnTime.least_le_stop (h : p.OnTime S least) (hsafe : S.exact) {time : Time}
    (hat : S.stopAt = some time) :
    least ≤ time := by
  have hmem : (Activity.ofStop time : Scheduled M.Payload) ∈
      p.timeline.agenda.filter Activity.isStop := by
    rw [h.stops, hat]
    exact List.mem_cons_self ..
  exact h.pending hsafe _ (List.mem_filter.mp hmem).1

end Partition

namespace Cohort

variable {cohort : Cohort M} {trace : List (PartitionId × Dispatch M)} {S : Setting}
  {least : Time} {k : PartitionId}

/-- What waits for the next meeting is late. -/
theorem late_of_transit {s : Stance M} {j : Nat} (hfits : Fits S (.timed least) s)
    (hsafe : S.exact) (hconforms : s.partition.Conforms S j) (hj : j < S.partitions)
    {x : Scheduled M.Payload}
    (hx : x ∈ s.transit k) : S.Late least x := by
  have hlate : ∀ p : Partition M, p.Conforms S j →
      p.Buffers S.exact (least.after S.window) → x ∈ p.outboxFor k → S.Late least x := by
    intro p hconforms hbuffers hx
    obtain ⟨_, hdue, hpriority, _⟩ := hbuffers.of_mem_outboxFor hx
    refine ⟨Nat.not_le.mp fun halone => ?_, hpriority, Or.inl (hdue hsafe)⟩
    rw [hbuffers.alone hconforms hj (Nat.not_lt.mpr halone) k] at hx
    cases hx
  cases hfits with
  | running _ p h hbuffers => exact hlate p hconforms hbuffers hx
  | meeting _ p h hbuffers => exact hlate p hconforms hbuffers hx
  | leaving => cases hx
  | left => cases hx
  | gone => cases hx
  | failed => cases hx

theorem late_of_flight (hagrees : cohort.Agrees S (.timed least)) (hsafe : S.exact)
    (hconforms : cohort.Conforms S) (habandons : S.Abandons trace) {x : Scheduled M.Payload}
    (hx : x ∈ cohort.flight trace k) :
    S.Late least x := by
  rcases List.mem_append.mp hx with hx | hx
  · obtain ⟨s, hs, hx⟩ := List.mem_flatMap.mp hx
    obtain ⟨j, hj⟩ := List.mem_iff_getElem?.mp hs
    refine late_of_transit (hagrees j s hj) hsafe (hconforms.each j s hj) ?_ hx
    rw [← hconforms.length]
    exact (List.getElem?_eq_some_iff.mp hj).1
  · obtain ⟨hmany, hpriority, hdue⟩ := habandons k x hx
    exact ⟨hmany, hpriority, Or.inr hdue⟩

end Cohort

/-! ## Following -/

/-- A lane of a partition: it has on its agenda what the partition has on its own, meetings apart,
and what is on its way. -/
def Partition.InLane (p : Partition M) (lane? : Option (Lane M))
    (flight : List (Scheduled M.Payload)) : Prop :=
  ∃ added : List (Scheduled M.Payload), added.Perm flight ∧
    lane? = some ⟨p.inside, Ordered.placeAll Activity.before added p.duties, true⟩

/-- A partition stands where its lane does, with `rest` still to be served by all lanes. -/
inductive Stance.On (lane? : Option (Lane M)) (flight : List (Scheduled M.Payload))
    (rest : List (PartitionId × Handled M)) : Stance M → Prop
  | running (p : Partition M) (h : p.InLane lane? flight) : On lane? flight rest (.running .timed p)
  | meeting (p : Partition M) (h : p.InLane lane? flight) :
      On lane? flight rest (.ready ⟨.timed, p, .epoch⟩)
  | ended (stop : StopReason) (p : Partition M)
      (h : (∃ lane, lane? = some lane ∧ lane.live = false) ∨ rest = []) :
      On lane? flight rest (.ended stop p)

/-- A cohort follows lanes that still serve `rest` until they come to `final`. -/
structure Cohort.Follows (cohort : Cohort M) (trace : List (PartitionId × Dispatch M))
    (S : Setting) (lanes : Lanes M) (rest : List (PartitionId × Handled M))
    (final : Lanes M) : Prop where
  run : ∃ schedule, (Lanes.system M).Run lanes schedule rest final
  sound : lanes.Sound S.window
  inTime : Lanes.InTime rest
  safe : S.exact
  exact : ∀ entry ∈ rest, entry.2.Exact
  finite : ∀ entry ∈ rest, entry.2.activity.time < Time.never
  apart : Lanes.Apart rest final
  ended : final.Ended
  single : ∀ (k : PartitionId), ∀ x ∈ cohort.flight trace k,
    (Lanes.served rest final k).countP x.ties ≤ 1
  absent : ∀ k : Nat, cohort[k]? = none → lanes k = none
  stands : ∀ (k : Nat) (s : Stance M), cohort[k]? = some s →
    s.On (lanes k) (cohort.flight trace k) rest

namespace Cohort.Follows

variable {cohort : Cohort M} {trace : List (PartitionId × Dispatch M)} {S : Setting}
  {lanes final : Lanes M} {rest : List (PartitionId × Handled M)} {least : Time}

/-- The lanes have nothing left from before the last meeting. -/
theorem least_le (h : cohort.Follows trace S lanes rest final)
    (hagrees : cohort.Agrees S (.timed least)) (hconforms : cohort.Conforms S)
    (habandons : S.Abandons trace) : ∀ entry ∈ rest, least ≤ entry.2.activity.time := by
  cases hrest : rest with
  | nil => simp
  | cons first others =>
    rw [← hrest]
    obtain ⟨schedule, hrun⟩ := h.run
    refine Lanes.From.run ?_ h.sound hrun h.exact
    intro k lane hk hlive a ha
    have hmeeting := Time.le_after least S.window
    have hlane : ∀ p : Partition M, p.InLane (lanes k) (cohort.flight trace k) →
        (∀ a ∈ p.timeline.agenda, least ≤ a.time) →
        (∀ time, S.stopAt = some time → least ≤ time) → least ≤ a.time := by
      rintro p ⟨added, hperm, heq⟩ hpending hstop
      rw [hk] at heq
      cases heq
      rcases Ordered.mem_placeAll.mp ha with ha | ha
      · have hlate := late_of_flight hagrees h.safe hconforms habandons
          (hperm.mem_iff.mp ha)
        rcases hlate.due with hdue | ⟨time, hat, hdue⟩
        · exact Time.le_trans hmeeting hdue
        · exact Time.le_trans (hstop time hat) hdue
      · exact hpending a (List.mem_filter.mp ha).1
    cases hs : cohort[k]? with
    | none =>
      rw [h.absent k hs] at hk
      cases hk
    | some s =>
      have hfits := hagrees k s hs
      cases h.stands k s hs with
      | running p hp =>
        cases hfits with
        | running _ _ hontime =>
          exact hlane p hp (hontime.pending h.safe) fun _ => hontime.least_le_stop h.safe
      | meeting p hp =>
        cases hfits with
        | meeting _ _ hmeets =>
          refine hlane p hp (fun a ha => ?_) fun time hat => ?_
          · rw [← hmeets.now] at hmeeting
            exact Time.le_trans hmeeting (hmeets.current a ha)
          · exact Time.le_trans hmeeting (Nat.le_of_lt (hmeets.late time hat))
      | ended stop p hended =>
        rcases hended with ⟨lane', hlane', hdead⟩ | hnil
        · rw [hk] at hlane'
          cases hlane'
          rw [hlive] at hdead
          cases hdead
        · rw [hrest] at hnil
          cases hnil

theorem position_lt (h : cohort.Follows trace S lanes rest final) (hconforms : cohort.Conforms S) :
    ∀ entry ∈ rest, entry.1 < S.partitions := by
  intro entry hentry
  obtain ⟨schedule, hrun⟩ := h.run
  rw [← hconforms.length]
  refine Nat.not_le.mp fun hle => ?_
  have habsent := h.absent entry.1 (List.getElem?_eq_none hle)
  exact Lanes.not_served hrun (fun lane hlane => by rw [habsent] at hlane; cases hlane) entry
    hentry rfl

variable {i : PartitionId} {p : Partition M} {d : Dispatch M}

theorem serve (h : cohort.Follows trace S lanes rest final)
    (hagrees : cohort.Agrees S (.timed least)) (hconforms : cohort.Conforms S)
    (habandons : S.Abandons trace) (hwindow : 1 ≤ S.window)
    (hi : cohort[i]? = some (.running .timed p)) (hnext : p.next? = some d)
    (hsync : d.activity.isSync = false) :
    ∃ o added front back schedule, p.inside.outcome? d.activity.unnumbered = some o ∧
      added.Perm (cohort.flight trace i) ∧
      lanes i = some ⟨p.inside, d.activity.unnumbered ::
        Ordered.placeAll Activity.before added d.partition.duties, true⟩ ∧
      rest = front ++ (i, d.handled) :: back ∧ (∀ entry ∈ front, entry.1 ≠ i) ∧
      (Lanes.system M).Run (lanes.dispatched i o
        (Ordered.placeAll Activity.before added d.partition.duties)) schedule (front ++ back)
          final := by
  obtain ⟨schedule, hrun⟩ := h.run
  have hstands := h.stands i _ hi
  have hfits := hagrees i _ hi
  have hlt := (List.getElem?_eq_some_iff.mp hi).1
  rw [hconforms.length] at hlt
  cases hfits with
  | running _ _ hontime =>
    cases hstands with
    | running _ hlane =>
      obtain ⟨added, hperm, hlane⟩ := hlane
      have hclear : ∀ x ∈ added, x.before d.activity.unnumbered = false := fun x hx =>
        Activity.before_byKey.asymm _ _ (hontime.before_late hnext
          (late_of_flight hagrees h.safe hconforms habandons (hperm.mem_iff.mp hx)))
      rw [Partition.duties_of_next? hnext, hsync, if_neg Bool.false_ne_true, List.singleton_append,
        Ordered.placeAll_cons_of_not_before hclear] at hlane
      have hfirst : ∀ entry ∈ rest, entry.1 ≠ i → ∀ x ∈ Sent.bound entry.2.sends i,
          d.activity.unnumbered.before x = true := by
        intro entry hentry hother x hx
        obtain ⟨hdue, hpriority⟩ := h.sound.bound_of_run hrun entry hentry i x hx
        have hplace := h.position_lt hconforms entry hentry
        refine hontime.before_late hnext ⟨?_, hpriority, Or.inl ?_⟩
        · refine Nat.not_le.mp fun halone => hother ?_
          exact (Nat.lt_one_iff.mp (Nat.lt_of_lt_of_le hplace halone)).trans
            (Nat.lt_one_iff.mp (Nat.lt_of_lt_of_le hlt halone)).symm
        · have hleast := h.least_le hagrees hconforms habandons entry hentry
          exact Time.le_trans (Time.after_mono hleast (Nat.le_refl _)) hdue
      obtain ⟨o, front, back, schedule', ho, hrest, hfront, hrun'⟩ :=
        Lanes.serve_first hwindow hrun h.sound h.inTime h.finite h.apart h.ended hlane hfirst
      rw [← Partition.handled_eq hnext ho] at hrest
      exact ⟨o, added, front, back, schedule', ho, hperm, hlane, hrest, hfront, hrun'⟩

/-! ## Working -/

theorem flight_set {s s' : Stance M} {k : PartitionId} {new : List (Scheduled M.Payload)}
    {d? : Option (Dispatch M)} (hi : cohort[i]? = some s)
    (hbalance : ∀ kind : Scheduled M.Payload → Bool,
      (s'.transit k).countP kind + (d?.toList.flatMap fun d => d.abandoned k).countP kind =
        (s.transit k).countP kind + new.countP kind) :
    (Cohort.flight (cohort.set i s') (trace ++ noteAt i d?) k).Perm
      (cohort.flight trace k ++ new) := by
  refine perm_of_countP fun kind => ?_
  have hset := countP_flatMap_set (y := s') hi (fun r => r.transit k) kind
  have := hbalance kind
  unfold flight
  rw [abandoned_append_noteAt]
  simp only [List.countP_append]
  omega

/-- What is on its way after something has been served still ties with nothing. -/
theorem single_of_flight (h : cohort.Follows trace S lanes rest final)
    {entry : PartitionId × Handled M} {front back : List (PartitionId × Handled M)}
    (hrest : rest = front ++ entry :: back) {k : PartitionId}
    {flight : List (Scheduled M.Payload)}
    (hflight : flight.Perm (cohort.flight trace k ++ Sent.bound entry.2.sends k)) :
    ∀ x ∈ flight, (Lanes.served (front ++ back) final k).countP x.ties ≤ 1 := by
  intro x hx
  have hsub : (front ++ back).Sublist rest := by
    rw [hrest]
    exact (List.sublist_cons_self ..).append_left front
  have hone : (Lanes.served rest final k).countP x.ties ≤ 1 := by
    rcases List.mem_append.mp (hflight.mem_iff.mp hx) with hx | hx
    · exact h.single k x hx
    · exact h.apart entry (by rw [hrest]; simp) k x hx
  refine Nat.le_trans (List.Sublist.countP_le ?_) hone
  exact ((hsub.filterMap _).map _).append_right _

/-- After something has been served, everyone else still stands where the lanes do. -/
theorem set (h : cohort.Follows trace S lanes rest final)
    (hi : cohort[i]? = some (.running .timed p)) {s' : Stance M} {o : Outcome M}
    {agenda : List (Scheduled M.Payload)} {front back : List (PartitionId × Handled M)}
    {schedule : List PartitionId}
    (ho : p.inside.outcome? d.activity.unnumbered = some o) (hsends : o.sends = d.sends)
    (hlane : lanes i = some ⟨p.inside, d.activity.unnumbered :: agenda, true⟩)
    (hrest : rest = front ++ (i, d.handled) :: back)
    (hrun : (Lanes.system M).Run (lanes.dispatched i o agenda) schedule (front ++ back) final)
    (hflight : ∀ (k : PartitionId),
      (Cohort.flight (cohort.set i s') (trace ++ noteAt i (some d)) k).Perm
        (cohort.flight trace k ++ Sent.bound d.sends k))
    (hs' : s'.On (lanes.dispatched i o agenda i)
      (Cohort.flight (cohort.set i s') (trace ++ noteAt i (some d)) i) (front ++ back)) :
    Cohort.Follows (cohort.set i s') (trace ++ noteAt i (some d)) S (lanes.dispatched i o agenda)
      (front ++ back) final := by
  have hsub : (front ++ back).Sublist rest := by
    rw [hrest]
    exact (List.sublist_cons_self ..).append_left front
  constructor
  case run => exact ⟨schedule, hrun⟩
  case sound => exact h.sound.step (Lanes.step?_of hlane ho)
  case inTime => exact h.inTime.sublist hsub
  case safe => exact h.safe
  case exact => exact fun entry hentry => h.exact entry (hsub.subset hentry)
  case finite => exact fun entry hentry => h.finite entry (hsub.subset hentry)
  case apart => exact h.apart.sublist hsub
  case ended => exact h.ended
  case single => exact fun k => h.single_of_flight hrest (hflight k)
  case absent =>
    intro k hk
    have hki : k ≠ i := by
      rintro rfl
      rw [List.getElem?_set_self (List.getElem?_eq_some_iff.mp hi).1] at hk
      cases hk
    rw [List.getElem?_set_ne (Ne.symm hki)] at hk
    rw [Lanes.dispatched_of_ne hki, h.absent k hk]
    rfl
  case stands =>
    refine forall_set (P := fun k (s : Stance M) => s.On (lanes.dispatched i o agenda k)
      (Cohort.flight (cohort.set i s') (trace ++ noteAt i (some d)) k) (front ++ back)) ?_ hs'
    intro k s hki hs
    have hqueued : ∀ q : Partition M, q.InLane (lanes k) (cohort.flight trace k) →
        q.InLane (lanes.dispatched i o agenda k)
          (Cohort.flight (cohort.set i s') (trace ++ noteAt i (some d)) k) := by
      rintro q ⟨added, hperm, hq⟩
      refine ⟨added ++ Sent.bound d.sends k, (hperm.append_right _).trans (hflight k).symm, ?_⟩
      rw [Lanes.dispatched_of_ne hki, hq, Option.map_some, Ordered.placeAll_append, hsends]
    cases h.stands k s hs with
    | running q hq => exact .running q (hqueued q hq)
    | meeting q hq => exact .meeting q (hqueued q hq)
    | ended stop q hended =>
      rcases hended with ⟨lane, hlane, hdead⟩ | hnil
      · refine .ended stop q (Or.inl ?_)
        rw [Lanes.dispatched_of_ne hki, hlane]
        exact ⟨_, rfl, hdead⟩
      · rw [hrest] at hnil
        simp at hnil

end Cohort.Follows

end Lookahead
