import Lookahead.Proofs.Following

/-!
A cohort that follows lanes goes on to follow them.

Coming to a meeting and meeting serve nothing, and every other step serves what it dispatches
(`Cohort.Follows.step`). What is handed over at a meeting is on the agendas of the lanes already, so
that it only moves from one part of them to another.
-/

namespace Lookahead

variable {M : Model}

/-- What a partition dispatches in a run, meetings apart, as its handlers see it. -/
def duties (trace : List (PartitionId × Dispatch M)) (j : PartitionId) : List (Handled M) :=
  ((System.seenOf j trace).filter fun d => !d.activity.isSync).map Dispatch.handled

theorem duties_append (front back : List (PartitionId × Dispatch M)) (j : PartitionId) :
    duties (front ++ back) j = duties front j ++ duties back j := by
  unfold duties
  rw [System.seenOf_append, List.filter_append, List.map_append]

theorem duties_noteAt (i j : PartitionId) (d : Dispatch M) (hsync : d.activity.isSync = false) :
    duties (noteAt i (some d)) j = if i = j then [d.handled] else [] := by
  unfold duties
  by_cases hij : i = j
  · subst hij
    rw [seenOf_noteAt_self, if_pos rfl]
    simp [hsync]
  · rw [seenOf_noteAt_of_ne hij, if_neg hij]
    rfl

theorem duties_noteAt_sync (i j : PartitionId) (d : Dispatch M) (hsync : d.activity.isSync = true) :
    duties (noteAt i (some d)) j = [] := by
  unfold duties
  by_cases hij : i = j
  · subst hij
    rw [seenOf_noteAt_self]
    simp [hsync]
  · rw [seenOf_noteAt_of_ne hij]
    rfl

theorem Stance.On.perm {lane? : Option (Lane M)} {flight others : List (Scheduled M.Payload)}
    {rest : List (PartitionId × Handled M)} {s : Stance M} (h : s.On lane? flight rest)
    (hperm : flight.Perm others) : s.On lane? others rest := by
  cases h with
  | running p h =>
    obtain ⟨added, hadded, hlane⟩ := h
    exact .running p ⟨added, hadded.trans hperm, hlane⟩
  | meeting p h =>
    obtain ⟨added, hadded, hlane⟩ := h
    exact .meeting p ⟨added, hadded.trans hperm, hlane⟩
  | ended stop p h => exact .ended stop p h

namespace Cohort.Follows

variable {cohort : Cohort M} {trace : List (PartitionId × Dispatch M)} {S : Setting}
  {lanes final : Lanes M} {rest : List (PartitionId × Handled M)} {least : Time}
  {i : PartitionId} {p : Partition M} {d : Dispatch M}

theorem seenOf_served {x : Handled M} {front back : List (PartitionId × Handled M)}
    (hfront : ∀ entry ∈ front, entry.1 ≠ i) (j : PartitionId) :
    System.seenOf j (front ++ (i, x) :: back) =
      (if i = j then [x] else []) ++ System.seenOf j (front ++ back) := by
  have hsingle : (i, x) :: back = [(i, x)] ++ back := rfl
  rw [hsingle, System.seenOf_append, System.seenOf_append, System.seenOf_append]
  by_cases hij : i = j
  · subst hij
    have hnone : System.seenOf i front = [] := by
      refine List.filterMap_eq_nil_iff.mpr fun entry hentry => ?_
      rw [if_neg (hfront entry hentry)]
    rw [hnone, if_pos rfl]
    simp [System.seenOf]
  · rw [if_neg hij]
    simp [System.seenOf, hij]

/-- A step that serves nothing. -/
theorem keep (h : cohort.Follows trace S lanes rest final) {s' : Stance M}
    {d? : Option (Dispatch M)}
    (hflight : ∀ k, (Cohort.flight (cohort.set i s') (trace ++ noteAt i d?) k).Perm
      (cohort.flight trace k))
    (hs' : s'.On (lanes i) (Cohort.flight (cohort.set i s') (trace ++ noteAt i d?) i) rest) :
    Cohort.Follows (cohort.set i s') (trace ++ noteAt i d?) S lanes rest final := by
  constructor
  case run => exact h.run
  case sound => exact h.sound
  case inTime => exact h.inTime
  case safe => exact h.safe
  case exact => exact h.exact
  case finite => exact h.finite
  case apart => exact h.apart
  case ended => exact h.ended
  case single => exact fun k x hx => h.single k x ((hflight k).mem_iff.mp hx)
  case absent =>
    intro k hk
    rw [List.getElem?_eq_none_iff, List.length_set, ← List.getElem?_eq_none_iff] at hk
    exact h.absent k hk
  case stands =>
    refine forall_set (P := fun k (s : Stance M) => s.On (lanes k)
      (Cohort.flight (cohort.set i s') (trace ++ noteAt i d?) k) rest) ?_ hs'
    intro k s _ hs
    exact (h.stands k s hs).perm (hflight k).symm

theorem sync (h : cohort.Follows trace S lanes rest final)
    (hi : cohort[i]? = some (.running .timed p)) (hnext : p.next? = some d)
    (hsync : d.activity.payload = .sync) :
    Cohort.Follows (cohort.set i (Thread.beginRound .timed d.partition .epoch).stance)
      (trace ++ noteAt i (some d)) S lanes rest final := by
  have habandoned : ∀ k, d.abandoned k = [] := by
    intro k
    simp [Dispatch.abandoned, hsync]
  have hflight : ∀ k, (Cohort.flight
      (cohort.set i (Thread.beginRound .timed d.partition .epoch).stance)
      (trace ++ noteAt i (some d)) k).Perm (cohort.flight trace k) := by
    intro k
    have hflight : (Cohort.flight
        (cohort.set i (Thread.beginRound .timed d.partition .epoch).stance)
        (trace ++ noteAt i (some d)) k).Perm (cohort.flight trace k ++ []) := by
      refine flight_set hi fun kind => ?_
      have htransit : (Thread.beginRound .timed d.partition .epoch).stance.transit k =
          p.outboxFor k := Partition.outboxFor_of_next? hnext k
      rw [htransit]
      simp [habandoned]
    rwa [List.append_nil] at hflight
  refine h.keep hflight ?_
  cases h.stands i _ hi with
  | running _ hlane =>
    obtain ⟨added, hadded, hlane⟩ := hlane
    have hyes : d.activity.isSync = true := by
      simp [Activity.isSync, hsync]
    have hduties := Partition.duties_of_next? hnext
    rw [hyes, if_pos rfl, List.nil_append] at hduties
    refine .meeting _ ⟨added, hadded.trans (hflight i).symm, ?_⟩
    rw [hlane, hduties, ← Partition.inside_of_next? hnext]
    rfl

theorem stop (h : cohort.Follows trace S lanes rest final)
    (hagrees : cohort.Agrees S (.timed least)) (hconforms : cohort.Conforms S)
    (habandons : S.Abandons trace) (hwindow : 1 ≤ S.window) (hlifecycle : S.lifecycle = false)
    (hi : cohort[i]? = some (.running .timed p)) (hnext : p.next? = some d)
    (hstop : d.activity.payload = .stop) :
    ∃ lanes' rest', Cohort.Follows (cohort.set i (Thread.finishTimed .stopAt d.partition).stance)
        (trace ++ noteAt i (some d)) S lanes' rest' final ∧
      ∀ j, System.seenOf j rest = duties (noteAt i (some d)) j ++ System.seenOf j rest' := by
  have hsync : d.activity.isSync = false := by
    simp [Activity.isSync, hstop]
  obtain ⟨o, added, front, back, schedule, ho, hperm, hlane, hrest, hfront, hrun⟩ :=
    h.serve hagrees hconforms habandons hwindow hi hnext hsync
  refine ⟨lanes.dispatched i o (Ordered.placeAll Activity.before added d.partition.duties),
    front ++ back, ?_, fun j => ?_⟩
  · have hnone : d.sends = [] := by
      simp [Dispatch.sends, hstop, Inside.sends]
    have hout : o = ⟨p.inside, [], [], false⟩ := by
      rw [Inside.outcome?_stop (a := d.activity.unnumbered) hstop] at ho
      exact (Option.some.inj ho).symm
    have habandoned : ∀ k, d.abandoned k = p.outboxFor k := by
      intro k
      rw [← Partition.outboxFor_of_next? hnext]
      simp [Dispatch.abandoned, hstop, Partition.outboxFor]
    have hgone : d.partition.lifecycle = false := by
      rw [(Partition.Like.next? hnext).lifecycle]
      exact (hconforms.each i _ hi).lifecycle.trans hlifecycle
    refine h.set hi ho (by rw [hout, hnone]) hlane hrest hrun (fun k => ?_) ?_
    · refine flight_set hi fun kind => ?_
      rw [Thread.transit_finishTimed, hnone]
      simp [habandoned, Sent.bound]
    · rw [Thread.stance_finishTimed .stopAt hgone]
      exact .ended .stopAt _ (Or.inl ⟨_, Lanes.dispatched_self .., by rw [hout]⟩)
  · rw [hrest, seenOf_served hfront, duties_noteAt i j d hsync]

/-- An event or a clock is dispatched. -/
theorem work (h : cohort.Follows trace S lanes rest final)
    (hagrees : cohort.Agrees S (.timed least)) (hconforms : cohort.Conforms S)
    (habandons : S.Abandons trace) (hwindow : 1 ≤ S.window) {e : Effect M}
    (hi : cohort[i]? = some (.running .timed p)) (hnext : p.next? = some d)
    (hwork : d.activity.payload.isWork = true) (heffect : e.Of d) (hfault : e.fault = none) :
    ∃ lanes' rest', Cohort.Follows (cohort.set i (.running .timed (d.partition.after e)))
        (trace ++ noteAt i (some d)) S lanes' rest' final ∧
      ∀ j, System.seenOf j rest = duties (noteAt i (some d)) j ++ System.seenOf j rest' := by
  have hsync : d.activity.isSync = false := (Activity.isWork_iff.mp hwork).1
  obtain ⟨o, added, front, back, schedule, ho, hperm, hlane, hrest, hfront, hrun⟩ :=
    h.serve hagrees hconforms habandons hwindow hi hnext hsync
  refine ⟨lanes.dispatched i o (Ordered.placeAll Activity.before added d.partition.duties),
    front ++ back, ?_, fun j => ?_⟩
  · obtain ⟨o', ho', hlive, hsends, hinside, hadded, hafter⟩ :=
      Partition.outcome_of_work hnext hwork heffect hfault
    rw [ho] at ho'
    cases ho'
    have habandoned : ∀ k, d.abandoned k = [] := by
      intro k
      unfold Dispatch.abandoned
      split
      · rename_i hstop
        rw [hstop] at hwork
        cases hwork
      · rfl
    -- What is sent to others is in flight now, and what stays is on the agenda.
    have hflight : ∀ k, (Cohort.flight (cohort.set i (.running .timed (d.partition.after e)))
        (trace ++ noteAt i (some d)) k).Perm
          (cohort.flight trace k ++ Sent.bound d.sends k) := by
      intro k
      refine flight_set hi fun kind => ?_
      rw [Stance.transit_running, Stance.transit_running, Partition.outboxFor_after heffect,
        Partition.outboxFor_of_next? hnext]
      simp [habandoned]
    refine h.set hi ho hsends hlane hrest hrun hflight (.running _ ⟨added, ?_, ?_⟩)
    · have hnone : Sent.bound d.sends i = [] := by
        rw [List.eq_nil_iff_forall_not_mem, ← hsends]
        intro x hx
        exact ((h.sound i _ hlane).1.le_bound ho i x hx).2.2 rfl
      have hsame := hflight i
      rw [hnone, List.append_nil] at hsame
      exact hperm.trans hsame.symm
    · have hself := Lanes.dispatched_self lanes i o
        (Ordered.placeAll Activity.before added d.partition.duties)
      have hclear : ∀ x ∈ added, ∀ y ∈ o.added, x.before y = true ∨ y.before x = true := by
        intro x hx y hy
        refine Lanes.before_of_served hrun hself Ordered.placeAll_placeAll_perm' hx hy ?_
        exact h.single_of_flight hrest (.refl _) x (List.mem_append_left _ (hperm.mem_iff.mp hx))
      have horder : d.partition.timeline.InOrder := by
        cases hagrees i _ hi with
        | running _ _ hontime => exact (hontime.of_next? hnext).1
      have hduties : (d.partition.after e).duties =
          Ordered.placeAll Activity.before o.added d.partition.duties := by
        unfold Partition.duties
        rw [hafter]
        refine Ordered.filter_placeAll_of_pos Activity.before_byKey (fun a ha => ?_) horder
        simp [(Activity.isWork_iff.mp (hadded a ha)).1]
      rw [hself, hlive, hinside, hduties, Ordered.placeAll_comm Activity.before_byKey hclear]
  · rw [hrest, seenOf_served hfront, duties_noteAt i j d hsync]

/-- Only a partition that is alone runs out of things to do, and then its lane has, too. -/
theorem idle (h : cohort.Follows trace S lanes rest final)
    (hagrees : cohort.Agrees S (.timed least)) (hconforms : cohort.Conforms S)
    (habandons : S.Abandons trace) (hlifecycle : S.lifecycle = false)
    (hi : cohort[i]? = some (.running .timed p)) (hnext : p.next? = none) :
    Cohort.Follows (cohort.set i (Thread.finishTimed .exhausted p).stance)
      (trace ++ noteAt i none) S lanes rest final := by
  have hagenda := Partition.next?_eq_none_iff.mp hnext
  have hlt := (List.getElem?_eq_some_iff.mp hi).1
  rw [hconforms.length] at hlt
  cases hagrees i _ hi with
  | running _ _ hontime hbuffers =>
    have halone : ¬ 1 < S.partitions := by
      intro hmany
      have hsyncs := hontime.syncs
      rw [hagenda, if_pos hmany] at hsyncs
      cases hsyncs
    have hflight : ∀ k, cohort.flight trace k = [] := by
      intro k
      rw [List.eq_nil_iff_forall_not_mem]
      intro x hx
      exact halone (late_of_flight hagrees h.safe hconforms habandons hx).many
    have hnil : rest = [] := by
      obtain ⟨schedule, hrun⟩ := h.run
      refine Lanes.Ended.eq_nil (fun k lane hk _ => ?_) hrun
      cases hs : cohort[k]? with
      | none =>
        rw [h.absent k hs] at hk
        cases hk
      | some s =>
        have hklt := (List.getElem?_eq_some_iff.mp hs).1
        rw [hconforms.length] at hklt
        obtain rfl : @Eq Nat k i := by omega
        cases h.stands k _ hi with
        | running _ hlane =>
          obtain ⟨added, hadded, hlane⟩ := hlane
          rw [hflight] at hadded
          rw [hk, hadded.eq_nil] at hlane
          cases hlane
          unfold Partition.duties
          rw [hagenda]
          rfl
    have hgone : p.lifecycle = false := (hconforms.each i _ hi).lifecycle.trans hlifecycle
    refine h.keep (fun k => ?_) ?_
    · have hsame : (Cohort.flight (cohort.set i (Thread.finishTimed .exhausted p).stance)
          (trace ++ noteAt i none) k).Perm (cohort.flight trace k ++ []) := by
        refine flight_set hi fun kind => ?_
        rw [Thread.transit_finishTimed, Stance.transit_running,
          hbuffers.alone (hconforms.each i _ hi) hlt halone k]
        rfl
      rwa [List.append_nil] at hsame
    · rw [Thread.stance_finishTimed .exhausted hgone]
      exact .ended .exhausted p (Or.inr hnil)

/-- What a partition dispatches next does not make time overflow unnoticed: its lane serves it too.
-/
theorem exact_of_next? (h : cohort.Follows trace S lanes rest final)
    (hagrees : cohort.Agrees S (.timed least)) (hconforms : cohort.Conforms S)
    (habandons : S.Abandons trace) (hwindow : 1 ≤ S.window)
    (hi : cohort[i]? = some (.running .timed p)) (hnext : p.next? = some d) : d.Exact := by
  cases hwork : d.activity.payload.isWork with
  | false => exact Dispatch.exact_of_rest hwork
  | true =>
    have hsync : d.activity.isSync = false := (Activity.isWork_iff.mp hwork).1
    obtain ⟨_, _, _, _, _, _, _, _, hrest, _⟩ :=
      h.serve hagrees hconforms habandons hwindow hi hnext hsync
    refine (Partition.exact_handled hnext).mp (h.exact (i, d.handled) ?_)
    rw [hrest]
    simp

theorem workOn (h : cohort.Follows trace S lanes rest final)
    (hagrees : cohort.Agrees S (.timed least)) (hconforms : cohort.Conforms S)
    (habandons : S.Abandons trace) (hwindow : 1 ≤ S.window) (hlifecycle : S.lifecycle = false)
    (hi : cohort[i]? = some (.running .timed p)) :
    ∃ lanes' rest', Cohort.Follows (cohort.set i (Thread.workOn .timed p).stance)
        (trace ++ noteAt i p.next?) S lanes' rest' final ∧
      ∀ j, System.seenOf j rest = duties (noteAt i p.next?) j ++ System.seenOf j rest' := by
  have hworks := Thread.works_workOn p
  generalize Thread.workOn .timed p = t at hworks
  cases hworks with
  | idle hnext =>
    refine ⟨lanes, rest, ?_, fun j => ?_⟩
    · rw [hnext]
      exact h.idle hagrees hconforms habandons hlifecycle hi hnext
    · rw [hnext]
      rfl
  | work d e hnext hwork heffect hfault =>
    rw [hnext]
    exact h.work hagrees hconforms habandons hwindow hi hnext hwork heffect hfault
  | failed d e err hnext hwork heffect hfault =>
    have hsync : d.activity.isSync = false := (Activity.isWork_iff.mp hwork).1
    obtain ⟨o, _, _, _, _, ho, _⟩ := h.serve hagrees hconforms habandons hwindow hi hnext hsync
    rw [Partition.fault_eq_none hnext hwork heffect ho] at hfault
    cases hfault
  | sync d hnext hsync =>
    refine ⟨lanes, rest, ?_, fun j => ?_⟩
    · rw [hnext]
      exact h.sync hi hnext hsync
    · rw [hnext, duties_noteAt_sync i j d (by simp [Activity.isSync, hsync]), List.nil_append]
  | stop d hnext hstop =>
    rw [hnext]
    exact h.stop hagrees hconforms habandons hwindow hlifecycle hi hnext hstop

/-! ## Meeting -/

variable {parties : List (Party M)}

/-- Whoever is ready has come to the meeting, and its lane has on its agenda what is going to be
handed over. -/
theorem party (h : Cohort.Follows (parties.map Stance.ready) trace S lanes rest final)
    (hagrees : Cohort.Agrees (parties.map Stance.ready) S (.timed least)) {k : Nat} {q : Party M}
    (hq : parties[k]? = some q) :
    q.work = .timed ∧ q.kind = .epoch ∧ q.partition.Meets S least ∧
      q.partition.Buffers S.exact (least.after S.window) ∧
      q.partition.InLane (lanes k) (Cohort.flight (parties.map Stance.ready) trace k) := by
  have hready := Cohort.getElem?_ready hq
  have hstands := h.stands k _ hready
  cases hagrees k _ hready with
  | meeting _ p hmeets hbuffers =>
    cases hstands with
    | meeting _ hlane => exact ⟨rfl, rfl, hmeets, hbuffers, hlane⟩
  | left => cases hstands

theorem epoch_of_party (h : Cohort.Follows (parties.map Stance.ready) trace S lanes rest final)
    (hagrees : Cohort.Agrees (parties.map Stance.ready) S (.timed least)) :
    ∀ q ∈ parties, q.kind = .epoch ∧ q.partition.Meets S least ∧
      q.partition.Buffers S.exact (least.after S.window) := by
  intro q hq
  obtain ⟨k, hk⟩ := List.mem_iff_getElem?.mp hq
  obtain ⟨_, hkind, hmeets, hbuffers, _⟩ := h.party hagrees hk
  exact ⟨hkind, hmeets, hbuffers⟩

theorem transit_eq (h : Cohort.Follows (parties.map Stance.ready) trace S lanes rest final)
    (hagrees : Cohort.Agrees (parties.map Stance.ready) S (.timed least)) (k : PartitionId) :
    ((parties.map Stance.ready).flatMap fun s => s.transit k) =
      (Party.incoming parties k).map Activity.unnumbered := by
  refine Cohort.transit_epoch h.safe (fun q hq => ?_) k
  obtain ⟨hkind, hmeets, hbuffers⟩ := h.epoch_of_party hagrees q hq
  exact ⟨hkind, by rw [hmeets.now]; exact hbuffers⟩

theorem duties_taken {q : Party M} {incoming : List (Scheduled M.Payload)}
    (hkind : q.kind = .epoch) (hmeets : q.partition.Meets S least)
    (hincoming : ∀ a ∈ incoming, a.isDelivery = true) :
    (q.taken incoming).duties =
      Ordered.placeAll Activity.before (incoming.map Activity.unnumbered) q.partition.duties := by
  unfold Partition.duties
  rw [Party.timeline_taken_epoch hkind, Timeline.agenda_addAll]
  refine Ordered.filter_placeAll_of_pos Activity.before_byKey (fun a ha => ?_) hmeets.order
  obtain ⟨x, hx, rfl⟩ := List.mem_map.mp ha
  have hwork := Activity.isDelivery_isWork (hincoming x hx)
  have hsync : x.unnumbered.isSync = false := (Activity.isWork_iff.mp hwork).1
  simp [hsync]

theorem inside_taken (q : Party M) (incoming : List (Scheduled M.Payload)) :
    (q.taken incoming).inside = q.partition.inside := by
  obtain ⟨work, p, kind⟩ := q
  cases kind <;> simp [Party.taken, Party.handed, Partition.inside, Member.addExchanged]

/-- The next meeting is no duty. -/
theorem duties_insert (p : Partition M) (member : Member M.Payload) (time : Time) :
    ({ p with
      member := member
      timeline := p.timeline.insert time Priority.threadSync .sync } : Partition M).duties =
        p.duties :=
  p.timeline.filter_agenda_meeting time rfl

/-- Where nothing is pending anywhere before the end of time, the lanes have nothing left. -/
theorem rest_eq_nil_of_drained
    (h : Cohort.Follows (parties.map Stance.ready) trace S lanes rest final)
    (hagrees : Cohort.Agrees (parties.map Stance.ready) S (.timed least))
    (habandons : S.Abandons trace) (hnever : Party.least parties = Time.never) : rest = [] := by
  obtain ⟨schedule, hrun⟩ := h.run
  have hfrom : lanes.From Time.never := by
    intro k lane hk hlive a ha
    cases hs : parties[k]? with
    | none =>
      rw [h.absent k (by rw [List.getElem?_map, hs]; rfl)] at hk
      cases hk
    | some q =>
      obtain ⟨_, hkind, hmeets, _, added, hadded, hlane⟩ := h.party hagrees hs
      have hincoming := Party.mem_incoming (h.epoch_of_party hagrees) k
      have htaken := hmeets.taken hkind hincoming
      have hlate : ∀ x ∈ (q.taken (Party.incoming parties k)).timeline.agenda,
          Time.never ≤ x.time := by
        intro x hx
        have hleast := Party.least_le_minimum hs
        rw [hnever, Party.minimum_epoch hkind] at hleast
        exact Time.le_trans hleast (htaken.order.nextTime_le x hx)
      have hmem : ∀ x ∈ q.partition.timeline.agenda,
          x ∈ (q.taken (Party.incoming parties k)).timeline.agenda := by
        intro x hx
        rw [Party.timeline_taken_epoch hkind]
        exact Timeline.mem_agenda_addAll.mpr (Or.inr hx)
      rw [hk] at hlane
      cases hlane
      rcases Ordered.mem_placeAll.mp ha with ha | ha
      · rcases List.mem_append.mp (hadded.mem_iff.mp ha) with ha | ha
        · rw [h.transit_eq hagrees] at ha
          obtain ⟨x, hx, rfl⟩ := List.mem_map.mp ha
          refine hlate x.unnumbered ?_
          rw [Party.timeline_taken_epoch hkind]
          exact Timeline.mem_agenda_addAll.mpr (Or.inl ⟨x, hx, rfl⟩)
        · obtain ⟨_, _, time, hat, hle⟩ := habandons k a ha
          have hstop : (Activity.ofStop time : Scheduled M.Payload) ∈
              q.partition.timeline.agenda.filter Activity.isStop := by
            rw [hmeets.stops, hat]
            exact List.mem_cons_self ..
          exact Time.le_trans (hlate _ (hmem _ (List.mem_filter.mp hstop).1)) hle
      · exact hlate a (hmem a (List.mem_filter.mp ha).1)
  rw [List.eq_nil_iff_forall_not_mem]
  intro entry hentry
  have hlast := h.finite entry hentry
  have hlate := hfrom.run h.sound hrun h.exact entry hentry
  rw [Time.lt_def] at hlast
  rw [Time.le_def] at hlate
  omega

/-- A meeting serves nothing. -/
theorem exchange (h : Cohort.Follows (parties.map Stance.ready) trace S lanes rest final)
    (hagrees : Cohort.Agrees (parties.map Stance.ready) S (.timed least))
    (hconforms : Cohort.Conforms (parties.map Stance.ready) S) (habandons : S.Abandons trace)
    (hlifecycle : S.lifecycle = false) :
    Cohort.Follows (Cohort.exchanged parties) trace S lanes rest final := by
  have hflight : ∀ k, Cohort.flight (Cohort.exchanged parties) trace k = abandoned trace k := by
    intro k
    unfold Cohort.flight
    rw [Cohort.transit_exchanged, List.nil_append]
  constructor
  case run => exact h.run
  case sound => exact h.sound
  case inTime => exact h.inTime
  case safe => exact h.safe
  case exact => exact h.exact
  case finite => exact h.finite
  case apart => exact h.apart
  case ended => exact h.ended
  case single =>
    intro k x hx
    rw [hflight] at hx
    exact h.single k x (List.mem_append_right _ hx)
  case absent =>
    intro k hk
    unfold Cohort.exchanged at hk
    rw [List.getElem?_mapIdx, Option.map_eq_none_iff] at hk
    exact h.absent k (by rw [List.getElem?_map, hk]; rfl)
  case stands =>
    intro k s hs
    obtain ⟨q, hq, rfl⟩ := Cohort.getElem?_exchanged hs
    obtain ⟨hwork, hkind, hmeets, _, added, hadded, hlane⟩ := h.party hagrees hq
    have hincoming := Party.mem_incoming (h.epoch_of_party hagrees) k
    have hgone : (q.taken (Party.incoming parties k)).lifecycle = false :=
      (Partition.Like.taken q _).lifecycle.trans
        ((Cohort.Agrees.conforms_party hconforms hq).lifecycle.trans hlifecycle)
    rw [hflight]
    by_cases hnever : Party.least parties = Time.never
    · unfold Party.conclude
      simp only [hkind, hnever, ↓reduceIte]
      have hstance := Thread.stance_finishTimed (p := { q.taken (Party.incoming parties k) with
        member := (q.taken (Party.incoming parties k)).member.finishEpoch }) .drained hgone
      rw [hstance]
      exact .ended .drained _ (Or.inr (h.rest_eq_nil_of_drained hagrees habandons hnever))
    · unfold Party.conclude
      simp only [hkind, hwork, hnever, ↓reduceIte]
      have hclear := Lanes.pairwise_of_served h.run.choose_spec hlane
        (Ordered.placeAll_perm added q.partition.duties) fun x hx =>
          h.single k x (hadded.mem_iff.mp hx)
      refine .running _ ⟨abandoned trace k, .refl _, ?_⟩
      rw [hlane, duties_insert, duties_taken hkind hmeets fun a ha => (hincoming a ha).2.2,
        ← Ordered.placeAll_append, ← h.transit_eq hagrees,
        Ordered.placeAll_of_perm Activity.before_byKey hadded hclear, ← inside_taken q]
      rfl

/-! ## Steps -/

/-- A cohort that follows lanes goes on to follow them, and the lanes serve what it dispatches. -/
theorem step {next : Cohort M} {m : Moment} {label : Option PartitionId}
    (h : cohort.Follows trace S lanes rest final) (hagrees : cohort.Agrees S m)
    (hconforms : cohort.Conforms S) (habandons : S.Abandons trace) (hwindow : 1 ≤ S.window)
    (hlifecycle : S.lifecycle = false) (hstep : cohort.step? label = some next) :
    (∀ entry ∈ (Cohort.system M).note cohort label, entry.2.Exact) ∧
    ∃ lanes' rest', next.Follows (trace ++ (Cohort.system M).note cohort label) S lanes' rest'
        final ∧
      ∀ j, System.seenOf j rest =
        duties ((Cohort.system M).note cohort label) j ++ System.seenOf j rest' := by
  cases label with
  | none =>
    obtain ⟨parties, hne, rfl, rfl⟩ := exchange?_eq_some_iff.mp hstep
    obtain ⟨q, hq⟩ := List.exists_mem_of_ne_nil parties hne
    obtain ⟨k, hk⟩ := List.mem_iff_getElem?.mp hq
    have hready : (parties.map Stance.ready)[k]? = some (.ready q) := by
      rw [List.getElem?_map, hk]
      rfl
    have hnote : (Cohort.system M).note (parties.map Stance.ready) none = [] := rfl
    rw [hnote, List.append_nil]
    refine ⟨by simp, lanes, rest, ?_, fun j => rfl⟩
    have hfits := hagrees k _ hready
    cases h.stands k _ hready with
    | meeting p hlane =>
      cases hfits with
      | meeting least => exact h.exchange hagrees hconforms habandons hlifecycle
  | some i =>
    obtain ⟨work, p, hi, rfl⟩ := step?_some_iff.mp hstep
    rw [note_of_running hi]
    have hfits := hagrees i _ hi
    cases h.stands i _ hi with
    | running _ hlane =>
      cases hfits with
      | running least =>
        refine ⟨?_, h.workOn hagrees hconforms habandons hwindow hlifecycle hi⟩
        rintro ⟨j, d⟩ hentry
        exact h.exact_of_next? hagrees hconforms habandons hwindow hi (mem_noteAt.mp hentry).2

/-- Where everyone has ended, nothing is left to be served. -/
theorem seenOf_eq_nil (h : cohort.Follows trace S lanes rest final)
    (hended : ∀ s ∈ cohort, ∃ stop p, s = Stance.ended stop p) (j : PartitionId) :
    System.seenOf j rest = [] := by
  obtain ⟨schedule, hrun⟩ := h.run
  have hnever : ∀ entry ∈ rest, entry.1 ≠ j := by
    cases hs : cohort[j]? with
    | none =>
      refine Lanes.not_served hrun fun lane hlane => ?_
      rw [h.absent j hs] at hlane
      cases hlane
    | some s =>
      obtain ⟨stop, p, rfl⟩ := hended s (List.mem_of_getElem? hs)
      cases h.stands j _ hs with
      | ended _ _ hdone =>
        rcases hdone with ⟨lane, hlane, hdead⟩ | rfl
        · refine Lanes.not_served hrun fun other hother => ?_
          rw [hlane] at hother
          cases hother
          exact hdead
        · simp
  refine List.filterMap_eq_nil_iff.mpr fun entry hentry => ?_
  rw [if_neg (hnever entry hentry)]

theorem ended_of_halted {m : Moment} (h : cohort.Follows trace S lanes rest final)
    (hagrees : cohort.Agrees S m) (hhalted : (Cohort.system M).Halted cohort) :
    ∀ s ∈ cohort, ∃ stop p, s = Stance.ended stop p := by
  have hidle : ∀ (i : Nat) (p : Partition M), cohort[i]? ≠ some (.running .timed p) := by
    intro i p hi
    have := hhalted (some i)
    rw [show (Cohort.system M).step? cohort (some i) = some _ from
      step?_some_iff.mpr ⟨.timed, p, hi, rfl⟩] at this
    cases this
  by_cases hready : ∃ (k : Nat) (q : Party M), cohort[k]? = some (.ready q)
  · exfalso
    obtain ⟨k, q, hk⟩ := hready
    have hfits := hagrees k _ hk
    cases h.stands k _ hk with
    | meeting p hlane =>
      cases hfits with
      | meeting least _ hmeets hbuffers =>
        have hall : ∀ s ∈ cohort, ∃ q, s = .ready q := by
          intro s hs
          obtain ⟨j, hj⟩ := List.mem_iff_getElem?.mp hs
          have hfits' := hagrees j s hj
          cases h.stands j s hj with
          | running r _ => exact absurd hj (hidle j r)
          | meeting r _ => exact ⟨_, rfl⟩
          | ended stop r _ =>
            cases hfits' with
            | gone _ _ _ hleaves =>
              rcases hleaves with halone | ⟨time, hat, hle⟩
              · exact absurd hmeets.many halone
              · exact absurd (hmeets.late time hat) (Nat.not_lt.mpr hle)
        obtain ⟨parties, rfl⟩ := exists_parties hall
        have hne : parties ≠ [] := by
          rintro rfl
          cases hk
        have := hhalted none
        rw [show (Cohort.system M).step? (parties.map Stance.ready) none = some _ from
          exchange?_eq_some_iff.mpr ⟨parties, hne, rfl, rfl⟩] at this
        cases this
  · intro s hs
    obtain ⟨j, hj⟩ := List.mem_iff_getElem?.mp hs
    cases h.stands j s hj with
    | running r _ => exact absurd hj (hidle j r)
    | meeting r _ => exact absurd ⟨j, _, hj⟩ hready
    | ended stop r _ => exact ⟨stop, r, rfl⟩

end Cohort.Follows

end Lookahead
