import Lookahead.Proofs.Interlude
import Lookahead.Proofs.Provenance
import Lookahead.Proofs.Overhead
import Lookahead.Proofs.Tokens

/-!
The run of a ring.

Every dispatch is a meeting or delivers a token, and what a token is worth goes down by one with
every delivery. So a run delivers no more than all tokens are worth at the start, and comes to its
end. No token is ever late, so none is left over at the end, and as many were delivered as all
tokens were worth.
-/

namespace Lookahead.Ring

variable {n window tokens hops i : Nat} {sources : Sources}

/-! ## What is dispatched -/

/-- Everything that partition `i` dispatches: it comes to a meeting, or a token is delivered that is
not late, and sent on. -/
inductive Hops (n window hops i : Nat) (d : Dispatch model) : Prop
  | meeting (h : d.activity.payload = .sync)
  | delivery (event : Event model.Payload) (delay : Nat) (h : d.activity.payload = .deliver event)
      (hway : OnItsWay window hops d.activity.time event) (hdelay : delay ≤ window)
      (hsends : d.sends = passing n window i d.activity.time delay (hopsLeft event))

namespace Hops

variable {d : Dispatch model}

theorem sends_of_meeting (h : d.activity.payload = .sync) : d.sends = [] := by
  unfold Dispatch.sends
  rw [h]
  rfl

theorem onItsWay (h : Hops n window hops i d) {s : Sent model.Payload} (hs : s ∈ d.sends) :
    OnItsWay window hops s.due ⟨s.target.link, s.payload⟩ := by
  cases h with
  | meeting h =>
    rw [sends_of_meeting h] at hs
    cases hs
  | delivery event delay h hway hdelay hsends =>
    rw [hsends] at hs
    exact hway.passing hdelay hs

theorem worth_sends (h : Hops n window hops i d) :
    total (fun s => worth s.activity) d.sends + d.delivered.length = total worth d.delivered := by
  cases h with
  | meeting h =>
    have hdelivered : d.delivered = [] := by
      simp [Dispatch.delivered, Activity.isDelivery, h, Action.event?]
    rw [sends_of_meeting h, hdelivered]
    rfl
  | delivery event delay h hway hdelay hsends =>
    have hdelivered : d.delivered = [d.activity.unnumbered] := by
      simp [Dispatch.delivered, Activity.isDelivery, h, Action.event?]
    have hworth : worth d.activity.unnumbered = hopsLeft event + 1 := by simp [worth, h]
    rw [hsends, worth_passing, hdelivered, total_cons, hworth]
    rfl

theorem duty (h : Hops n window hops i d) :
    (if isDuty (i, d) then 1 else 0) = d.delivered.length := by
  cases h with
  | meeting h =>
    simp [isDuty, Activity.isSync, Dispatch.delivered, Activity.isDelivery, h, Action.event?]
  | delivery event delay h =>
    simp [isDuty, Activity.isSync, Dispatch.delivered, Activity.isDelivery, h, Action.event?]

/-- Everything that is sent leaves, unless the partition is alone. -/
theorem leaving_eq (h : Hops n window hops i d) (hi : i < n) :
    d.leaving = if 1 < n then d.sends.length else 0 := by
  unfold Dispatch.leaving
  cases h with
  | meeting h =>
    rw [sends_of_meeting h]
    split <;> rfl
  | delivery event delay h hway hdelay hsends =>
    rw [hsends]
    exact length_leaving_passing hi

theorem discarded_eq (h : Hops n window hops i d) : d.discarded = 0 := by
  refine Dispatch.discarded_of_ne fun hstop => ?_
  cases h with
  | meeting h =>
    rw [h] at hstop
    cases hstop
  | delivery event delay h =>
    rw [h] at hstop
    cases hstop

end Hops

/-- Whatever partitions are asked to deliver are tokens that are not late. -/
theorem onItsWay_of_asked {log : List (Planned model.Payload)}
    {trace : List (PartitionId × Dispatch model)} (hlog : ∀ e ∈ log, Starts window hops e)
    (hseen : ∀ entry ∈ trace, Hops n window hops entry.1 entry.2) {j : PartitionId}
    {a : Scheduled model.Payload} (ha : a ∈ asked log trace j) :
    ∃ event, a.payload = .deliver event ∧ OnItsWay window hops a.time event := by
  rcases mem_asked.mp ha with ⟨e, he, -, rfl⟩ | ⟨entry, hentry, s, hs, -, rfl⟩
  · have hstarts := hlog e he
    have hhops : hopsLeft ⟨e.target.link, e.payload⟩ = hops := by
      unfold hopsLeft
      rw [hstarts.token]
    refine ⟨⟨e.target.link, e.payload⟩, rfl, Or.inr hstarts.link, Nat.le_of_eq hhops, ?_⟩
    rw [hhops]
    exact Nat.lt_of_lt_of_le hstarts.soon (Nat.le_add_right _ _)
  · exact ⟨_, rfl, (hseen entry hentry).onItsWay hs⟩

/-! ## One partition -/

/-- Where a partition stands that began as `p` and has made these dispatches. -/
inductive Rolls (n window i : Nat) (p : Partition model) (seen : List (Dispatch model)) :
    Stance model → Prop
  | running (q : Partition model) (h : Circling n window i q) (hcarries : p.Carries seen q)
      (hahead : ∀ a ∈ q.timeline.agenda, a.isSync = true ∨ a.isDelivery = true) :
      Rolls n window i p seen (.running .timed q)
  | meeting (q : Partition model) (h : Circling n window i q) (hcarries : p.Carries seen q)
      (hahead : ∀ a ∈ q.timeline.agenda, a.isSync = true ∨ a.isDelivery = true) :
      Rolls n window i p seen (.ready ⟨.timed, q, .epoch⟩)
  | ended (stop : StopReason) (q : Partition model) (hcarries : p.Carries seen q)
      (hboxes : total Outbox.size q.member.outbound = 0)
      (hahead : ∀ a ∈ q.timeline.agenda, a.isDelivery = true) :
      Rolls n window i p seen (.ended stop q)

namespace Rolls

variable {p q : Partition model} {seen : List (Dispatch model)} {S : Setting} {m : Moment}

theorem workOn (h : Rolls n window i p seen (.running .timed q)) (hi : i < n)
    (hfits : Fits S m (.running .timed q)) (hconforms : q.Conforms S i) (hS : S.partitions = n)
    (hway : ∀ a ∈ q.timeline.agenda, a.isDelivery = true →
      ∃ event, a.payload = .deliver event ∧ OnItsWay window hops a.time event) :
    Rolls n window i p (seen ++ q.next?.toList) (Thread.workOn .timed q).stance ∧
      ∀ d ∈ q.next?.toList, Hops n window hops i d := by
  cases h with
  | running _ hcircling hcarries hahead =>
  -- All work that there is are tokens.
  have htoken : ∀ {d : Dispatch model}, q.next? = some d → d.activity.payload.isWork = true →
      ∃ event, d.activity.payload = .deliver event ∧
        OnItsWay window hops d.activity.time event := by
    intro d hnext hwork
    have hsync : d.activity.unnumbered.isSync = false := (Activity.isWork_iff.mp hwork).1
    rcases hahead _ (Partition.mem_agenda_of_next? hnext) with hyes | hdelivery
    · rw [hsync] at hyes
      cases hyes
    · exact hway d.activity.unnumbered (Partition.mem_agenda_of_next? hnext) hdelivery
  have hworks := Thread.works_workOn q
  generalize Thread.workOn .timed q = t at hworks
  cases hworks with
  | idle hnext =>
    rw [hnext, Option.toList_none, List.append_nil, Thread.stance_finishTimed _ hcircling.lifecycle]
    refine ⟨.ended .exhausted q hcarries ?_ ?_, fun d hd => absurd hd List.not_mem_nil⟩
    -- Only a partition that is alone runs out of activities, and it has nobody to send to.
    · cases hfits with
      | running least _ hontime hbuffers =>
        refine total_size_eq_zero fun j => ?_
        have hnone := hbuffers.alone hconforms (hS ▸ hi) (hontime.alone_of_idle hnext) j
        rwa [Partition.outboxFor, List.map_eq_nil_iff] at hnone
    · rw [Partition.next?_eq_none_iff.mp hnext]
      exact List.forall_mem_nil _
  | work d e hnext hwork heffect hfault =>
    obtain ⟨event, hevent, honway⟩ := htoken hnext hwork
    obtain ⟨⟨delay, hdelay, hsends⟩, -, hcircling', htimeline⟩ :=
      hcircling.after hi hnext hevent honway.link heffect
    rw [hnext]
    refine ⟨.running _ hcircling' (hcarries.work hnext hwork heffect hfault) ?_, ?_⟩
    · intro a ha
      rw [htimeline] at ha
      rcases Timeline.mem_agenda_addAll.mp ha with ⟨b, hb, rfl⟩ | ha
      · obtain ⟨s, -, -, rfl⟩ := Sent.mem_kept.mp hb
        exact Or.inr rfl
      · exact hahead a (Partition.mem_agenda_of_rest hnext ha)
    · exact List.forall_mem_singleton.mpr (.delivery event delay hevent honway hdelay hsends)
  | failed d e err hnext hwork heffect hfault =>
    obtain ⟨event, hevent, honway⟩ := htoken hnext hwork
    obtain ⟨-, hnone, -⟩ := hcircling.after hi hnext hevent honway.link heffect
    rw [hfault] at hnone
    cases hnone
  | sync d hnext hsync =>
    have hrest := hcarries.rest hnext (by rw [hsync]; rfl) (by simp [hsync])
    rw [hnext]
    refine ⟨.meeting _ ?_ (hrest.of_eq rfl rfl rfl rfl rfl) ?_, ?_⟩
    · exact (hcircling.of_next? hnext).of_like (.beginRound .timed d.partition .epoch) rfl rfl rfl
    · exact fun a ha => hahead a (Partition.mem_agenda_of_rest hnext ha)
    · exact List.forall_mem_singleton.mpr (.meeting hsync)
  | stop d hnext hstop =>
    have hneither : d.activity.unnumbered.isSync = false ∧
        d.activity.unnumbered.isDelivery = false := by
      simp [Activity.isSync, Activity.isDelivery, hstop, Action.event?]
    rcases hahead _ (Partition.mem_agenda_of_next? hnext) with hyes | hyes
    · rw [hneither.1] at hyes
      cases hyes
    · rw [hneither.2] at hyes
      cases hyes

/-- After a meeting nothing but tokens is due. -/
theorem isDelivery_of_meeting (h : Rolls n window i p seen (.ready ⟨.timed, q, .epoch⟩))
    (hsyncs : q.timeline.agenda.filter Activity.isSync = [])
    {incoming : List (Scheduled model.Payload)}
    (hincoming : ∀ a ∈ incoming, a.isDelivery = true) :
    ∀ a ∈ (q.timeline.addAll incoming).agenda, a.isDelivery = true := by
  cases h with
  | meeting _ hcircling hcarries hahead =>
  intro a ha
  rcases Timeline.mem_agenda_addAll.mp ha with ⟨b, hb, rfl⟩ | ha
  · exact hincoming b hb
  · refine (hahead a ha).resolve_left fun hsync => ?_
    have hmem := List.mem_filter.mpr ⟨ha, hsync⟩
    rw [hsyncs] at hmem
    cases hmem

/-- A meeting leads on, or to the end if nothing is left to do. -/
theorem conclude (h : Rolls n window i p seen (.ready ⟨.timed, q, .epoch⟩))
    (hsyncs : q.timeline.agenda.filter Activity.isSync = [])
    {incoming : List (Scheduled model.Payload)}
    (hincoming : ∀ a ∈ incoming, a.isDelivery = true) (least : Time) :
    Rolls n window i p seen (Party.conclude ⟨.timed, q, .epoch⟩ incoming least).stance := by
  have hdeliveries := h.isDelivery_of_meeting hsyncs hincoming
  cases h with
  | meeting _ hcircling hcarries hahead =>
  have htaken := hcarries.taken incoming
  have hlike := Partition.Like.taken ⟨.timed, q, .epoch⟩ incoming
  unfold Party.conclude
  dsimp only
  split
  · rw [Thread.stance_finishTimed]
    · exact .ended .drained _ (htaken.of_eq rfl rfl rfl rfl rfl) (total_size_empty _) hdeliveries
    · exact hlike.lifecycle.trans hcircling.lifecycle
  · refine .running _ ?_ (htaken.of_eq rfl rfl rfl rfl rfl) ?_
    · exact (hcircling.of_like hlike rfl rfl rfl).of_like ⟨rfl, rfl, rfl, rfl, rfl, rfl, rfl, rfl⟩
        rfl rfl rfl
    · intro a ha
      rcases Timeline.mem_agenda_add.mp ha with rfl | ha
      · exact Or.inl rfl
      · exact Or.inr (hdeliveries a ha)

end Rolls

/-! ## The whole ring -/

section

variable {log : List (Planned model.Payload)} {labels : List (Option PartitionId)}
  {trace : List (PartitionId × Dispatch model)} {cohort : Cohort model}

/-- Where no stop is configured, only the first meeting is added at the start. -/
theorem mem_agenda_start {p : Partition model} (hstop : p.stopAt = none)
    {a : Scheduled model.Payload} (ha : a ∈ p.start.timeline.agenda) :
    a.isSync = true ∨ a ∈ p.timeline.agenda := by
  unfold Partition.start at ha
  simp only [hstop] at ha
  split at ha
  · rcases Timeline.mem_agenda_add.mp ha with rfl | ha
    · exact Or.inl rfl
    · exact Or.inr ha
  · exact Or.inr ha

theorem rolls_start {s : Stance model} {i : Nat}
    (hs : (circle n window tokens hops sources).cohort[i]? = some s) :
    ∃ p, (circle n window tokens hops sources).partitions[i]? = some p ∧
      Rolls n window i p.start [] s := by
  obtain ⟨p, hp, rfl⟩ := Simulation.exists_stance_start hs
  have hcircling := Circling.start hp
  have hstance : (Thread.start p).stance = .running .timed p.start := by
    unfold Thread.start
    rw [show p.lifecycle = false from hcircling.lifecycle]
    rfl
  rw [hstance]
  obtain ⟨-, rfl⟩ := eq_partition hp
  refine ⟨_, hp, .running _ hcircling (.start rfl (total_replicate _ _ _)) fun a ha => ?_⟩
  exact (mem_agenda_start rfl ha).imp_right (isDelivery_of_mem_startTimeline a)

variable (hb : (builder n window tokens hops sources).Made log)

include hb

theorem places
    (hrun : (Cohort.system model).Run (circle n window tokens hops sources).cohort labels trace
      cohort) : ∀ entry ∈ trace, entry.1 < n := by
  intro entry hentry
  have hlt := (Simulation.dispatched_run hb build_builder hrun False.elim entry hentry).1
  rwa [size_circle] at hlt

/-- Where everyone is ready, all have come to the same meeting. -/
theorem exists_meeting_run {parties : List (Party model)} (hne : parties ≠ [])
    (hrun : (Cohort.system model).Run (circle n window tokens hops sources).cohort labels trace
      (parties.map Stance.ready)) :
    ∃ least, ∀ q ∈ parties, q.work = .timed ∧ q.kind = .epoch ∧
      q.partition.Meets ((builder n window tokens hops sources).setting
        (circle n window tokens hops sources)) least ∧
      q.partition.Buffers False (least.after window) := by
  obtain ⟨hconforms, m, hagrees⟩ := Simulation.agrees_run hb build_builder hrun
  have hplain := Simulation.plain_run hb build_builder lifecycle_builder hrun
  refine Cohort.exists_meeting hne (fun q hq => ?_) hagrees
  obtain ⟨j, hj⟩ := List.mem_iff_getElem?.mp hq
  exact hplain j _ (Cohort.getElem?_ready hj)

omit hb in
theorem exact_circle (trace : List (PartitionId × Dispatch model)) :
    ∀ entry ∈ trace, entry.2.Exact :=
  fun _ _ => Dispatch.exact_of_panics rfl _

theorem warranted_circle
    (hrun : (Cohort.system model).Run (circle n window tokens hops sources).cohort labels trace
      cohort) {j : Nat} {s : Stance model} (hs : cohort[j]? = some s)
    {a : Scheduled model.Payload} (ha : a ∈ s.partition.timeline.agenda)
    (hdelivery : a.isDelivery = true) : a ∈ asked log trace j := by
  obtain ⟨b, hasked, _, hsame⟩ := Simulation.warranted_run hb build_builder hrun
    (fun _ : True => exact_circle trace) j s hs a ha hdelivery
  rw [← hsame trivial]
  exact hasked

variable (hlog : ∀ e ∈ log, Starts window hops e)

include hlog

/-- Wherever a run of the ring gets to, tokens are delivered and sent on. -/
theorem rolls_run
    (hrun : (Cohort.system model).Run (circle n window tokens hops sources).cohort labels trace
      cohort) :
    (∀ entry ∈ trace, Hops n window hops entry.1 entry.2) ∧
      ∀ (i : Nat) (s : Stance model), cohort[i]? = some s →
        ∃ p, (circle n window tokens hops sources).partitions[i]? = some p ∧
          Rolls n window i p.start (System.seenOf i trace) s := by
  induction hrun with
  | refl => exact ⟨List.forall_mem_nil _, fun i s hs => rolls_start hs⟩
  | @step schedule seen x y label hfront hstep ih =>
    obtain ⟨hhops, hrolls⟩ := ih
    obtain ⟨hconforms, m, hagrees⟩ := Simulation.agrees_run hb build_builder hfront
    cases label with
    | some i =>
      obtain ⟨work, q, hi, rfl⟩ := Cohort.step?_some_iff.mp hstep
      obtain ⟨p, hp, hstands⟩ := hrolls i _ hi
      obtain rfl : work = .timed := by
        cases hstands
        rfl
      have hlt : i < n := (eq_partition hp).1
      have hway : ∀ a ∈ q.timeline.agenda, a.isDelivery = true →
          ∃ event, a.payload = .deliver event ∧ OnItsWay window hops a.time event :=
        fun a ha hdelivery =>
          onItsWay_of_asked hlog hhops (warranted_circle hb hfront hi ha hdelivery)
      obtain ⟨hnext, hdispatch⟩ := hstands.workOn hlt (hagrees i _ hi) (hconforms.each i _ hi)
        size_circle hway
      rw [Cohort.note_of_running hi]
      refine ⟨List.forall_mem_append.mpr ⟨hhops, fun entry hentry => ?_⟩, ?_⟩
      · obtain ⟨hfirst, hsecond⟩ := mem_noteAt.mp hentry
        rw [hfirst]
        exact hdispatch _ (Option.mem_toList.mpr hsecond)
      · refine forall_set (fun j s hne hs => ?_) ⟨p, hp, ?_⟩
        · rw [System.seenOf_append, seenOf_noteAt_of_ne (Ne.symm hne), List.append_nil]
          exact hrolls j s hs
        · rw [System.seenOf_append, seenOf_noteAt_self]
          exact hnext
    | none =>
      obtain ⟨parties, hne, rfl, rfl⟩ := Cohort.exchange?_eq_some_iff.mp hstep
      obtain ⟨least, hmeets⟩ := exists_meeting_run hb hne hfront
      have hincoming := Party.mem_incoming fun q hq => (hmeets q hq).2
      refine ⟨by simpa [Cohort.system] using hhops, fun j s hs => ?_⟩
      obtain ⟨q, hq, rfl⟩ := Cohort.getElem?_exchanged hs
      obtain ⟨p, hp, hstands⟩ := hrolls j _ (Cohort.getElem?_ready hq)
      obtain ⟨hwork, hkind, hmeeting, -⟩ := hmeets q (List.mem_of_getElem? hq)
      obtain ⟨work, r, kind⟩ := q
      cases hwork
      cases hkind
      have hconcluded := hstands.conclude hmeeting.syncs (fun a ha => (hincoming j a ha).2.2)
        (Party.least parties)
      exact ⟨p, hp, by simpa [Cohort.system] using hconcluded⟩

end

/-! ## How much there is to do -/

/-- No token comes to this time. -/
def horizon (window hops : Nat) : Nat := 4 * window + 2 * window * hops

theorem OnItsWay.lt_horizon {time : Time} {event : Event model.Payload}
    (h : OnItsWay window hops time event) : time.ticks < horizon window hops := by
  refine Nat.lt_of_lt_of_le h.time_lt (Nat.add_le_add_left (Nat.mul_le_mul_left _ ?_) _)
  exact Nat.sub_le _ _

section

variable {log : List (Planned model.Payload)} {labels : List (Option PartitionId)}
  {trace : List (PartitionId × Dispatch model)} {cohort : Cohort model}

variable (hb : (builder n window tokens hops sources).Made log)
  (hlog : ∀ e ∈ log, Starts window hops e)
  (hrun : (Cohort.system model).Run (circle n window tokens hops sources).cohort labels trace
    cohort)

include hb hrun

theorem total_asked_circle (figure : Scheduled model.Payload → Nat) :
    total (fun j => total figure (asked log trace j)) (List.range n) =
      total (fun e => figure e.activity) log +
        total (fun entry => total (fun s => figure s.activity) entry.2.sends) trace := by
  have htargets : ∀ e ∈ log, e.target.partition < n := by
    intro e he
    have hlt := hb.target_lt e he
    rwa [← Simulation.size_eq build_builder, size_circle] at hlt
  have hsends : ∀ entry ∈ trace, ∀ s ∈ entry.2.sends, s.target.partition < n := by
    intro entry hentry s hs
    have hlt := (Simulation.proper_sends hb build_builder hrun hentry hs).2
    rwa [size_circle] at hlt
  have hasked := Simulation.total_asked figure htargets hsends
  rwa [total_flatMap] at hasked

include hlog

theorem accounts_circle : cohort.Accounts True log trace := by
  rcases Simulation.accounts_run hb build_builder hrun fun _ : True => exact_circle trace with
    ⟨i, e, p, hfailed⟩ | haccounts
  · obtain ⟨_, -, hstands⟩ := (rolls_run hb hlog hrun).2 i _ hfailed
    cases hstands
  · exact haccounts

/-- Whatever has been delivered was asked for; the rest may still be on its way. -/
theorem total_delivered_le (figure : Scheduled model.Payload → Nat) :
    total (fun entry => total figure entry.2.delivered) trace ≤
      total (fun e => figure e.activity) log +
        total (fun entry => total (fun s => figure s.activity) entry.2.sends) trace := by
  obtain ⟨hconforms, -⟩ := Simulation.agrees_run hb build_builder hrun
  rw [← total_asked_circle hb hrun, ← Simulation.total_deliveries figure (places hb hrun)]
  refine total_mono fun j hj => ?_
  have hlt : j < cohort.length := by
    rw [hconforms.length]
    exact Nat.lt_of_lt_of_eq (List.mem_range.mp hj) size_circle.symm
  have hperm : (deliveries trace j ++ (cohort[j].partition.expected ++
      ((cohort.flatMap fun r => r.transit j) ++ abandoned trace j))).Perm (asked log trace j) := by
    refine perm_of_countP fun kind => ?_
    have hconserved := (accounts_circle hb hlog hrun).conserved j _
      (List.getElem?_eq_getElem hlt) kind (Or.inl trivial)
    simp only [List.countP_append]
    omega
  rw [← total_perm figure hperm, total_append]
  exact Nat.le_add_right ..

omit hb hrun in
/-- Every token is worth its hops and one more where it starts. -/
theorem worth_log : total (fun e => worth e.activity) log = log.length * (hops + 1) := by
  rw [← total_const]
  refine total_congr fun e he => ?_
  unfold worth Planned.activity hopsLeft
  rw [(hlog e he).token]

/-- A delivery takes away one from what a token is worth. -/
theorem worth_delivered :
    total (fun entry => total worth entry.2.delivered) trace =
      total (fun entry => total (fun s => worth s.activity) entry.2.sends) trace +
        total (fun entry => entry.2.delivered.length) trace := by
  rw [← total_add]
  exact total_congr fun entry hentry =>
    ((rolls_run hb hlog hrun).1 entry hentry).worth_sends.symm

/-- So partitions have no more to do than all tokens are worth at the start. -/
theorem countP_isDuty_circle : trace.countP isDuty ≤ log.length * (hops + 1) := by
  have hle := total_delivered_le hb hlog hrun worth
  rw [worth_log hlog, worth_delivered hb hlog hrun] at hle
  have hduties : trace.countP isDuty = total (fun entry => entry.2.delivered.length) trace := by
    rw [countP_eq_total]
    exact total_congr fun entry hentry => ((rolls_run hb hlog hrun).1 entry hentry).duty
  omega

end

/-! ## What a run comes to -/

section

variable {log : List (Planned model.Payload)} {labels : List (Option PartitionId)}
  {trace : List (PartitionId × Dispatch model)} {cohort : Cohort model} {machine : Machine model}

variable (hb : (builder n window tokens hops sources).Made log)
  (hlog : ∀ e ∈ log, Starts window hops e)
  (hreaches : (circle n window tokens hops sources).Reaches trace machine)

include hb hlog hreaches

/-- Nobody fails, so where a run of a ring cannot be continued it has succeeded. -/
theorem succeeded_of_halted (hhalted : (Machine.system model).Halted machine) :
    machine.Succeeded := by
  obtain ⟨labels, cohort, hrun, htracks, -⟩ := hreaches.cohort hb build_builder
  have hreturned := hreaches.returned hb build_builder hhalted
  have hfailed : ∀ (i : Nat) (e : RunError) (p : Partition model),
      cohort[i]? ≠ some (.failed e p) := by
    intro i e p hs
    obtain ⟨_, -, hstands⟩ := (rolls_run hb hlog hrun).2 i _ hs
    cases hstands
  intro t ht
  obtain ⟨i, hi⟩ := List.mem_iff_getElem?.mp ht
  rcases htracks.left_cases hi with
    ⟨-, hnone⟩ | ⟨stop, p, rfl, -⟩ | ⟨e, p, -, -, hs⟩ | ⟨q, -, -, j, e, p, hs⟩
  · have hsome := hreturned t ht
    rw [hnone] at hsome
    cases hsome
  · exact ⟨stop, p, rfl⟩
  · exact absurd hs (hfailed i e p)
  · exact absurd hs (hfailed j e p)

variable (hsucceeded : machine.Succeeded)

include hsucceeded

theorem rolls_of_succeeded {i : Nat} {t : Thread model} (ht : machine.threads[i]? = some t) :
    ∃ p, (circle n window tokens hops sources).partitions[i]? = some p ∧
      Rolls n window i p.start (System.seenOf i trace) t.stance := by
  obtain ⟨labels, cohort, hrun, htracks, -⟩ := hreaches.cohort hb build_builder
  have hs : cohort[i]? = some t.stance := by
    rw [htracks.cohort_of_succeeded hsucceeded, List.getElem?_map, ht]
    rfl
  exact (rolls_run hb hlog hrun).2 i _ hs

/-- The sends of all partitions are handed over, unless there is only one. -/
theorem total_exchanged :
    total (fun t => t.partition.member.exchanged) machine.threads =
      if 1 < n then total (fun entry => entry.2.sends.length) trace else 0 := by
  obtain ⟨labels, cohort, hrun, -⟩ := hreaches.cohort hb build_builder
  have hhops := (rolls_run hb hlog hrun).1
  have hplaces := places hb hrun
  have heach : ∀ (i : Nat) (t : Thread model), machine.threads[i]? = some t →
      t.partition.member.exchanged = total Dispatch.leaving (System.seenOf i trace) := by
    intro i t ht
    obtain ⟨p, hp, hstands⟩ := rolls_of_succeeded hb hlog hreaches hsucceeded ht
    obtain ⟨stop, q, rfl⟩ := hsucceeded t (List.mem_of_getElem? ht)
    have hdiscarded : total Dispatch.discarded (System.seenOf i trace) = 0 := by
      rw [total_congr fun d hd => (hhops (i, d) (System.mem_seenOf.mp hd)).discarded_eq,
        total_zero]
    obtain ⟨-, rfl⟩ := eq_partition hp
    cases hstands with
    | ended _ _ hcarries hboxes =>
      have hexchanged := hcarries.exchanged
      rw [hboxes, hdiscarded] at hexchanged
      exact hexchanged.trans (Nat.zero_add _)
  rw [total_eq_range _ heach, hreaches.length_threads, size_circle,
    System.total_seenOf Dispatch.leaving hplaces,
    total_congr fun entry hentry => (hhops entry hentry).leaving_eq (hplaces entry hentry)]
  split
  · rfl
  · exact total_zero trace

variable (hlast : horizon window hops < lastTick)

include hlast

/-- No token is left over: whatever is left is not due before the end, and no token is that late. -/
theorem left_eq_nil {j : Nat} {t : Thread model} (ht : machine.threads[j]? = some t) :
    machine.left trace j = [] := by
  obtain ⟨labels, cohort, hrun, -⟩ := hreaches.cohort hb build_builder
  obtain ⟨hperm, hleft, -⟩ :=
    Simulation.balance hb build_builder hreaches (exact_circle trace) hsucceeded ht
  refine List.eq_nil_iff_forall_not_mem.mpr fun a ha => ?_
  have hasked := hperm.mem_iff.mp (List.mem_append_right _ ha)
  obtain ⟨event, -, hway⟩ := onItsWay_of_asked hlog (rolls_run hb hlog hrun).1 hasked
  have hsoon : a.time < Time.never := Nat.lt_trans hway.lt_horizon hlast
  have hdue : ((builder n window tokens hops sources).setting
      (circle n window tokens hops sources)).dueBeforeEnd a = true := by
    unfold Setting.dueBeforeEnd
    rw [decide_eq_true hsoon]
    rfl
  rw [hleft a ha] at hdue
  cases hdue

/-- Everything that the partitions of a ring are asked to deliver is delivered. -/
theorem total_delivered (figure : Scheduled model.Payload → Nat) :
    total (fun entry => total figure entry.2.delivered) trace =
      total (fun e => figure e.activity) log +
        total (fun entry => total (fun s => figure s.activity) entry.2.sends) trace := by
  obtain ⟨labels, cohort, hrun, -⟩ := hreaches.cohort hb build_builder
  rw [← total_asked_circle hb hrun, ← Simulation.total_deliveries figure (places hb hrun)]
  refine total_congr fun j hj => total_perm figure ?_
  have hlt : j < machine.threads.length := by
    rw [hreaches.length_threads, size_circle]
    exact List.mem_range.mp hj
  have ht := List.getElem?_eq_getElem hlt
  have hperm := (Simulation.balance hb build_builder hreaches (exact_circle trace) hsucceeded ht).1
  rwa [left_eq_nil hb hlog hreaches hsucceeded hlast ht, List.append_nil] at hperm

/-- Every token is delivered once where it starts and once for each of its hops, for each of which
it has been sent. -/
theorem count_deliveries :
    total (fun entry => entry.2.delivered.length) trace = log.length * (hops + 1) ∧
      total (fun entry => entry.2.sends.length) trace = log.length * hops := by
  obtain ⟨labels, cohort, hrun, -⟩ := hreaches.cohort hb build_builder
  have hall := total_delivered hb hlog hreaches hsucceeded hlast
  -- Everything is counted twice, by what it is worth and as one.
  have hworth := hall worth
  have hone := hall fun _ => 1
  have hpassed := worth_delivered hb hlog hrun
  simp only [← length_eq_total] at hone
  rw [worth_log hlog] at hworth
  have hdelivered : total (fun entry => entry.2.delivered.length) trace =
      log.length * (hops + 1) := by
    omega
  refine ⟨hdelivered, ?_⟩
  rw [Nat.mul_succ] at hdelivered
  omega

/-- When a run has succeeded nothing is pending. -/
theorem pending_eq_zero :
    ∀ r ∈ machine.threads.filterMap Machine.reportOf?, r.pending = 0 := by
  intro r hr
  obtain ⟨t, hmem, hreport⟩ := List.mem_filterMap.mp hr
  obtain ⟨i, ht⟩ := List.mem_iff_getElem?.mp hmem
  obtain ⟨p, -, hstands⟩ := rolls_of_succeeded hb hlog hreaches hsucceeded ht
  have hleft := left_eq_nil hb hlog hreaches hsucceeded hlast ht
  obtain ⟨stop, q, rfl⟩ := hsucceeded t hmem
  obtain rfl : q.report stop = r := Option.some.inj hreport
  unfold Machine.left at hleft
  rw [ht] at hleft
  have hexpected : q.expected = [] := (List.append_eq_nil_iff.mp hleft).1
  have hagenda : q.timeline.agenda = [] := by
    cases hstands with
    | ended _ _ hcarries hboxes hahead =>
      rwa [Partition.expected, List.filter_eq_self.mpr hahead] at hexpected
  exact congrArg List.length (List.map_eq_nil_iff.mp hagenda)

end

/-- **A ring runs all its hops.** If no token can come to the end of time then a ring can be built
from any random numbers, and every run of it comes to its end and succeeds. Each token has been
delivered where it starts and after each of its hops; all hops have been handed over, unless the
ring is only one partition; and nothing is pending anywhere. -/
theorem runs_every_hop {n window tokens hops : Nat} (sources : Sources) (hn : 1 ≤ n)
    (hwindow : 1 ≤ window) (hlast : 4 * window + 2 * window * hops < lastTick) :
    ∃ simulation, Ring.simulation n window tokens hops sources = .ok simulation ∧
      (∃ bound, ∀ schedule trace machine,
        (Machine.system model).Run simulation.machine schedule trace machine →
          schedule.length ≤ bound) ∧
      ∀ trace machine, simulation.Reaches trace machine → (Machine.system model).Halted machine →
        ∃ report, machine.outcome? simulation.window = some (.ok report) ∧
          report.events = n * tokens * (hops + 1) ∧
          report.exchanged = (if 2 ≤ n then n * tokens * hops else 0) ∧
          report.partitions.length = n ∧ ∀ r ∈ report.partitions, r.pending = 0 := by
  have hraised : Raised window hops (n * tokens) (builder n window tokens hops sources) :=
    raised_builder hn hwindow
  obtain ⟨log, hb, hlength, hlog⟩ := hraised
  refine ⟨_, simulation_eq_circle hn hwindow, ?_, fun trace machine hreaches hhalted => ?_⟩
  · exact Simulation.exists_bound_of_duties hb build_builder lifecycle_builder _
      fun _ _ _ hrun => countP_isDuty_circle hb hlog hrun
  · have hsucceeded := succeeded_of_halted hb hlog hreaches hhalted
    obtain ⟨hdelivered, hsent⟩ := count_deliveries hb hlog hreaches hsucceeded hlast
    obtain ⟨labels, cohort, hrun, -⟩ := hreaches.cohort hb build_builder
    refine ⟨_, Machine.outcome?_eq_ok_iff.mpr ⟨hsucceeded, rfl⟩, ?_, ?_, ?_,
      pending_eq_zero hb hlog hreaches hsucceeded hlast⟩
    · have hevents : total (fun t => t.partition.tally.events) machine.threads =
          total (fun j => (deliveries trace j).length) (List.range machine.threads.length) :=
        total_eq_range _ fun j t ht =>
          (Simulation.balance hb build_builder hreaches (exact_circle trace) hsucceeded ht).2.2
      have hplaces := Simulation.total_deliveries (fun _ => 1) (places hb hrun)
      simp only [← length_eq_total] at hplaces
      unfold RunReport.events
      rw [Simulation.total_report (f := fun p => p.tally.events) (fun _ _ => rfl) hsucceeded,
        hevents, hreaches.length_threads, size_circle, hplaces, hdelivered, hlength]
    · unfold RunReport.exchanged
      rw [Simulation.total_report (f := fun p => p.member.exchanged) (fun _ _ => rfl) hsucceeded,
        total_exchanged hb hlog hreaches hsucceeded, hsent, hlength]
      rfl
    · exact hsucceeded.length_reports.trans (hreaches.length_threads.trans size_circle)

/-- A ring of three partitions with four tokens each that make five hops: every token is delivered
six times. -/
theorem runs_every_hop_three : 1 ≤ 3 ∧ 1 ≤ 10 ∧ 4 * 10 + 2 * 10 * 5 < lastTick ∧
    ∃ simulation, Ring.simulation 3 10 4 5 (.ofSeed 42) = .ok simulation ∧
      (∃ bound, ∀ schedule trace machine,
        (Machine.system model).Run simulation.machine schedule trace machine →
          schedule.length ≤ bound) ∧
      ∀ trace machine, simulation.Reaches trace machine → (Machine.system model).Halted machine →
        ∃ report, machine.outcome? simulation.window = some (.ok report) ∧
          report.events = 72 ∧ report.exchanged = 60 ∧
          report.partitions.length = 3 ∧ ∀ r ∈ report.partitions, r.pending = 0 :=
  ⟨by decide, by decide, by decide,
    runs_every_hop (.ofSeed 42) (by decide) (by decide) (by decide)⟩

end Lookahead.Ring
