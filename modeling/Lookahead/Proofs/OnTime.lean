import Lookahead.Proofs.Build
import Lookahead.Proofs.Work

/-!
Partitions that are on time.

In the timed run the next meeting of a partition is one window after the least pending time that all
agreed on last. Unless the scheduling of a clock overflows unnoticed, everything that is pending is
due at or after that time, and since no link to another partition is faster than the window, what
waits in the outboxes is due at or after the meeting (`Partition.OnTime.after`,
`Partition.Buffers.after`).
-/

namespace Lookahead

variable {M : Model}

/-! ## Settings -/

/-- What the partitions of a simulation have in common, and whether it can be relied on that no
clock overflows unnoticed. -/
structure Setting where
  partitions : Nat
  window : Nat
  stopAt : Option Time
  lifecycle : Bool
  exact : Prop

/-- A partition at position `i` in a setting. -/
structure Partition.Conforms (p : Partition M) (S : Setting) (i : Nat) : Prop where
  id : p.id = i
  table : p.routes.partition = i
  outboxes : p.member.outbound.length = S.partitions
  window : p.member.window = S.window
  lifecycle : p.lifecycle = S.lifecycle
  synchronized : p.synchronized = decide (1 < S.partitions)
  stopAt : p.stopAt = S.stopAt
  crossing : ∀ (link : LinkId) (route : Route) (peer : LinkEnd), p.routes.get link = .ok route →
    route.delivery = .across peer →
      S.window ≤ route.latency ∧ peer.partition ≠ i ∧ peer.partition < S.partitions

theorem Partition.Conforms.like {p q : Partition M} {S : Setting} {i : Nat}
    (h : q.Conforms S i) (hlike : p.Like q) : p.Conforms S i where
  id := hlike.id.trans h.id
  table := by rw [hlike.routes, h.table]
  outboxes := hlike.outboxes.trans h.outboxes
  window := hlike.window.trans h.window
  lifecycle := hlike.lifecycle.trans h.lifecycle
  synchronized := hlike.synchronized.trans h.synchronized
  stopAt := hlike.stopAt.trans h.stopAt
  crossing := by
    rw [hlike.routes]
    exact h.crossing

structure Cohort.Conforms (cohort : Cohort M) (S : Setting) : Prop where
  length : cohort.length = S.partitions
  each : ∀ (i : Nat) (s : Stance M), cohort[i]? = some s → s.partition.Conforms S i

theorem Cohort.Conforms.step {cohort next : Cohort M} {S : Setting} (h : cohort.Conforms S)
    {label : Option PartitionId} (hstep : cohort.step? label = some next) : next.Conforms S := by
  refine ⟨(Cohort.length_step? hstep).trans h.length, ?_⟩
  intro j s hs
  obtain ⟨s', hs', hlike⟩ := Cohort.like_step? hstep hs
  exact (h.each j s' hs').like hlike

/-! ## Sends -/

namespace Dispatch

variable {d : Dispatch M} {s : Sent M.Payload}

theorem now_le_due (h : s ∈ d.sends) : d.partition.timeline.now ≤ s.due := by
  have hmade := d.made_sends s h
  have hsent : s.sentAt = d.partition.timeline.now := hmade.sentAt
  unfold Sent.due
  rw [hsent]
  exact Time.le_trans (Time.le_after _ _) (Time.le_after _ _)

/-- A send that leaves is on its way to another partition for a window at least. -/
theorem window_le_due {S : Setting} {i : Nat} (hconforms : d.partition.Conforms S i)
    (h : s ∈ d.sends) (hleaves : s.leaves = true) :
    d.partition.timeline.now.after S.window ≤ s.due ∧ s.target.partition ≠ i ∧
      s.target.partition < S.partitions := by
  have hmade := d.made_sends s h
  have hsent : s.sentAt = d.partition.timeline.now := hmade.sentAt
  cases hdelivery : s.route.delivery with
  | unwired => simp [Sent.leaves, hdelivery] at hleaves
  | within link => simp [Sent.leaves, hdelivery] at hleaves
  | across peer =>
    have htarget : s.target = peer := by simp [Sent.target, hdelivery]
    obtain ⟨hlatency, hother, hlt⟩ := hconforms.crossing _ _ peer hmade.route hdelivery
    rw [htarget]
    refine ⟨?_, hother, hlt⟩
    unfold Sent.due
    rw [hsent]
    exact Time.le_trans (Time.after_mono (Time.le_refl _) hlatency) (Time.le_after _ _)

end Dispatch

/-! ## Agendas -/

def Activity.isSync {π : Type} (a : Scheduled π) : Bool :=
  match a.payload with
  | .sync => true
  | _ => false

def Activity.isStop {π : Type} (a : Scheduled π) : Bool :=
  match a.payload with
  | .stop => true
  | _ => false

theorem Activity.isWork_iff {π : Type} {a : Scheduled π} :
    a.payload.isWork = true ↔ a.isSync = false ∧ a.isStop = false := by
  cases h : a.payload <;> simp [Activity.isSync, Activity.isStop, Action.isWork, h]

theorem Activity.isDelivery_isWork {π : Type} {a : Scheduled π} (h : a.isDelivery = true) :
    a.payload.isWork = true := by
  cases hp : a.payload <;> simp_all [Activity.isDelivery, Action.event?, Action.isWork]

def Activity.ofMeeting {π : Type} (time : Time) : Scheduled π where
  time := time
  priority := Priority.threadSync
  payload := .sync

theorem Timeline.filter_agenda_meeting {π : Type} {kind : Scheduled π → Bool}
    (timeline : Timeline π) (time : Time) (h : kind (.ofMeeting time) = false) :
    (timeline.insert time Priority.threadSync .sync).agenda.filter kind =
      timeline.agenda.filter kind := by
  have hadded : ∀ a ∈ [(Activity.ofMeeting time : Scheduled π)], kind a.unnumbered = false := by
    intro a ha
    obtain rfl := List.mem_singleton.mp ha
    exact h
  exact timeline.filter_agenda_addAll hadded

def Activity.ofStop {π : Type} (time : Time) : Scheduled π where
  time := time
  priority := Priority.stop
  payload := .stop

/-- A partition in the timed run, where `least` was the least pending time of all. -/
structure Partition.OnTime (p : Partition M) (S : Setting) (least : Time) : Prop where
  order : p.timeline.InOrder
  current : S.exact → p.timeline.Current
  pending : S.exact → ∀ a ∈ p.timeline.agenda, least ≤ a.time
  nextSync : p.member.nextSync = least.after S.window
  syncs : p.timeline.agenda.filter Activity.isSync =
    if 1 < S.partitions then [.ofMeeting (least.after S.window)] else []
  stops : p.timeline.agenda.filter Activity.isStop = S.stopAt.toList.map Activity.ofStop

/-- Only deliveries to others wait in the outboxes, and if all is `safe` none of them is due before
`bound`. -/
def Partition.Buffers (p : Partition M) (safe : Prop) (bound : Time) : Prop :=
  ∀ (j : Nat) (box : Outbox M.Payload), p.member.outbound[j]? = some box →
    ∀ a ∈ box.activities,
      j ≠ p.id ∧ (safe → bound ≤ a.time) ∧ a.priority = Priority.event ∧ a.isDelivery = true

/-- What an effect queues in the partition itself is work, and not due in the past. -/
theorem Effect.Of.added {e : Effect M} {d : Dispatch M} (h : e.Of d) :
    ∀ a ∈ Sent.kept e.sends ++ e.ticks,
      (d.Exact → d.partition.timeline.now ≤ a.time) ∧ a.payload.isWork = true := by
  intro a ha
  rcases List.mem_append.mp ha with ha | ha
  · obtain ⟨s, hs, _, rfl⟩ := Sent.mem_kept.mp ha
    rw [h.sends] at hs
    exact ⟨fun _ => Dispatch.now_le_due hs, rfl⟩
  · obtain ⟨hle, id, hid⟩ := h.ticks a ha
    exact ⟨hle, by rw [hid]; rfl⟩

namespace Partition.OnTime

variable {p : Partition M} {S : Setting} {least : Time} {d : Dispatch M} {e : Effect M}

/-- A dispatch is not made before the least pending time. -/
theorem least_le (h : p.OnTime S least) (hsafe : S.exact) (hnext : p.next? = some d) :
    least ≤ d.partition.timeline.now := by
  rw [(agenda_of_next? hnext).2.1]
  exact h.pending hsafe d.activity.unnumbered (mem_agenda_of_next? hnext)

theorem of_next? (h : p.OnTime S least) (hnext : p.next? = some d) :
    d.partition.timeline.InOrder ∧ d.partition.timeline.Current := by
  obtain ⟨timeline, hadvance, hpartition⟩ := next?_eq_some_iff.mp hnext
  rw [hpartition]
  exact ⟨h.order.of_advance hadvance, Timeline.Current.of_advance h.order hadvance⟩

theorem now_le (h : p.OnTime S least) (hsafe : S.exact) (hnext : p.next? = some d) :
    p.timeline.now ≤ d.partition.timeline.now := by
  rw [(agenda_of_next? hnext).2.1]
  exact h.current hsafe d.activity.unnumbered (mem_agenda_of_next? hnext)

/-- A dispatch of an event or a clock keeps a partition on time. -/
theorem after (h : p.OnTime S least) (hnext : p.next? = some d)
    (hwork : d.activity.payload.isWork = true) (heffect : e.Of d) (hexact : S.exact → d.Exact) :
    (d.partition.after e).OnTime S least := by
  obtain ⟨hagenda, hnow, _⟩ := agenda_of_next? hnext
  obtain ⟨horder, hcurrent⟩ := h.of_next? hnext
  have hadded := heffect.added
  obtain ⟨timeline, _, hpartition⟩ := next?_eq_some_iff.mp hnext
  have hmember : d.partition.member = p.member := by rw [hpartition]
  have hfilter : ∀ kind : Scheduled M.Payload → Bool,
      (∀ a : Scheduled M.Payload, a.payload.isWork = true → kind a = false) →
        (d.partition.after e).timeline.agenda.filter kind = p.timeline.agenda.filter kind := by
    intro kind hkind
    have hdone : kind d.activity.unnumbered = false := hkind _ hwork
    rw [hagenda, List.filter_cons_of_neg (by simp [hdone])]
    exact Timeline.filter_agenda_addAll _ fun a ha => hkind _ (hadded a ha).2
  constructor
  case order => exact horder.addAll _
  case current =>
    intro hsafe
    exact hcurrent.addAll fun a ha => (hadded a ha).1 (hexact hsafe)
  case pending =>
    intro hsafe a ha
    rcases Timeline.mem_agenda_addAll.mp ha with ⟨b, hb, rfl⟩ | ha
    · exact Time.le_trans (h.least_le hsafe hnext) ((hadded b hb).1 (hexact hsafe))
    · exact h.pending hsafe a (mem_agenda_of_rest hnext ha)
  case nextSync =>
    have hkept : (d.partition.after e).member.nextSync = d.partition.member.nextSync := rfl
    rw [hkept, hmember]
    exact h.nextSync
  case syncs =>
    rw [hfilter Activity.isSync fun a ha => (Activity.isWork_iff.mp ha).1]
    exact h.syncs
  case stops =>
    rw [hfilter Activity.isStop fun a ha => (Activity.isWork_iff.mp ha).2]
    exact h.stops

end Partition.OnTime

/-- Sends that leave are due at or after the next meeting. -/
theorem Partition.Buffers.after {p : Partition M} {S : Setting} {least : Time} {i : Nat}
    {d : Dispatch M} {e : Effect M} (hbuffers : p.Buffers S.exact (least.after S.window))
    (h : p.OnTime S least) (hconforms : p.Conforms S i) (hnext : p.next? = some d)
    (heffect : e.Of d) : (d.partition.after e).Buffers S.exact (least.after S.window) := by
  intro j box hbox a ha
  have hconforms' := hconforms.like (.next? hnext)
  obtain ⟨timeline, _, hpartition⟩ := next?_eq_some_iff.mp hnext
  have hpost : (Sent.postAll e.sends d.partition.member.outbound)[j]? = some box := hbox
  rw [Sent.getElem?_postAll] at hpost
  obtain ⟨before, hbefore, rfl⟩ := Option.map_eq_some_iff.mp hpost
  rcases List.mem_append.mp ha with ha | ha
  · have hid : (d.partition.after e).id = p.id := by
      rw [hpartition]
      rfl
    rw [hpartition] at hbefore
    rw [hid]
    exact hbuffers j before hbefore a ha
  · obtain ⟨s, hs, hleaves, rfl, rfl⟩ := Sent.mem_bound.mp ha
    rw [heffect.sends] at hs
    obtain ⟨hdue, hother, _⟩ := Dispatch.window_le_due hconforms' hs hleaves
    refine ⟨fun heq => hother (heq.trans hconforms'.id), fun hsafe => ?_, rfl, rfl⟩
    exact Time.le_trans (Time.after_mono (h.least_le hsafe hnext) (Nat.le_refl _)) hdue

end Lookahead
