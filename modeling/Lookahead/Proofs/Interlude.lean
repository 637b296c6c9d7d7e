import Lookahead.Proofs.Conservation
import Lookahead.Proofs.Phases

/-!
The timed run between the two untimed stages.

Nothing that belongs to the untimed stages is touched by it, and its own figures come from its
dispatches alone (`Stance.Between.work`): it counts the cycles of clocks that were dispatched, and
what was handed over are the sends that left, without those that were discarded at the stop.
-/

namespace Lookahead

variable {M : Model}

namespace Dispatch

def leaving (d : Dispatch M) : Nat := (d.sends.filter Sent.leaves).length

/-- How many sends were still to be handed over when a dispatch ended the timed run. -/
def discarded (d : Dispatch M) : Nat :=
  match d.activity.payload with
  | .stop => total Outbox.size d.partition.member.outbound
  | _ => 0

theorem discarded_of_ne {d : Dispatch M} (h : d.activity.payload ≠ .stop) : d.discarded = 0 := by
  unfold discarded
  split
  · rename_i hstop
    exact absurd hstop h
  · rfl

/-- Only events and clocks have handlers that send. -/
theorem rest {d : Dispatch M} (h : d.activity.payload.isWork = false) :
    d.leaving = 0 ∧ d.cycles = 0 := by
  unfold leaving cycles sends Inside.sends
  cases hpayload : d.activity.payload <;> simp_all [Action.isWork]

end Dispatch

/-! ## Outboxes -/

theorem total_size_modify {π : Type} {outbound : List (Outbox π)} {j : Nat}
    (hj : j < outbound.length) (a : Scheduled π) :
    total Outbox.size (outbound.modify j fun box => box.append a) =
      total Outbox.size outbound + 1 := by
  induction outbound generalizing j with
  | nil => cases hj
  | cons box rest ih =>
    cases j with
    | zero =>
      simp [Outbox.size, Outbox.append]
      omega
    | succ j =>
      have hrest := ih (Nat.lt_of_succ_lt_succ hj)
      simp only [List.modify_succ_cons, total_cons, hrest]
      omega

theorem total_size_postAll {π : Type} {sends : List (Sent π)} {outbound : List (Outbox π)}
    (h : ∀ s ∈ sends, s.leaves = true → s.target.partition < outbound.length) :
    total Outbox.size (Sent.postAll sends outbound) =
      total Outbox.size outbound + (sends.filter Sent.leaves).length := by
  induction sends generalizing outbound with
  | nil => rfl
  | cons s rest ih =>
    have hpost : (s.post outbound).length = outbound.length := Sent.length_postAll [s] outbound
    have hrest := @ih (s.post outbound) fun r hr hleaves => by
      rw [hpost]
      exact h r (List.mem_cons_of_mem _ hr) hleaves
    show total Outbox.size (Sent.postAll rest (s.post outbound)) = _
    rw [hrest]
    unfold Sent.post
    split
    · rename_i hleaves
      rw [total_size_modify (h s (List.mem_cons_self ..) hleaves), List.filter_cons_of_pos hleaves,
        List.length_cons]
      omega
    · rename_i hstays
      rw [List.filter_cons_of_neg hstays]

theorem total_size_eq_zero {π : Type} {outbound : List (Outbox π)}
    (h : ∀ j : PartitionId, (outbound[j]?.getD {}).activities = []) :
    total Outbox.size outbound = 0 := by
  refine Nat.eq_zero_of_not_pos fun hpos => ?_
  obtain ⟨box, hbox, hsize⟩ := total_pos_iff.mp hpos
  obtain ⟨j, hj⟩ := List.mem_iff_getElem?.mp hbox
  have hnone := h j
  rw [hj] at hnone
  rw [Outbox.size, show box.activities = [] from hnone] at hsize
  exact absurd hsize (Nat.lt_irrefl 0)

theorem total_size_empty {π : Type} (outbound : List (Outbox π)) :
    total Outbox.size (outbound.map fun _ => ({} : Outbox π)) = 0 :=
  total_size_eq_zero (box_map_empty outbound)

/-! ## What is carried through -/

@[simp] theorem Partition.tally_dropUnread (p : Partition M) : p.dropUnread.tally =
    { p.tally with untimedDropped := p.tally.untimedDropped + p.inbox.unread } := rfl

@[simp] theorem Partition.member_dropUnread (p : Partition M) : p.dropUnread.member = p.member :=
  rfl

/-- What of `p` is still the same in `q` after these dispatches, and what they have added to its
figures. -/
structure Partition.Carries (p : Partition M) (ds : List (Dispatch M)) (q : Partition M) :
    Prop where
  participants : q.participants = p.participants
  inbox : q.inbox = {}
  received : q.tally.untimedReceived = p.tally.untimedReceived
  dropped : q.tally.untimedDropped = p.tally.untimedDropped
  fires : q.tally.clockFires = p.tally.clockFires + total Dispatch.cycles ds
  exchanged : q.member.exchanged + total Outbox.size q.member.outbound +
      total Dispatch.discarded ds =
    p.member.exchanged + total Dispatch.leaving ds

namespace Partition.Carries

variable {p q r : Partition M} {ds : List (Dispatch M)} {d : Dispatch M} {e : Effect M}

theorem start (hinbox : p.inbox = {}) (hsize : total Outbox.size p.member.outbound = 0) :
    p.Carries [] p where
  participants := rfl
  inbox := hinbox
  received := rfl
  dropped := rfl
  fires := rfl
  exchanged := by simp [hsize]

/-- What is neither seen by the untimed stages nor counted may change. -/
theorem of_eq (h : p.Carries ds q) (hparticipants : r.participants = q.participants)
    (hinbox : r.inbox = q.inbox) (htally : r.tally = q.tally)
    (hexchanged : r.member.exchanged = q.member.exchanged)
    (houtbound : r.member.outbound = q.member.outbound) : p.Carries ds r := by
  constructor
  case participants => rw [hparticipants, h.participants]
  case inbox => rw [hinbox, h.inbox]
  case received => rw [htally, h.received]
  case dropped => rw [htally, h.dropped]
  case fires => rw [htally, h.fires]
  case exchanged => rw [hexchanged, houtbound, h.exchanged]

/-- Whoever comes to a dispatch that has no handlers. -/
theorem rest (h : p.Carries ds q) (hnext : q.next? = some d)
    (hrest : d.activity.payload.isWork = false) (hstop : d.activity.payload ≠ .stop) :
    p.Carries (ds ++ [d]) d.partition := by
  obtain ⟨timeline, _, hpartition⟩ := next?_eq_some_iff.mp hnext
  obtain ⟨hleaving, hcycles⟩ := Dispatch.rest hrest
  rw [hpartition]
  constructor
  case participants => exact h.participants
  case inbox => exact h.inbox
  case received => exact h.received
  case dropped => exact h.dropped
  case fires => simpa [hcycles] using h.fires
  case exchanged => simpa [hleaving, Dispatch.discarded_of_ne hstop] using h.exchanged

theorem work (h : p.Carries ds q) (hnext : q.next? = some d)
    (hwork : d.activity.payload.isWork = true) (heffect : e.Of d) (hfault : e.fault = none) :
    p.Carries (ds ++ [d]) (d.partition.after e) := by
  obtain ⟨timeline, _, hpartition⟩ := next?_eq_some_iff.mp hnext
  have htally := heffect.tally_eq hfault hwork
  have hstop : d.activity.payload ≠ .stop := by
    intro hstop
    rw [hstop] at hwork
    cases hwork
  have hsize : total Outbox.size (d.partition.after e).member.outbound =
      total Outbox.size q.member.outbound + d.leaving := by
    show total Outbox.size (Sent.postAll e.sends d.partition.member.outbound) = _
    rw [heffect.sends, total_size_postAll fun s hs => (d.made_sends s hs).reach, hpartition]
    rfl
  constructor
  case participants =>
    show d.partition.participants = _
    rw [hpartition]
    exact h.participants
  case inbox =>
    show d.partition.inbox = _
    rw [hpartition]
    exact h.inbox
  case received =>
    show e.tally.untimedReceived = _
    rw [htally, hpartition]
    exact h.received
  case dropped =>
    show e.tally.untimedDropped = _
    rw [htally, hpartition]
    exact h.dropped
  case fires =>
    show e.tally.clockFires = _
    have hfires := h.fires
    rw [htally, hpartition]
    simp only [total_append, total_cons, total_nil]
    omega
  case exchanged =>
    have hexchanged := h.exchanged
    have hsame : (d.partition.after e).member.exchanged = q.member.exchanged := by
      show d.partition.member.exchanged = _
      rw [hpartition]
    rw [hsize, hsame]
    simp only [total_append, total_cons, total_nil, Dispatch.discarded_of_ne hstop]
    omega

/-- Whoever leaves the timed run discards what waits in the outboxes. -/
theorem leave (h : p.Carries ds q) (hsize : total Outbox.size q.member.outbound = 0) :
    p.Carries ds q.prepareComplete := by
  constructor
  case participants => exact h.participants
  case inbox => rfl
  case received => exact h.received
  case dropped =>
    show q.tally.untimedDropped + q.inbox.unread = _
    rw [h.inbox, h.dropped]
    rfl
  case fires => exact h.fires
  case exchanged =>
    show _ + total Outbox.size (q.member.outbound.map fun _ => {}) + _ = _
    have hexchanged := h.exchanged
    rw [total_size_empty]
    rw [hsize] at hexchanged
    exact hexchanged

/-- What an epoch hands over is counted. -/
theorem taken (h : p.Carries ds q) (incoming : List (Scheduled M.Payload)) :
    p.Carries ds (Party.taken ⟨.timed, q, .epoch⟩ incoming) := by
  constructor
  case participants => exact h.participants
  case inbox => exact h.inbox
  case received => exact h.received
  case dropped => exact h.dropped
  case fires => exact h.fires
  case exchanged =>
    show q.member.exchanged + total Outbox.size q.member.outbound +
      total Outbox.size (q.member.outbound.map fun _ => {}) + _ = _
    rw [total_size_empty, Nat.add_zero]
    exact h.exchanged

theorem stop (h : p.Carries ds q) (hnext : q.next? = some d)
    (hstop : d.activity.payload = .stop) : p.Carries (ds ++ [d]) d.partition.prepareComplete := by
  obtain ⟨timeline, _, hpartition⟩ := next?_eq_some_iff.mp hnext
  obtain ⟨hleaving, hcycles⟩ := Dispatch.rest (d := d) (by rw [hstop]; rfl)
  have hdiscarded : d.discarded = total Outbox.size q.member.outbound := by
    unfold Dispatch.discarded
    rw [hstop, hpartition]
  rw [hpartition]
  constructor
  case participants => exact h.participants
  case inbox => rfl
  case received => exact h.received
  case dropped =>
    show q.tally.untimedDropped + q.inbox.unread = _
    rw [h.inbox, h.dropped]
    rfl
  case fires =>
    show q.tally.clockFires = _
    simpa [hcycles] using h.fires
  case exchanged =>
    show q.member.exchanged + total Outbox.size (q.member.outbound.map fun _ => {}) + _ = _
    have hexchanged := h.exchanged
    rw [total_size_empty]
    simp only [total_append, total_cons, total_nil, hleaving, hdiscarded]
    omega

end Partition.Carries

/-! ## Between the stages -/

/-- Where a partition stands between the two untimed stages that had become `p` in the first one and
has made these dispatches since. -/
inductive Stance.Between (p : Partition M) (ds : List (Dispatch M)) : Stance M → Prop
  | running (q : Partition M) (h : p.Carries ds q) : Between p ds (.running .timed q)
  | meeting (q : Partition M) (h : p.Carries ds q) : Between p ds (.ready ⟨.timed, q, .epoch⟩)
  | leaving (stop : StopReason) (q : Partition M) (h : p.Carries ds q)
      (hboxes : ∀ j, q.box j = []) : Between p ds (.running (.complete 0 stop) q)

namespace Stance.Between

variable {p q : Partition M} {ds : List (Dispatch M)}

theorem finishTimed {stop : StopReason} (hlifecycle : q.lifecycle = true)
    (h : p.Carries ds q.prepareComplete) : (Thread.finishTimed stop q).stance.Between p ds := by
  unfold Thread.finishTimed
  rw [if_pos hlifecycle]
  exact .leaving stop _ h (box_map_empty _)

/-- A dispatch keeps what is carried, unless it fails. -/
theorem work {S : Setting} {m : Moment} {i : Nat} (h : p.Carries ds q)
    (hlifecycle : q.lifecycle = true) (hfits : Fits S m (.running .timed q))
    (hconforms : q.Conforms S i) (hi : i < S.partitions) :
    (∃ e r, (Thread.workOn .timed q).stance = .failed e r) ∨
      (Thread.workOn .timed q).stance.Between p (ds ++ q.next?.toList) := by
  have hworks := Thread.works_workOn q
  generalize Thread.workOn .timed q = t at hworks
  cases hworks with
  | idle hnext =>
    refine Or.inr ?_
    rw [hnext, Option.toList_none, List.append_nil]
    refine finishTimed hlifecycle (h.leave ?_)
    -- Only a partition that is alone runs out of activities, and it has nobody to send to.
    cases hfits with
    | running least q honTime hbuffers =>
      refine total_size_eq_zero fun j => ?_
      have hnone := hbuffers.alone hconforms hi (honTime.alone_of_idle hnext) j
      rwa [Partition.outboxFor, List.map_eq_nil_iff] at hnone
  | work d e hnext hwork heffect hfault =>
    rw [hnext]
    exact Or.inr (.running _ (h.work hnext hwork heffect hfault))
  | failed d e err hnext => exact Or.inl ⟨err, _, rfl⟩
  | sync d hnext hsync =>
    rw [hnext]
    have hcarries := h.rest hnext (by rw [hsync]; rfl) (by rw [hsync]; exact fun h => by cases h)
    exact Or.inr (.meeting _ (hcarries.of_eq rfl rfl rfl rfl rfl))
  | stop d hnext hstop =>
    have hlike := Partition.Like.next? hnext
    rw [hnext]
    exact Or.inr (finishTimed (hlike.lifecycle.trans hlifecycle) (h.stop hnext hstop))

/-- So does an epoch, which counts what it hands over. -/
theorem conclude (h : p.Carries ds q) (hlifecycle : q.lifecycle = true)
    (incoming : List (Scheduled M.Payload)) (least : Time) :
    (Party.conclude ⟨.timed, q, .epoch⟩ incoming least).stance.Between p ds := by
  have htaken := h.taken incoming
  unfold Party.conclude
  dsimp only
  split
  · refine finishTimed hlifecycle (Partition.Carries.leave ?_ (total_size_empty _))
    exact htaken.of_eq rfl rfl rfl rfl rfl
  · exact .running _ (htaken.of_eq rfl rfl rfl rfl rfl)

end Stance.Between

end Lookahead
