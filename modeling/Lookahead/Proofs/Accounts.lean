import Lookahead.Proofs.Causality

/-!
Where every event is.

Whatever was scheduled or sent to a partition has been delivered there, or is on its agenda, or
waits in an outbox for the next meeting, or was in an outbox of a partition when that one stopped.
Each step of a cohort only moves events from one of these places to the next
(`Cohort.Accounts.step`). The accounts are kept by counting: any kind of event is as often in the
four places as it was asked for. Where a clock may have overflowed, a meeting can put an event off,
and then this is so for the kinds that do not depend on the time.
-/

namespace Lookahead

variable {M : Model}

/-! ## Entries of the accounts -/

namespace Dispatch

def delivered (d : Dispatch M) : List (Scheduled M.Payload) :=
  if d.activity.isDelivery then [d.activity.unnumbered] else []

def cycles (d : Dispatch M) : Nat :=
  match d.activity.payload with
  | .clock _ => 1
  | _ => 0

def asked (d : Dispatch M) (j : PartitionId) : List (Scheduled M.Payload) :=
  (d.sends.filter fun s => s.target.partition == j).map Sent.activity

/-- What was still to be handed over to a partition when a dispatch ended the timed run. -/
def abandoned (d : Dispatch M) (j : PartitionId) : List (Scheduled M.Payload) :=
  match d.activity.payload with
  | .stop => (d.partition.member.outbound[j]?.getD {}).activities.map Activity.unnumbered
  | _ => []

end Dispatch

def deliveries (trace : List (PartitionId × Dispatch M)) (j : PartitionId) :
    List (Scheduled M.Payload) :=
  (System.seenOf j trace).flatMap Dispatch.delivered

/-- The deliveries that a partition was asked for, before the run and by sends. -/
def asked (log : List (Planned M.Payload)) (trace : List (PartitionId × Dispatch M))
    (j : PartitionId) : List (Scheduled M.Payload) :=
  (log.filter fun e => e.target.partition == j).map Planned.activity ++
    trace.flatMap fun entry => entry.2.asked j

def abandoned (trace : List (PartitionId × Dispatch M)) (j : PartitionId) :
    List (Scheduled M.Payload) :=
  trace.flatMap fun entry => entry.2.abandoned j

def Partition.expected (p : Partition M) : List (Scheduled M.Payload) :=
  p.timeline.agenda.filter Activity.isDelivery

def Partition.outboxFor (p : Partition M) (j : PartitionId) : List (Scheduled M.Payload) :=
  (p.member.outbound[j]?.getD {}).activities.map Activity.unnumbered

/-- What is going to be handed over to a partition at the next meeting. -/
def Stance.transit (s : Stance M) (j : PartitionId) : List (Scheduled M.Payload) :=
  match s with
  | .running .timed p => p.outboxFor j
  | .ready ⟨_, p, .epoch⟩ => p.outboxFor j
  | _ => []

@[simp] theorem Stance.partition_running (work : Work) (p : Partition M) :
    (Stance.running work p).partition = p := rfl

@[simp] theorem Stance.transit_running (p : Partition M) (j : PartitionId) :
    (Stance.running .timed p).transit j = p.outboxFor j := rfl

def Activity.Timeless {π : Type} (kind : Scheduled π → Bool) : Prop :=
  ∀ a b : Scheduled π, a.payload = b.payload → kind a = kind b

/-- The accounts of a cohort are in order, for all kinds of events if all is `safe`. -/
structure Cohort.Accounts (cohort : Cohort M) (safe : Prop) (log : List (Planned M.Payload))
    (trace : List (PartitionId × Dispatch M)) : Prop where
  conserved : ∀ (j : Nat) (s : Stance M), cohort[j]? = some s →
    ∀ kind : Scheduled M.Payload → Bool, safe ∨ Activity.Timeless kind →
      (deliveries trace j).countP kind + s.partition.expected.countP kind +
          (cohort.flatMap fun r => r.transit j).countP kind + (abandoned trace j).countP kind =
        (asked log trace j).countP kind
  counted : ∀ (j : Nat) (s : Stance M), cohort[j]? = some s →
    s.partition.tally.events = (deliveries trace j).length

/-! ## Single steps -/

/-- What changes at one place balances: `s` becomes `s'` at position `i` with this dispatch. -/
structure Balanced (s s' : Stance M) (i : PartitionId) (d : Option (Dispatch M)) : Prop where
  here : ∀ kind : Scheduled M.Payload → Bool,
    (d.toList.flatMap Dispatch.delivered).countP kind + s'.partition.expected.countP kind +
        (s'.transit i).countP kind +
        (d.toList.flatMap fun d => d.abandoned i).countP kind =
      s.partition.expected.countP kind + (s.transit i).countP kind +
        (d.toList.flatMap fun d => d.asked i).countP kind
  there : ∀ (j : PartitionId), j ≠ i → ∀ kind : Scheduled M.Payload → Bool,
    (s'.transit j).countP kind + (d.toList.flatMap fun d => d.abandoned j).countP kind =
      (s.transit j).countP kind + (d.toList.flatMap fun d => d.asked j).countP kind
  counted : s'.partition.tally.events =
    s.partition.tally.events + (d.toList.flatMap Dispatch.delivered).length

theorem perm_of_countP {α : Type} {items others : List α}
    (h : ∀ kind : α → Bool, items.countP kind = others.countP kind) : items.Perm others := by
  classical
  exact List.perm_iff_count.mpr fun a => h (· == a)

theorem countP_flatMap_set {α β : Type} {items : List α} {i : Nat} {x y : α}
    (h : items[i]? = some x) (f : α → List β) (kind : β → Bool) :
    ((items.set i y).flatMap f).countP kind + (f x).countP kind =
      (items.flatMap f).countP kind + (f y).countP kind := by
  induction items generalizing i with
  | nil => simp at h
  | cons a rest ih =>
    cases i with
    | zero =>
      simp only [List.getElem?_cons_zero, Option.some.injEq] at h
      subst h
      simp only [List.set_cons_zero, List.flatMap_cons, List.countP_append]
      omega
    | succ i =>
      simp only [List.getElem?_cons_succ] at h
      have := ih h
      simp only [List.set_cons_succ, List.flatMap_cons, List.countP_append]
      omega

theorem deliveries_append_noteAt (trace : List (PartitionId × Dispatch M)) (i j : PartitionId)
    (d : Option (Dispatch M)) :
    deliveries (trace ++ noteAt i d) j =
      deliveries trace j ++ if i = j then d.toList.flatMap Dispatch.delivered else [] := by
  unfold deliveries
  rw [System.seenOf_append, List.flatMap_append]
  by_cases hij : i = j
  · subst hij
    rw [seenOf_noteAt_self, if_pos rfl]
  · rw [seenOf_noteAt_of_ne hij, if_neg hij]
    rfl

theorem abandoned_append_noteAt (trace : List (PartitionId × Dispatch M)) (i j : PartitionId)
    (d : Option (Dispatch M)) :
    abandoned (trace ++ noteAt i d) j =
      abandoned trace j ++ d.toList.flatMap fun d => d.abandoned j := by
  unfold abandoned
  rw [List.flatMap_append]
  cases d <;> rfl

theorem asked_append_noteAt (log : List (Planned M.Payload))
    (trace : List (PartitionId × Dispatch M)) (i j : PartitionId) (d : Option (Dispatch M)) :
    asked log (trace ++ noteAt i d) j =
      asked log trace j ++ d.toList.flatMap fun d => d.asked j := by
  unfold asked
  rw [List.flatMap_append, List.append_assoc]
  cases d <;> rfl

namespace Cohort.Accounts

variable {cohort : Cohort M} {safe : Prop} {log : List (Planned M.Payload)}
  {trace : List (PartitionId × Dispatch M)} {i : Nat} {s s' : Stance M} {d : Option (Dispatch M)}

/-- A change that balances keeps the accounts in order. -/
theorem set (h : cohort.Accounts safe log trace) (hs : cohort[i]? = some s)
    (hbalanced : Balanced s s' i d) :
    Accounts (cohort.set i s') safe log (trace ++ noteAt i d) := by
  constructor
  case conserved =>
    refine forall_set (P := fun j (r : Stance M) => ∀ kind : Scheduled M.Payload → Bool,
      safe ∨ Activity.Timeless kind →
      (deliveries (trace ++ noteAt i d) j).countP kind + r.partition.expected.countP kind +
          ((cohort.set i s').flatMap fun r => r.transit j).countP kind +
          (abandoned (trace ++ noteAt i d) j).countP kind =
        (asked log (trace ++ noteAt i d) j).countP kind) ?_ ?_
    · intro j r hji hr kind hkind
      have hbefore := h.conserved j r hr kind hkind
      have hset := countP_flatMap_set (y := s') hs (fun r => r.transit j) kind
      have hthere := hbalanced.there j hji kind
      rw [deliveries_append_noteAt, if_neg (Ne.symm hji), abandoned_append_noteAt,
        asked_append_noteAt]
      simp only [List.countP_append, List.countP_nil]
      omega
    · intro kind hkind
      have hbefore := h.conserved i s hs kind hkind
      have hset := countP_flatMap_set (y := s') hs (fun r => r.transit i) kind
      have hhere := hbalanced.here kind
      rw [deliveries_append_noteAt, if_pos rfl, abandoned_append_noteAt, asked_append_noteAt]
      simp only [List.countP_append]
      omega
  case counted =>
    refine forall_set (P := fun j (r : Stance M) =>
      r.partition.tally.events = (deliveries (trace ++ noteAt i d) j).length) ?_ ?_
    · intro j r hji hr
      rw [deliveries_append_noteAt, if_neg (Ne.symm hji), List.append_nil]
      exact h.counted j r hr
    · rw [deliveries_append_noteAt, if_pos rfl, List.length_append, hbalanced.counted,
        h.counted i s hs]

end Cohort.Accounts

/-! ## Working -/

namespace Effect.Of

variable {e : Effect M} {d : Dispatch M}

/-- What is queued in the partition itself are deliveries if it was sent, and no deliveries if it
comes from clocks. -/
theorem expected_added (h : e.Of d) :
    ((Sent.kept e.sends ++ e.ticks).map Activity.unnumbered).filter Activity.isDelivery =
      Sent.kept e.sends := by
  have hticks : (e.ticks.map Activity.unnumbered).filter Activity.isDelivery = [] := by
    rw [List.filter_eq_nil_iff]
    intro a ha
    obtain ⟨b, hb, rfl⟩ := List.mem_map.mp ha
    obtain ⟨id, hid⟩ := (h.ticks b hb).clock
    simp [Activity.isDelivery, hid, Action.event?]
  have hkept : (Sent.kept e.sends).map Activity.unnumbered = Sent.kept e.sends := by
    unfold Sent.kept
    rw [List.map_map]
    rfl
  have hfilter : (Sent.kept e.sends).filter Activity.isDelivery = Sent.kept e.sends := by
    rw [List.filter_eq_self]
    intro a ha
    obtain ⟨s, _, _, rfl⟩ := Sent.mem_kept.mp ha
    rfl
  rw [List.map_append, List.filter_append, hticks, List.append_nil, hkept, hfilter]

/-- Every delivery counts and every cycle of a clock, and nothing else does. -/
theorem tally_eq (h : e.Of d) (hfault : e.fault = none)
    (hwork : d.activity.payload.isWork = true) :
    e.tally =
      { d.partition.tally with
        events := d.partition.tally.events + d.delivered.length
        clockFires := d.partition.tally.clockFires + d.cycles } := by
  have hact := h.act d.partition rfl rfl rfl
  have hnext : d.partition.next e = .dispatch (d.partition.after e) := by
    simp [Partition.next, hfault]
  have htally : (d.partition.after e).tally = e.tally := rfl
  rw [hnext] at hact
  rw [← htally]
  generalize d.partition.after e = q at hact
  unfold Dispatch.delivered Dispatch.cycles Activity.isDelivery
  cases hpayload : d.activity.payload with
  | sync => simp [hpayload, Action.isWork] at hwork
  | stop => simp [hpayload, Action.isWork] at hwork
  | deliver event =>
    rw [hpayload, Partition.act] at hact
    rcases d.partition.deliver_cases event with ⟨_, _, hfail⟩ | ⟨_, _, _, _, _, _, hdispatch⟩
    · rw [hfail] at hact
      cases hact
    · rw [hdispatch] at hact
      cases hact
      rfl
  | clock id =>
    rw [hpayload, Partition.act] at hact
    rcases d.partition.fire_cases id with ⟨_, _, hfail⟩ | ⟨_, _, _, _, hdispatch⟩
    · rw [hfail] at hact
      cases hact
    · rw [hdispatch] at hact
      cases hact
      rfl

theorem events_eq (h : e.Of d) (hfault : e.fault = none)
    (hwork : d.activity.payload.isWork = true) :
    e.tally.events = d.partition.tally.events + d.delivered.length := by
  rw [h.tally_eq hfault hwork]

end Effect.Of

namespace Dispatch

variable {d : Dispatch M} {i : PartitionId}

theorem countP_asked (hid : d.partition.id = i) (j : PartitionId)
    (kind : Scheduled M.Payload → Bool) :
    (d.asked j).countP kind =
      (if i = j then Sent.kept d.sends else []).countP kind +
        (Sent.bound d.sends j).countP kind := by
  have hstays : ∀ s ∈ d.sends, s.leaves = false → s.target.partition = i := by
    intro s hs hleaves
    have hsource : s.source.partition = d.partition.id := (d.made_sends s hs).source
    rw [hid] at hsource
    unfold Sent.leaves at hleaves
    unfold Sent.target
    split at hleaves
    · cases hleaves
    · split
      · exact hsource
      · exact hsource
      · rename_i hnot _ peer hpeer
        exact absurd hpeer (hnot peer)
  unfold asked Sent.kept Sent.bound
  generalize d.sends = sends at hstays
  induction sends with
  | nil =>
    simp only [List.filter_nil, List.map_nil, List.countP_nil, Nat.add_zero]
    split <;> rfl
  | cons s rest ih =>
    have hrest := ih fun r hr => hstays r (List.mem_cons_of_mem _ hr)
    have hhere := hstays s (List.mem_cons_self ..)
    cases hleaves : s.leaves with
    | false =>
      have htarget := hhere hleaves
      by_cases hij : i = j
      · simp only [hij, ↓reduceIte] at hrest htarget ⊢
        simp only [List.filter_cons, htarget, hleaves, beq_self_eq_true, ↓reduceIte,
          Bool.not_false, Bool.false_and, Bool.false_eq_true, List.map_cons, List.countP_cons]
        omega
      · simp only [hij, ↓reduceIte, List.countP_nil] at hrest ⊢
        simp only [List.filter_cons, htarget, hleaves, beq_iff_eq, hij, ↓reduceIte,
          Bool.false_and, Bool.false_eq_true]
        exact hrest
    | true =>
      by_cases hj : s.target.partition = j
      · simp only [List.filter_cons, hj, hleaves, beq_self_eq_true, ↓reduceIte, Bool.not_true,
          Bool.and_self, Bool.false_eq_true, List.map_cons, List.countP_cons]
        omega
      · simp only [List.filter_cons, hleaves, ↓reduceIte, Bool.not_true, Bool.and_false,
          Bool.false_eq_true, beq_eq_false_iff_ne.mpr hj]
        exact hrest

end Dispatch

namespace Thread

theorem partition_stance (t : Thread M) : t.stance.partition = t.partition := by
  cases t with
  | running work p => rfl
  | syncing work p round => rfl
  | aborting gate e p => rfl
  | ended result p => cases result <;> rfl

@[simp] theorem transit_finishTimed (stop : StopReason) (p : Partition M) (j : PartitionId) :
    (finishTimed stop p).stance.transit j = [] := by
  unfold finishTimed
  split <;> rfl

@[simp] theorem expected_finishTimed (stop : StopReason) (p : Partition M) :
    (finishTimed stop p).stance.partition.expected = p.expected := by
  unfold Partition.expected
  rw [partition_stance, timeline_finishTimed]

@[simp] theorem events_finishTimed (stop : StopReason) (p : Partition M) :
    (finishTimed stop p).stance.partition.tally.events = p.tally.events := by
  unfold finishTimed
  split <;> rfl

end Thread

namespace Partition

variable {p : Partition M} {d : Dispatch M} {e : Effect M}

theorem expected_of_next? (h : p.next? = some d) :
    p.expected = d.delivered ++ d.partition.expected := by
  unfold expected Dispatch.delivered
  rw [(agenda_of_next? h).1, List.filter_cons]
  have hsame : d.activity.unnumbered.isDelivery = d.activity.isDelivery := rfl
  rw [hsame]
  split <;> rfl

theorem outboxFor_of_next? (h : p.next? = some d) (j : PartitionId) :
    d.partition.outboxFor j = p.outboxFor j := by
  obtain ⟨timeline, _, hpartition⟩ := next?_eq_some_iff.mp h
  rw [hpartition]
  rfl

theorem events_of_next? (h : p.next? = some d) :
    d.partition.tally.events = p.tally.events := by
  obtain ⟨timeline, _, hpartition⟩ := next?_eq_some_iff.mp h
  rw [hpartition]

theorem countP_expected_after (heffect : e.Of d) (kind : Scheduled M.Payload → Bool) :
    (d.partition.after e).expected.countP kind =
      (Sent.kept d.sends).countP kind + d.partition.expected.countP kind := by
  have hperm := (Timeline.agenda_addAll_perm d.partition.timeline
    (Sent.kept e.sends ++ e.ticks)).filter Activity.isDelivery
  rw [List.filter_append, heffect.expected_added, heffect.sends] at hperm
  have hcount := hperm.countP_eq kind
  rw [List.countP_append] at hcount
  have hafter : (d.partition.after e).expected =
      (d.partition.timeline.addAll (Sent.kept e.sends ++ e.ticks)).agenda.filter
        Activity.isDelivery := rfl
  rw [hafter, heffect.sends]
  exact hcount

/-- What is sent to others is put behind what waits for them. -/
theorem outboxFor_after (heffect : e.Of d) (j : PartitionId) :
    (d.partition.after e).outboxFor j = d.partition.outboxFor j ++ Sent.bound d.sends j := by
  have hbound : (Sent.bound d.sends j).map Activity.unnumbered = Sent.bound d.sends j := by
    unfold Sent.bound
    rw [List.map_map]
    rfl
  have hpost : (d.partition.after e).member.outbound =
      Sent.postAll d.sends d.partition.member.outbound := by
    rw [← heffect.sends]
    rfl
  unfold outboxFor
  rw [hpost, Sent.getElem?_postAll]
  cases hbox : d.partition.member.outbound[j]? with
  | some box => simp [hbound]
  | none =>
    have hnone : Sent.bound d.sends j = [] := by
      rw [List.eq_nil_iff_forall_not_mem]
      intro a ha
      obtain ⟨s, hs, hleaves, rfl, _⟩ := Sent.mem_bound.mp ha
      have hreach := (d.made_sends s hs).reach hleaves
      have hlength := List.getElem?_eq_none_iff.mp hbox
      exact absurd hreach (Nat.not_lt.mpr hlength)
    simp [hnone]

/-- What waits in an outbox is for another partition, and not due before the bound. -/
theorem Buffers.of_mem_outboxFor {safe : Prop} {bound : Time} (h : p.Buffers safe bound)
    {j : PartitionId} {a : Scheduled M.Payload} (ha : a ∈ p.outboxFor j) :
    j ≠ p.id ∧ (safe → bound ≤ a.time) ∧ a.priority = Priority.event ∧
      j < p.member.outbound.length := by
  unfold outboxFor at ha
  cases hbox : p.member.outbound[j]? with
  | none => simp [hbox] at ha
  | some box =>
    rw [hbox] at ha
    obtain ⟨x, hx, rfl⟩ := List.mem_map.mp ha
    obtain ⟨hother, hdue, hpriority, _⟩ := h j box hbox x hx
    exact ⟨hother, hdue, hpriority, (List.getElem?_eq_some_iff.mp hbox).1⟩

/-- A partition that is alone hands nothing over. -/
theorem Buffers.alone {safe : Prop} {bound : Time} {S : Setting} {i : Nat}
    (h : p.Buffers safe bound)
    (hconforms : p.Conforms S i) (hi : i < S.partitions) (halone : ¬ 1 < S.partitions)
    (j : PartitionId) : p.outboxFor j = [] := by
  rw [List.eq_nil_iff_forall_not_mem]
  intro a ha
  obtain ⟨hother, _, _, hlt⟩ := h.of_mem_outboxFor ha
  rw [hconforms.outboxes] at hlt
  refine hother ?_
  rw [hconforms.id]
  exact (Nat.lt_one_iff.mp (Nat.lt_of_lt_of_le hlt (Nat.not_lt.mp halone))).trans
    (Nat.lt_one_iff.mp (Nat.lt_of_lt_of_le hi (Nat.not_lt.mp halone))).symm

end Partition

/-! ## Work balances -/

namespace Balanced

variable {p q : Partition M} {i : PartitionId} {s' : Stance M} {d : Dispatch M}

/-- Nothing moves where nothing is dispatched. -/
theorem idle {s : Stance M} (hexpected : s'.partition.expected = s.partition.expected)
    (htransit : ∀ j, s'.transit j = s.transit j)
    (hevents : s'.partition.tally.events = s.partition.tally.events) :
    Balanced s s' i none where
  here kind := by
    rw [hexpected, htransit]
    simp
  there j _ kind := by
    rw [htransit]
    simp
  counted := hevents

theorem phase {work : Work} (htimed : work ≠ .timed) (hphased : p.Phased q) (own : Nat) :
    Balanced (.running work p) (Thread.beginRound work q (.untimed own)).stance i none := by
  have htransit : ∀ j, (Stance.running work p).transit j = [] := by
    intro j
    cases work with
    | init phase => rfl
    | timed => exact absurd rfl htimed
    | complete phase stop => rfl
  obtain ⟨outbound, inbox, state, participants, _, rfl⟩ := hphased
  refine idle rfl (fun j => ?_) rfl
  rw [htransit]
  rfl

/-- A dispatch of an event or a clock. -/
theorem work {e : Effect M} (hid : p.id = i) (hnext : p.next? = some d)
    (hwork : d.activity.payload.isWork = true) (heffect : e.Of d) (hfault : e.fault = none) :
    Balanced (.running .timed p) (.running .timed (d.partition.after e)) i (some d) := by
  have hid' : d.partition.id = i := (Partition.Like.next? hnext).id.trans hid
  have habandoned : ∀ j, d.abandoned j = [] := by
    intro j
    unfold Dispatch.abandoned
    split
    · rename_i hstop
      simp [hstop, Action.isWork] at hwork
    · rfl
  have hbox : ∀ j, (d.partition.after e).outboxFor j =
      p.outboxFor j ++ Sent.bound d.sends j := by
    intro j
    rw [Partition.outboxFor_after heffect, Partition.outboxFor_of_next? hnext]
  constructor
  case here =>
    intro kind
    have hafter := Partition.countP_expected_after heffect kind
    have hasked := Dispatch.countP_asked hid' i kind
    simp only [Option.toList_some, List.flatMap_singleton, habandoned,
      Stance.partition_running, Stance.transit_running, hbox,
      Partition.expected_of_next? hnext, List.countP_append, List.countP_nil, ↓reduceIte] at *
    omega
  case there =>
    intro j hji kind
    have hasked := Dispatch.countP_asked hid' j kind
    rw [if_neg (Ne.symm hji), List.countP_nil] at hasked
    simp only [Option.toList_some, List.flatMap_singleton, habandoned, Stance.transit_running,
      hbox, List.countP_append, List.countP_nil]
    omega
  case counted =>
    have hevents := heffect.events_eq hfault hwork
    rw [Partition.events_of_next? hnext] at hevents
    rw [Option.toList_some, List.flatMap_singleton]
    exact hevents

/-- A dispatch of anything else asks for nothing. -/
theorem asked_nil (hwork : d.activity.payload.isWork = false) (j : PartitionId) :
    d.asked j = [] ∧ d.delivered = [] := by
  unfold Dispatch.asked Dispatch.sends Dispatch.delivered Activity.isDelivery
  cases hpayload : d.activity.payload with
  | deliver event => simp [hpayload, Action.isWork] at hwork
  | clock id => simp [hpayload, Action.isWork] at hwork
  | sync => exact ⟨rfl, rfl⟩
  | stop => exact ⟨rfl, rfl⟩

theorem sync (hnext : p.next? = some d) (hsync : d.activity.payload = .sync) :
    Balanced (.running .timed p) (Thread.beginRound .timed d.partition .epoch).stance i
      (some d) := by
  have hnil := asked_nil (d := d) (by rw [hsync]; rfl)
  have hdelivered := (hnil i).2
  have hasked := fun j => (hnil j).1
  have habandoned : ∀ j, d.abandoned j = [] := by
    intro j
    simp [Dispatch.abandoned, hsync]
  have hexpected : (Thread.beginRound .timed d.partition .epoch).stance.partition.expected =
      p.expected := by
    rw [Partition.expected_of_next? hnext, hdelivered]
    rfl
  have htransit : ∀ j, (Thread.beginRound .timed d.partition .epoch).stance.transit j =
      p.outboxFor j := fun j => Partition.outboxFor_of_next? hnext j
  constructor
  case here =>
    intro kind
    rw [hexpected, htransit]
    simp [hdelivered, hasked, habandoned]
  case there =>
    intro j _ kind
    rw [htransit]
    simp [hasked, habandoned]
  case counted =>
    rw [Option.toList_some, List.flatMap_singleton, hdelivered]
    exact Partition.events_of_next? hnext

theorem stop (hnext : p.next? = some d) (hstop : d.activity.payload = .stop) :
    Balanced (.running .timed p) (Thread.finishTimed .stopAt d.partition).stance i
      (some d) := by
  have hnil := asked_nil (d := d) (by rw [hstop]; rfl)
  have hdelivered := (hnil i).2
  have hasked := fun j => (hnil j).1
  have habandoned : ∀ j, d.abandoned j = p.outboxFor j := by
    intro j
    rw [← Partition.outboxFor_of_next? hnext]
    simp [Dispatch.abandoned, hstop, Partition.outboxFor]
  have hexpected := Partition.expected_of_next? hnext
  rw [hdelivered, List.nil_append] at hexpected
  constructor
  case here =>
    intro kind
    simp [hdelivered, hasked, habandoned, hexpected]
  case there =>
    intro j _ kind
    simp [hasked, habandoned]
  case counted =>
    rw [Option.toList_some, List.flatMap_singleton, hdelivered, Thread.events_finishTimed]
    exact Partition.events_of_next? hnext

end Balanced

theorem Fits.balanced {S : Setting} {m : Moment} {work : Work} {p : Partition M} {i : Nat}
    (h : Fits S m (.running work p)) (hconforms : p.Conforms S i) (hi : i < S.partitions) :
    (∃ e q, (Thread.workOn work p).stance = .failed e q) ∨
      Balanced (.running work p) (Thread.workOn work p).stance i (work.dispatch? p) := by
  have hphase : ∀ (work : Work) (stage : Stage) (phase : Nat), work ≠ .timed →
      (∃ e q, (Thread.runPhase work stage phase p).stance = .failed e q) ∨
        Balanced (.running work p) (Thread.runPhase work stage phase p).stance i none := by
    intro work stage phase htimed
    have hphases := Thread.phases_runPhase work stage phase p
    generalize Thread.runPhase work stage phase p = t at hphases
    cases hphases with
    | ready own q hphased => exact Or.inr (.phase htimed hphased own)
    | failed e q hphased => exact Or.inl ⟨e, q, rfl⟩
  cases h with
  | preparing phase p h => exact hphase (.init phase) .init phase (by simp)
  | leaving least stop p hleaves h => exact hphase (.complete 0 stop) .complete 0 (by simp)
  | completing phase stop p h => exact hphase (.complete phase stop) .complete phase (by simp)
  | running least p h hbuffers =>
    show _ ∨ Balanced _ _ i p.next?
    have hworks := Thread.works_workOn p
    generalize Thread.workOn .timed p = t at hworks
    cases hworks with
    | idle hnext =>
      rw [hnext]
      refine Or.inr (.idle (Thread.expected_finishTimed ..) (fun j => ?_)
        (Thread.events_finishTimed ..))
      rw [Thread.transit_finishTimed]
      exact (hbuffers.alone hconforms hi (h.alone_of_idle hnext) j).symm
    | work d e hnext hwork heffect hfault =>
      rw [hnext]
      exact Or.inr (.work hconforms.id hnext hwork heffect hfault)
    | failed d e err hnext => exact Or.inl ⟨err, _, rfl⟩
    | sync d hnext hsync =>
      rw [hnext]
      exact Or.inr (.sync hnext hsync)
    | stop d hnext hstop =>
      rw [hnext]
      exact Or.inr (.stop hnext hstop)

end Lookahead
