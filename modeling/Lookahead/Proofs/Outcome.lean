import Lookahead.Proofs.OnTime

/-!
What comes of an activity.

An activity finds something inside a partition and leaves something else behind, puts activities on
the agenda and sends others away. All of this is the same wherever the partition is in its run
(`Partition.outcome_of_work`), so that it can be told without timelines and outboxes.
-/

namespace Lookahead

variable {M : Model}

/-! ## Outcomes -/

/-- What comes of an activity: what is inside afterwards, what is put on the agenda, what is sent,
and whether the partition goes on. -/
structure Outcome (M : Model) where
  inside : Inside M
  added : List (Scheduled M.Payload)
  sends : List (Sent M.Payload)
  live : Bool

/-- What happens in a dispatch: what comes due, what the handlers find, what they send, and what
they leave behind. -/
structure Handled (M : Model) where
  activity : Scheduled M.Payload
  inside : Inside M
  sends : List (Sent M.Payload)
  after : Inside M

/-- If it makes time overflow, the thread panics. -/
def Handled.Exact (handled : Handled M) : Prop :=
  handled.inside.Exact handled.activity.time handled.activity.priority handled.activity.payload

namespace Inside

noncomputable def effect (inside : Inside M) (a : Scheduled M.Payload)
    (h : a.payload.isWork = true) : Effect M :=
  Classical.choose (inside.exists_leads a.time a.priority h)

theorem effect_of {d : Dispatch M} (hnow : d.partition.timeline.now = d.activity.time)
    (hpriority : d.partition.timeline.priority = d.activity.priority)
    (h : d.activity.unnumbered.payload.isWork = true) :
    (d.partition.inside.effect d.activity.unnumbered h).Of d := by
  obtain ⟨hsends, hticks, hact⟩ := Classical.choose_spec
    (d.partition.inside.exists_leads d.activity.time d.activity.priority h)
  refine ⟨?_, ?_, ?_⟩
  · unfold Dispatch.sends
    rw [hnow, hpriority]
    exact hsends
  · unfold Dispatch.Exact
    rw [hnow, hpriority]
    exact hticks
  · rw [hnow, hpriority]
    exact hact

/-- What comes of an activity, unless it fails. -/
noncomputable def outcome? (inside : Inside M) (a : Scheduled M.Payload) : Option (Outcome M) :=
  if h : a.payload.isWork = true then
    let e := inside.effect a h
    match e.fault with
    | none =>
      some ⟨inside.after e, (Sent.kept e.sends ++ e.ticks).map Activity.unnumbered, e.sends, true⟩
    | some _ => none
  else
    match a.payload with
    | .stop => some ⟨inside, [], [], false⟩
    | _ => none

theorem outcome?_work {inside : Inside M} {a : Scheduled M.Payload}
    (h : a.payload.isWork = true) (hfault : (inside.effect a h).fault = none) :
    inside.outcome? a = some ⟨inside.after (inside.effect a h),
      (Sent.kept (inside.effect a h).sends ++ (inside.effect a h).ticks).map Activity.unnumbered,
      (inside.effect a h).sends, true⟩ := by
  unfold outcome?
  simp [h, hfault]

theorem outcome?_stop {inside : Inside M} {a : Scheduled M.Payload} (h : a.payload = .stop) :
    inside.outcome? a = some ⟨inside, [], [], false⟩ := by
  unfold outcome?
  simp [h, Action.isWork]

theorem outcome?_eq_some {inside : Inside M} {a : Scheduled M.Payload} {o : Outcome M}
    (h : inside.outcome? a = some o) :
    (∃ hwork : a.payload.isWork = true, (inside.effect a hwork).fault = none ∧
      o = ⟨inside.after (inside.effect a hwork),
        (Sent.kept (inside.effect a hwork).sends ++
          (inside.effect a hwork).ticks).map Activity.unnumbered,
        (inside.effect a hwork).sends, true⟩) ∨
    (a.payload = .stop ∧ o = ⟨inside, [], [], false⟩) := by
  by_cases hwork : a.payload.isWork = true
  · refine Or.inl ⟨hwork, ?_⟩
    cases hfault : (inside.effect a hwork).fault with
    | none =>
      rw [outcome?_work hwork hfault] at h
      exact ⟨rfl, (Option.some.inj h).symm⟩
    | some e =>
      unfold outcome? at h
      simp [hwork, hfault] at h
  · refine Or.inr ?_
    cases hpayload : a.payload with
    | deliver event => simp [hpayload, Action.isWork] at hwork
    | clock id => simp [hpayload, Action.isWork] at hwork
    | sync =>
      unfold outcome? at h
      simp [hpayload, Action.isWork] at h
    | stop =>
      rw [outcome?_stop hpayload] at h
      exact ⟨rfl, (Option.some.inj h).symm⟩

/-- The inside of partition `k`, where no link to another partition is faster than the window. -/
structure Sound (inside : Inside M) (window : Nat) (k : PartitionId) : Prop where
  id : inside.id = k
  crossing : ∀ (link : LinkId) (route : Route) (peer : LinkEnd),
    inside.routes.get link = .ok route → route.delivery = .across peer →
      window ≤ route.latency ∧ peer.partition ≠ k

variable {inside : Inside M} {window : Nat} {k : PartitionId} {a : Scheduled M.Payload}
  {o : Outcome M}

theorem Sound.outcome (h : inside.Sound window k) (ho : inside.outcome? a = some o) :
    o.inside.Sound window k := by
  rcases outcome?_eq_some ho with ⟨hwork, _, rfl⟩ | ⟨_, rfl⟩
  · exact ⟨h.id, h.crossing⟩
  · exact h

/-- Nothing is put on the agenda for the past. -/
theorem le_added (ho : inside.outcome? a = some o)
    (hexact : inside.Exact a.time a.priority a.payload) : ∀ x ∈ o.added, a.time ≤ x.time := by
  intro x hx
  rcases outcome?_eq_some ho with ⟨hwork, _, rfl⟩ | ⟨_, rfl⟩
  · obtain ⟨hsends, hticks, _⟩ := Classical.choose_spec
      (inside.exists_leads a.time a.priority hwork)
    obtain ⟨y, hy, rfl⟩ := List.mem_map.mp hx
    rcases List.mem_append.mp hy with hy | hy
    · obtain ⟨s, hs, _, rfl⟩ := Sent.mem_kept.mp hy
      rw [show (inside.effect a hwork).sends = _ from hsends] at hs
      have hmade := inside.made_sends _ _ _ s hs
      have hsent : s.sentAt = a.time := hmade.sentAt
      show a.time ≤ s.due
      unfold Sent.due
      rw [hsent]
      exact Time.le_trans (Time.le_after _ _) (Time.le_after _ _)
    · exact (hticks y hy).not_past hexact
  · cases hx

/-- What is sent to others is on its way for a window at least. -/
theorem Sound.le_due (h : inside.Sound window k) (ho : inside.outcome? a = some o) :
    ∀ s ∈ o.sends, s.leaves = true → a.time.after window ≤ s.due ∧ s.target.partition ≠ k := by
  intro s hs hleaves
  rcases outcome?_eq_some ho with ⟨hwork, _, rfl⟩ | ⟨_, rfl⟩
  · obtain ⟨hsends, _, _⟩ := Classical.choose_spec
      (inside.exists_leads a.time a.priority hwork)
    rw [show (inside.effect a hwork).sends = _ from hsends] at hs
    have hmade := inside.made_sends _ _ _ s hs
    have hsent : s.sentAt = a.time := hmade.sentAt
    cases hdelivery : s.route.delivery with
    | unwired => exact absurd hdelivery hmade.wired
    | within link => simp [Sent.leaves, hdelivery] at hleaves
    | across peer =>
      have htarget : s.target = peer := by simp [Sent.target, hdelivery]
      obtain ⟨hlatency, hother⟩ := h.crossing _ _ peer hmade.route hdelivery
      rw [htarget]
      refine ⟨?_, hother⟩
      unfold Sent.due
      rw [hsent]
      exact Time.le_trans (Time.after_mono (Time.le_refl _) hlatency) (Time.le_after _ _)
  · cases hs

theorem Sound.le_bound (h : inside.Sound window k) (ho : inside.outcome? a = some o)
    (j : PartitionId) : ∀ x ∈ Sent.bound o.sends j,
      a.time.after window ≤ x.time ∧ x.priority = Priority.event ∧ j ≠ k := by
  intro x hx
  obtain ⟨s, hs, hleaves, rfl, rfl⟩ := Sent.mem_bound.mp hx
  obtain ⟨hdue, hother⟩ := h.le_due ho s hs hleaves
  exact ⟨hdue, rfl, hother⟩

end Inside

/-! ## Dispatches -/

def Partition.Next.partition : Partition.Next M → Partition M
  | .dispatch p => p
  | .sync p => p
  | .stop _ p => p
  | .fail _ p => p

def Dispatch.handled (d : Dispatch M) : Handled M where
  activity := d.activity.unnumbered
  inside := d.partition.inside
  sends := d.sends
  after := (d.partition.act d.activity.payload).partition.inside

namespace Partition

variable {p : Partition M} {d : Dispatch M} {e : Effect M} {o : Outcome M}

theorem inside_of_next? (h : p.next? = some d) : d.partition.inside = p.inside := by
  obtain ⟨timeline, _, hpartition⟩ := next?_eq_some_iff.mp h
  rw [hpartition]
  rfl

theorem exact_handled (h : p.next? = some d) : d.handled.Exact ↔ d.Exact := by
  obtain ⟨_, hnow, hpriority⟩ := agenda_of_next? h
  unfold Dispatch.Exact
  rw [hnow, hpriority]
  exact Iff.rfl

/-- Two effects of one dispatch come to the same. -/
theorem after_eq_of_effects {e' : Effect M} (h : e.Of d) (h' : e'.Of d) (hfault : e.fault = none) :
    e'.fault = none ∧ d.partition.after e' = d.partition.after e := by
  have hact := (h.act d.partition rfl rfl rfl).symm.trans (h'.act d.partition rfl rfl rfl)
  unfold next at hact
  rw [hfault] at hact
  cases hfault' : e'.fault with
  | none =>
    rw [hfault'] at hact
    exact ⟨rfl, (Next.dispatch.inj hact).symm⟩
  | some err =>
    rw [hfault'] at hact
    cases hact

/-- What a dispatch of an event or a clock comes to, in a partition at any point of its run. -/
theorem outcome_of_work (hnext : p.next? = some d) (hwork : d.activity.payload.isWork = true)
    (heffect : e.Of d) (hfault : e.fault = none) :
    ∃ o, p.inside.outcome? d.activity.unnumbered = some o ∧ o.live = true ∧ o.sends = d.sends ∧
      o.inside = (d.partition.after e).inside ∧ (∀ a ∈ o.added, a.payload.isWork = true) ∧
      (d.partition.after e).timeline.agenda =
        Ordered.placeAll Activity.before o.added d.partition.timeline.agenda := by
  obtain ⟨_, hnow, hpriority⟩ := agenda_of_next? hnext
  have heffect' := Inside.effect_of hnow hpriority hwork
  obtain ⟨hfault', hafter⟩ := after_eq_of_effects heffect heffect' hfault
  rw [← inside_of_next? hnext]
  have ho := Inside.outcome?_work (a := d.activity.unnumbered) hwork hfault'
  refine ⟨_, ho, rfl, heffect'.sends, ?_, ?_, ?_⟩
  · rw [← hafter, inside_after]
  · intro a ha
    obtain ⟨b, hb, rfl⟩ := List.mem_map.mp ha
    exact (heffect'.added b hb).2
  · rw [← hafter]
    exact Timeline.agenda_addAll _ _

theorem fault_eq_none (hnext : p.next? = some d) (hwork : d.activity.payload.isWork = true)
    (heffect : e.Of d) (ho : p.inside.outcome? d.activity.unnumbered = some o) :
    e.fault = none := by
  obtain ⟨_, hnow, hpriority⟩ := agenda_of_next? hnext
  have heffect' := Inside.effect_of hnow hpriority hwork
  rw [← inside_of_next? hnext] at ho
  rcases Inside.outcome?_eq_some ho with ⟨_, hfault, _⟩ | ⟨hstop, _⟩
  · exact (after_eq_of_effects heffect' heffect hfault).1
  · rw [Activity.payload_unnumbered] at hstop
    rw [hstop] at hwork
    cases hwork

theorem handled_eq (hnext : p.next? = some d)
    (ho : p.inside.outcome? d.activity.unnumbered = some o) :
    d.handled = ⟨d.activity.unnumbered, p.inside, o.sends, o.inside⟩ := by
  rw [← inside_of_next? hnext] at ho ⊢
  cases hpayload : d.activity.payload with
  | sync =>
    rcases Inside.outcome?_eq_some ho with ⟨hwork, _⟩ | ⟨hstop, _⟩
    · simp [hpayload, Action.isWork] at hwork
    · simp [hpayload] at hstop
  | stop =>
    rw [Inside.outcome?_stop (by simpa using hpayload)] at ho
    cases ho
    simp [Dispatch.handled, Dispatch.sends, hpayload, Inside.sends, act, Next.partition]
  | deliver _ | clock _ =>
    have hwork : d.activity.payload.isWork = true := by
      rw [hpayload]
      rfl
    obtain ⟨e, heffect⟩ := d.exists_effect hwork
    rw [inside_of_next? hnext] at ho
    have hfault := fault_eq_none hnext hwork heffect ho
    obtain ⟨u, hu, _, hsends, hinside, _⟩ := outcome_of_work hnext hwork heffect hfault
    rw [ho] at hu
    cases hu
    have hact : d.partition.act d.activity.payload = .dispatch (d.partition.after e) := by
      rw [heffect.act d.partition rfl rfl rfl]
      simp [next, hfault]
    unfold Dispatch.handled
    rw [hact, hsends, hinside]
    rfl

end Partition

end Lookahead
