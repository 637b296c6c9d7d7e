import Lookahead.Proofs.Cohort
import Lookahead.Proofs.Effect

/-!
What a step of a partition's own work can be, and what no step ever changes.

A step of the timed run finds an empty agenda or makes a dispatch, and what a dispatch leads to
depends on its activity (`Thread.works_workOn`). A step of an untimed stage is a phase, which does
not touch the timeline. Partitions keep their places, and a cohort as a whole keeps its size.
-/

namespace Lookahead

variable {M : Model}

/-! ## The timed run -/

namespace Dispatch

def sends (d : Dispatch M) : List (Sent M.Payload) :=
  d.partition.inside.sends d.partition.timeline.now d.partition.timeline.priority
    d.activity.payload

def desk (d : Dispatch M) : Desk M.Ticker M.State :=
  d.partition.inside.desk d.partition.timeline.now d.partition.timeline.priority

/-- If a dispatch makes the scheduling of a clock overflow, the thread panics: no number of 64 bits
or more is cut down without notice. -/
def Exact (d : Dispatch M) : Prop :=
  d.partition.inside.Exact d.partition.timeline.now d.partition.timeline.priority
    d.activity.payload

/-- A build that panics lets nothing pass unnoticed. -/
theorem exact_of_panics (h : M.overflow = .panics) (d : Dispatch M) : d.Exact := Or.inl h

/-- Meetings and the stop schedule no clock. -/
theorem exact_of_rest {d : Dispatch M} (h : d.activity.payload.isWork = false) : d.Exact := by
  refine Or.inr ?_
  cases hpayload : d.activity.payload with
  | deliver event => rw [hpayload] at h; cases h
  | clock id => rw [hpayload] at h; cases h
  | sync => rfl
  | stop => rfl

theorem made_sends (d : Dispatch M) : ∀ s ∈ d.sends, d.desk.Made s :=
  Inside.made_sends _ _ _ _

end Dispatch

/-- `e` is the effect of a dispatch, wherever it is made with the same things inside. -/
structure Effect.Of (e : Effect M) (d : Dispatch M) : Prop where
  sends : e.sends = d.sends
  ticks : ∀ a ∈ e.ticks, a.IsTick d.partition.timeline.now d.Exact
  act : ∀ p : Partition M, p.inside = d.partition.inside →
    p.timeline.now = d.partition.timeline.now →
    p.timeline.priority = d.partition.timeline.priority →
      p.act d.activity.payload = p.next e

theorem Dispatch.exists_effect (d : Dispatch M) (h : d.activity.payload.isWork = true) :
    ∃ e : Effect M, e.Of d := by
  obtain ⟨e, hsends, hticks, hact⟩ := d.partition.inside.exists_leads
    d.partition.timeline.now d.partition.timeline.priority h
  exact ⟨e, hsends, hticks, hact⟩

namespace Partition

theorem next?_eq_none_iff {p : Partition M} : p.next? = none ↔ p.timeline.agenda = [] := by
  unfold next?
  cases hagenda : p.timeline.agenda with
  | nil =>
    have hempty : p.timeline.queue.entries = [] := by simpa [Timeline.agenda] using hagenda
    simp [Timeline.advance, Queue.pop, hempty]
  | cons a rest =>
    obtain ⟨b, next, hadvance, _⟩ := Timeline.advance_of_agenda_cons hagenda
    simp [hadvance]

theorem next?_eq_some_iff {p : Partition M} {d : Dispatch M} :
    p.next? = some d ↔
      ∃ timeline, p.timeline.advance = .ok (d.activity, timeline) ∧
        d.partition = { p with timeline } := by
  unfold next?
  cases hadvance : p.timeline.advance with
  | error e => simp
  | ok result =>
    obtain ⟨activity, timeline⟩ := result
    obtain ⟨activity', partition⟩ := d
    simp only [Option.some.injEq, Dispatch.mk.injEq, Except.ok.injEq, Prod.mk.injEq]
    constructor
    · rintro ⟨rfl, rfl⟩
      exact ⟨timeline, ⟨rfl, rfl⟩, rfl⟩
    · rintro ⟨_, ⟨rfl, rfl⟩, rfl⟩
      exact ⟨rfl, rfl⟩

/-- What a dispatch takes was first on the agenda, and the partition has moved to it. -/
theorem agenda_of_next? {p : Partition M} {d : Dispatch M} (h : p.next? = some d) :
    p.timeline.agenda = d.activity.unnumbered :: d.partition.timeline.agenda ∧
      d.partition.timeline.now = d.activity.time ∧
      d.partition.timeline.priority = d.activity.priority := by
  obtain ⟨timeline, hadvance, hpartition⟩ := next?_eq_some_iff.mp h
  rw [hpartition]
  exact Timeline.agenda_of_advance hadvance

theorem mem_agenda_of_next? {p : Partition M} {d : Dispatch M} (h : p.next? = some d) :
    d.activity.unnumbered ∈ p.timeline.agenda := by
  rw [(agenda_of_next? h).1]
  exact List.mem_cons_self

theorem mem_agenda_of_rest {p : Partition M} {d : Dispatch M} (h : p.next? = some d)
    {a : Scheduled M.Payload} (ha : a ∈ d.partition.timeline.agenda) : a ∈ p.timeline.agenda := by
  rw [(agenda_of_next? h).1]
  exact List.mem_cons_of_mem _ ha

theorem inOrder_of_next? {p : Partition M} {d : Dispatch M} (h : p.next? = some d)
    (horder : p.timeline.InOrder) : d.partition.timeline.InOrder := by
  obtain ⟨timeline, hadvance, hpartition⟩ := next?_eq_some_iff.mp h
  rw [hpartition]
  exact horder.of_advance hadvance

end Partition

namespace Thread

/-- What a step of the timed run can come to. -/
inductive Works (p : Partition M) : Thread M → Prop
  | idle (h : p.next? = none) : Works p (finishTimed .exhausted p)
  | work (d : Dispatch M) (e : Effect M) (h : p.next? = some d)
      (hwork : d.activity.payload.isWork = true) (heffect : e.Of d) (hfault : e.fault = none) :
      Works p (.running .timed (d.partition.after e))
  | failed (d : Dispatch M) (e : Effect M) (err : RunError) (h : p.next? = some d)
      (hwork : d.activity.payload.isWork = true) (heffect : e.Of d)
      (hfault : e.fault = some err) : Works p (fail err (d.partition.after e))
  | sync (d : Dispatch M) (h : p.next? = some d) (hsync : d.activity.payload = .sync) :
      Works p (beginRound .timed d.partition .epoch)
  | stop (d : Dispatch M) (h : p.next? = some d) (hstop : d.activity.payload = .stop) :
      Works p (finishTimed .stopAt d.partition)

theorem dispatch_eq {p : Partition M} {d : Dispatch M} (h : p.next? = some d) :
    p.dispatch = d.partition.act d.activity.payload := by
  obtain ⟨timeline, hadvance, hpartition⟩ := Partition.next?_eq_some_iff.mp h
  have hne : p.timeline.isEmpty = false := by
    rw [← Bool.not_eq_true, Timeline.isEmpty_iff, (Partition.agenda_of_next? h).1]
    simp
  simp [Partition.dispatch, hne, hadvance, hpartition]

theorem works_workOn (p : Partition M) : Works p (workOn .timed p) := by
  cases hnext : p.next? with
  | none =>
    have hempty := Timeline.isEmpty_iff.mpr (Partition.next?_eq_none_iff.mp hnext)
    have : workOn .timed p = finishTimed .exhausted p := by
      simp [workOn, Partition.dispatch, hempty]
    rw [this]
    exact .idle hnext
  | some d =>
    cases hpayload : d.activity.payload with
    | sync =>
      have : workOn .timed p = beginRound .timed d.partition .epoch := by
        simp [workOn, dispatch_eq hnext, hpayload, Partition.act]
      rw [this]
      exact .sync d hnext hpayload
    | stop =>
      have : workOn .timed p = finishTimed .stopAt d.partition := by
        simp [workOn, dispatch_eq hnext, hpayload, Partition.act]
      rw [this]
      exact .stop d hnext hpayload
    | deliver _ | clock _ =>
      have hwork : d.activity.payload.isWork = true := by
        rw [hpayload]
        rfl
      obtain ⟨e, heffect⟩ := d.exists_effect hwork
      have hact := heffect.act d.partition rfl rfl rfl
      cases hfault : e.fault with
      | none =>
        have : workOn .timed p = .running .timed (d.partition.after e) := by
          simp [workOn, dispatch_eq hnext, hact, Partition.next, hfault]
        rw [this]
        exact .work d e hnext hwork heffect hfault
      | some err =>
        have : workOn .timed p = fail err (d.partition.after e) := by
          simp [workOn, dispatch_eq hnext, hact, Partition.next, hfault]
        rw [this]
        exact .failed d e err hnext hwork heffect hfault

/-- Where there are no untimed handlers the timed run is all there is. -/
theorem stance_finishTimed {p : Partition M} (stop : StopReason)
    (hlifecycle : p.lifecycle = false) :
    (finishTimed stop p).stance = .ended stop p := by
  unfold finishTimed
  rw [hlifecycle, if_neg Bool.false_ne_true]
  rfl

end Thread

/-! ## Untimed stages -/

theorem PhaseContext.length_send {σ π : Type} {ctx ctx' : PhaseContext σ π} {link : LinkId}
    {payload : π} (h : ctx.send link payload = .ok ctx') :
    ctx'.outbound.length = ctx.outbound.length := by
  unfold PhaseContext.send at h
  cases hroute : ctx.routes.get link with
  | error e =>
    rw [hroute] at h
    cases h
  | ok route =>
    simp only [hroute, bind, Except.bind] at h
    split at h
    · cases h
    · cases h
      rfl
    · split at h
      · cases h
      · cases h
        exact List.length_set

theorem PhaseProgram.length_run {σ π α : Type} (program : PhaseProgram σ π α)
    (ctx : PhaseContext σ π) : (program.run ctx).1.outbound.length = ctx.outbound.length := by
  induction program generalizing ctx with
  | done value => rfl
  | panic => rfl
  | «recall» next ih => exact ih _ ctx
  | remember state next ih => exact ih _
  | send link payload next ih =>
    simp only [run]
    cases hsend : ctx.send link payload with
    | error e => exact ih _ ctx
    | ok ctx' => exact (ih _ ctx').trans (PhaseContext.length_send hsend)
  | receive link next ih =>
    simp only [run]
    split
    · exact ih _ _
    · exact ih _ ctx
  | waiting link next ih => exact ih _ ctx

namespace Partition

def Phased (p q : Partition M) : Prop :=
  ∃ (outbound : List (Outbox M.Payload)) (inbox : Inbox M.Payload) (state : M.State)
    (participants : List M.Participant),
    outbound.length = p.member.outbound.length ∧
      q = { p with member := { p.member with outbound }, inbox, state, participants }

theorem length_callParticipants (view : PhaseView) (participants : List M.Participant)
    (ctx : M.PhaseContext) :
    (callParticipants view participants ctx).1.outbound.length = ctx.outbound.length := by
  induction participants generalizing ctx with
  | nil => rfl
  | cons participant rest ih =>
    have hrun := PhaseProgram.length_run (M.phase participant view) ctx
    unfold callParticipants
    cases hresult : (M.phase participant view).run ctx with
    | mk ctx' value =>
      rw [hresult] at hrun
      match value with
      | none => exact hrun
      | some (.error e) => exact hrun
      | some (.ok participant') =>
        have hrest := ih ctx'
        simp only
        split
        · rename_i heq
          rw [heq] at hrest
          exact hrest.trans hrun
        · exact hrest.trans hrun

theorem phased_runPhase (p : Partition M) (stage : Stage) (phase : Nat) :
    p.Phased (p.runPhase stage phase).2 := by
  have hlength := length_callParticipants (.after p.id stage phase) p.participants p.phaseContext
  unfold runPhase
  split
  · exact ⟨p.member.outbound, p.inbox, p.state, p.participants, rfl, rfl⟩
  cases hcall : callParticipants (.after p.id stage phase) p.participants p.phaseContext with
  | mk ctx result =>
    rw [hcall] at hlength
    match result with
    | none => exact ⟨ctx.outbound, ctx.inbox, ctx.state, p.participants, hlength, rfl⟩
    | some (.error e) => exact ⟨ctx.outbound, ctx.inbox, ctx.state, p.participants, hlength, rfl⟩
    | some (.ok participants) =>
      exact ⟨ctx.outbound, ctx.inbox.commit, ctx.state, participants, hlength, rfl⟩

end Partition

/-- What a step of an untimed stage can come to. -/
inductive Thread.Phases (work : Work) (p : Partition M) : Thread M → Prop
  | ready (own : Nat) (q : Partition M) (h : p.Phased q) :
      Phases work p (beginRound work q (.untimed own))
  | failed (e : RunError) (q : Partition M) (h : p.Phased q) : Phases work p (fail e q)

theorem Thread.phases_runPhase (work : Work) (stage : Stage) (phase : Nat) (p : Partition M) :
    Phases work p (Thread.runPhase work stage phase p) := by
  have hphased := p.phased_runPhase stage phase
  unfold Thread.runPhase
  cases hrun : p.runPhase stage phase with
  | mk result q =>
    rw [hrun] at hphased
    cases result with
    | ok own => exact .ready own q hphased
    | error e => exact .failed e q hphased

/-! ## What never changes -/

/-- `p` and `q` agree in all that no step changes. -/
structure Partition.Like (p q : Partition M) : Prop where
  id : p.id = q.id
  routes : p.routes = q.routes
  lifecycle : p.lifecycle = q.lifecycle
  synchronized : p.synchronized = q.synchronized
  stopAt : p.stopAt = q.stopAt
  member : p.member.id = q.member.id
  window : p.member.window = q.member.window
  outboxes : p.member.outbound.length = q.member.outbound.length

namespace Partition.Like

variable {p q r : Partition M}

theorem refl (p : Partition M) : p.Like p := ⟨rfl, rfl, rfl, rfl, rfl, rfl, rfl, rfl⟩

theorem trans (h : p.Like q) (h' : q.Like r) : p.Like r :=
  ⟨h.id.trans h'.id, h.routes.trans h'.routes, h.lifecycle.trans h'.lifecycle,
    h.synchronized.trans h'.synchronized, h.stopAt.trans h'.stopAt, h.member.trans h'.member,
    h.window.trans h'.window, h.outboxes.trans h'.outboxes⟩

theorem next? {d : Dispatch M} (h : p.next? = some d) : d.partition.Like p := by
  obtain ⟨timeline, _, hpartition⟩ := Partition.next?_eq_some_iff.mp h
  rw [hpartition]
  exact ⟨rfl, rfl, rfl, rfl, rfl, rfl, rfl, rfl⟩

theorem after (p : Partition M) (e : Effect M) : (p.after e).Like p :=
  ⟨rfl, rfl, rfl, rfl, rfl, rfl, rfl, Sent.length_postAll ..⟩

theorem phased (h : p.Phased q) : q.Like p := by
  obtain ⟨outbound, inbox, state, participants, hlength, rfl⟩ := h
  exact ⟨rfl, rfl, rfl, rfl, rfl, rfl, rfl, hlength⟩

theorem beginRound (work : Work) (p : Partition M) (kind : Round.Kind) :
    (Thread.beginRound work p kind).stance.partition.Like p := by
  cases kind <;> exact ⟨rfl, rfl, rfl, rfl, rfl, rfl, rfl, rfl⟩

theorem finishTimed (stop : StopReason) (p : Partition M) :
    (Thread.finishTimed stop p).stance.partition.Like p := by
  unfold Thread.finishTimed
  split
  · exact ⟨rfl, rfl, rfl, rfl, rfl, rfl, rfl, List.length_map ..⟩
  · exact refl p

theorem runPhase (work : Work) (stage : Stage) (phase : Nat) (p : Partition M) :
    (Thread.runPhase work stage phase p).stance.partition.Like p := by
  have hphases := Thread.phases_runPhase work stage phase p
  generalize Thread.runPhase work stage phase p = t at hphases
  cases hphases with
  | ready own q hphased => exact (beginRound ..).trans (phased hphased)
  | failed e q hphased => exact phased hphased

theorem workOn (work : Work) (p : Partition M) :
    (Thread.workOn work p).stance.partition.Like p := by
  cases work with
  | init phase => exact runPhase ..
  | complete phase stop => exact runPhase ..
  | timed =>
    have hworks := Thread.works_workOn p
    generalize Thread.workOn .timed p = t at hworks
    cases hworks with
    | idle hnext => exact finishTimed ..
    | work d e hnext => exact (after ..).trans (next? hnext)
    | failed d e err hnext => exact (after ..).trans (next? hnext)
    | sync d hnext => exact (beginRound ..).trans (next? hnext)
    | stop d hnext => exact (finishTimed ..).trans (next? hnext)

theorem afterUntimed (work : Work) (p : Partition M) (kind : Round.Kind)
    (received : List (Event M.Payload)) (more : Bool) :
    (Thread.afterRound work p kind (.untimed received more)).stance.partition.Like p := by
  unfold Thread.afterRound
  dsimp only
  split <;> exact ⟨rfl, rfl, rfl, rfl, rfl, rfl, rfl, rfl⟩

theorem handed (q : Party M) : q.handed.Like q.partition := by
  have hlength : (q.partition.member.outbound.map fun _ => ({} : Outbox M.Payload)).length =
      q.partition.member.outbound.length := List.length_map ..
  unfold Party.handed
  cases q.kind <;> exact ⟨rfl, rfl, rfl, rfl, rfl, rfl, rfl, hlength⟩

theorem taken (q : Party M) (incoming : List (Scheduled M.Payload)) :
    (q.taken incoming).Like q.partition := by
  obtain ⟨hid, hroutes, hlifecycle, hsynchronized, hstopAt, hmember, hwindow, houtboxes⟩ := handed q
  unfold Party.taken
  cases q.kind <;>
    exact ⟨hid, hroutes, hlifecycle, hsynchronized, hstopAt, hmember, hwindow, houtboxes⟩

theorem conclude (q : Party M) (incoming : List (Scheduled M.Payload)) (least : Time) :
    (q.conclude incoming least).stance.partition.Like q.partition := by
  refine trans ?_ (taken q incoming)
  unfold Party.conclude
  dsimp only
  split
  · split
    · exact (finishTimed ..).trans ⟨rfl, rfl, rfl, rfl, rfl, rfl, rfl, rfl⟩
    · exact ⟨rfl, rfl, rfl, rfl, rfl, rfl, rfl, rfl⟩
  · exact (afterUntimed ..).trans ⟨rfl, rfl, rfl, rfl, rfl, rfl, rfl, rfl⟩

end Partition.Like

namespace Cohort

theorem length_step? {cohort next : Cohort M} {label : Option PartitionId}
    (h : cohort.step? label = some next) : next.length = cohort.length := by
  cases label with
  | some i =>
    obtain ⟨work, p, _, rfl⟩ := step?_some_iff.mp h
    exact List.length_set
  | none =>
    obtain ⟨parties, _, rfl, rfl⟩ := exchange?_eq_some_iff.mp h
    rw [exchanged, List.length_mapIdx, List.length_map]

/-- Whoever stands somewhere after a step stood there before, and was like it. -/
theorem like_step? {cohort next : Cohort M} {label : Option PartitionId}
    (h : cohort.step? label = some next) {j : Nat} {s : Stance M} (hs : next[j]? = some s) :
    ∃ s', cohort[j]? = some s' ∧ s.partition.Like s'.partition := by
  cases label with
  | some i =>
    obtain ⟨work, p, hi, rfl⟩ := step?_some_iff.mp h
    by_cases hij : i = j
    · subst hij
      rw [List.getElem?_set_self (List.getElem?_eq_some_iff.mp hi).1] at hs
      cases hs
      exact ⟨_, hi, .workOn work p⟩
    · rw [List.getElem?_set_ne hij] at hs
      exact ⟨s, hs, .refl _⟩
  | none =>
    obtain ⟨parties, _, rfl, rfl⟩ := exchange?_eq_some_iff.mp h
    obtain ⟨q, hq, rfl⟩ := getElem?_exchanged hs
    exact ⟨.ready q, Cohort.getElem?_ready hq, .conclude ..⟩

end Cohort

/-! ## Places -/

/-- A partition at its place among `n`. -/
structure Partition.Placed (p : Partition M) (n i : Nat) : Prop where
  id : p.id = i
  member : p.member.id = i
  outboxes : p.member.outbound.length = n

theorem Partition.Placed.like {p q : Partition M} {n i : Nat} (h : q.Placed n i)
    (hlike : p.Like q) : p.Placed n i :=
  ⟨hlike.id.trans h.id, hlike.member.trans h.member, hlike.outboxes.trans h.outboxes⟩

def Cohort.Placed (cohort : Cohort M) : Prop := ∀ (i : Nat) (s : Stance M), cohort[i]? = some s →
  s.partition.Placed cohort.length i

def Party.Placed (parties : List (Party M)) : Prop := ∀ (i : Nat) (q : Party M),
  parties[i]? = some q → q.partition.Placed parties.length i

theorem Cohort.Placed.parties {parties : List (Party M)}
    (h : Cohort.Placed (parties.map Stance.ready)) : Party.Placed parties := by
  intro i q hq
  have := h i (.ready q) (Cohort.getElem?_ready hq)
  rw [List.length_map] at this
  exact this

theorem Cohort.Placed.step {cohort next : Cohort M} (h : cohort.Placed)
    {label : Option PartitionId} (hstep : cohort.step? label = some next) : next.Placed := by
  intro j s hs
  obtain ⟨s', hs', hlike⟩ := Cohort.like_step? hstep hs
  rw [Cohort.length_step? hstep]
  exact (h j s' hs').like hlike

end Lookahead
