import Lookahead.Proofs.OnTime

/-!
What the partitions of a cohort agree on.

All partitions are in the same stage of the run. In the timed run they agree on the least pending
time at the last exchange and so on the next meeting, and they all get there or they all stop before
(`Fits.work`).
-/

namespace Lookahead

variable {M : Model}

/-- Where a run stands: in a phase before the timed run, in the timed run with what was the least
pending time, in a phase after it, or at its end. -/
inductive Moment where
  | init (phase : Nat)
  | timed (least : Time)
  | complete (phase : Nat)
  | finished

/-- Nobody gets to the next meeting: there is none for a partition that is alone, and otherwise
everyone stops before. -/
def Setting.Leaves (S : Setting) (least : Time) : Prop :=
  ¬ 1 < S.partitions ∨ ∃ time, S.stopAt = some time ∧ time ≤ least.after S.window

structure Partition.Meets (p : Partition M) (S : Setting) (least : Time) : Prop where
  order : p.timeline.InOrder
  current : p.timeline.Current
  now : p.timeline.now = least.after S.window
  nextSync : p.member.nextSync = least.after S.window
  syncs : p.timeline.agenda.filter Activity.isSync = []
  stops : p.timeline.agenda.filter Activity.isStop = S.stopAt.toList.map Activity.ofStop
  late : ∀ time, S.stopAt = some time → least.after S.window < time
  many : 1 < S.partitions

/-- What can be left to do where the timed run ends for this reason. -/
def Setting.Allows (S : Setting) (agenda : List (Scheduled M.Payload)) : StopReason → Prop
  | .stopAt => ∃ time, S.stopAt = some time ∧ ∀ a ∈ agenda, time ≤ a.time
  | .drained => ∀ a ∈ agenda, a.time = Time.never
  | .exhausted => agenda = []

/-- A partition that has left the timed run. -/
structure Partition.Finished (p : Partition M) (S : Setting) (stop : StopReason) : Prop where
  current : p.timeline.Current
  rest : S.Allows p.timeline.agenda stop

/-- Someone stands like this at a moment. -/
inductive Fits (S : Setting) : Moment → Stance M → Prop
  | preparing (phase : Nat) (p : Partition M) (h : p.OnTime S Time.zero) :
      Fits S (.init phase) (.running (.init phase) p)
  | prepared (phase : Nat) (p : Partition M) (own : Nat) (h : p.OnTime S Time.zero) :
      Fits S (.init phase) (.ready ⟨.init phase, p, .untimed own⟩)
  | running (least : Time) (p : Partition M) (h : p.OnTime S least)
      (hbuffers : p.Buffers S.exact (least.after S.window)) :
      Fits S (.timed least) (.running .timed p)
  | meeting (least : Time) (p : Partition M) (h : p.Meets S least)
      (hbuffers : p.Buffers S.exact (least.after S.window)) :
      Fits S (.timed least) (.ready ⟨.timed, p, .epoch⟩)
  | leaving (least : Time) (stop : StopReason) (p : Partition M) (hleaves : S.Leaves least)
      (h : p.Finished S stop) : Fits S (.timed least) (.running (.complete 0 stop) p)
  | left (least : Time) (stop : StopReason) (p : Partition M) (own : Nat)
      (hleaves : S.Leaves least) (h : p.Finished S stop) :
      Fits S (.timed least) (.ready ⟨.complete 0 stop, p, .untimed own⟩)
  | gone (least : Time) (stop : StopReason) (p : Partition M) (hleaves : S.Leaves least)
      (h : p.Finished S stop) : Fits S (.timed least) (.ended stop p)
  | completing (phase : Nat) (stop : StopReason) (p : Partition M) (h : p.Finished S stop) :
      Fits S (.complete phase) (.running (.complete phase stop) p)
  | completed (phase : Nat) (stop : StopReason) (p : Partition M) (own : Nat)
      (h : p.Finished S stop) :
      Fits S (.complete phase) (.ready ⟨.complete phase stop, p, .untimed own⟩)
  | finished (stop : StopReason) (p : Partition M) (h : p.Finished S stop) :
      Fits S .finished (.ended stop p)
  | failed (m : Moment) (e : RunError) (p : Partition M) : Fits S m (.failed e p)

def Cohort.Agrees (cohort : Cohort M) (S : Setting) (m : Moment) : Prop :=
  ∀ (i : Nat) (s : Stance M), cohort[i]? = some s → Fits S m s

/-! ## Working -/

namespace Partition

variable {p q : Partition M} {S : Setting} {least : Time}

theorem OnTime.phased (h : p.OnTime S least) (hphased : p.Phased q) : q.OnTime S least := by
  obtain ⟨outbound, inbox, state, participants, _, rfl⟩ := hphased
  exact ⟨h.order, h.current, h.pending, h.nextSync, h.syncs, h.stops⟩

theorem Finished.timeline {stop : StopReason} (h : p.Finished S stop)
    (htimeline : q.timeline = p.timeline) : q.Finished S stop :=
  ⟨htimeline ▸ h.current, htimeline ▸ h.rest⟩

theorem timeline_phased (hphased : p.Phased q) : q.timeline = p.timeline := by
  obtain ⟨outbound, inbox, state, participants, _, rfl⟩ := hphased
  rfl

/-- The first stop on an agenda is the configured one. -/
theorem OnTime.stop_eq (h : p.OnTime S least) {d : Dispatch M} (hnext : p.next? = some d)
    (hstop : d.activity.payload = .stop) :
    S.stopAt = some d.activity.time ∧ d.activity.priority = Priority.stop := by
  have hagenda := (agenda_of_next? hnext).1
  have hstops := h.stops
  have hyes : Activity.isStop d.activity.unnumbered = true := by
    simp [Activity.isStop, hstop]
  rw [hagenda, List.filter_cons_of_pos hyes] at hstops
  cases hat : S.stopAt with
  | none => simp [hat] at hstops
  | some time =>
    simp only [hat, Option.toList_some, List.map_cons, List.map_nil, List.cons.injEq] at hstops
    have htime := congrArg Activity.time hstops.1
    have hpriority := congrArg Activity.priority hstops.1
    simp only [Activity.time_unnumbered, Activity.ofStop] at htime
    exact ⟨by rw [htime], hpriority⟩

theorem OnTime.sync_eq (h : p.OnTime S least) {d : Dispatch M} (hnext : p.next? = some d)
    (hsync : d.activity.payload = .sync) :
    1 < S.partitions ∧ d.activity.time = least.after S.window ∧
      d.activity.priority = Priority.threadSync ∧
      d.partition.timeline.agenda.filter Activity.isSync = [] := by
  have hagenda := (agenda_of_next? hnext).1
  have hsyncs := h.syncs
  have hyes : Activity.isSync d.activity.unnumbered = true := by
    simp [Activity.isSync, hsync]
  rw [hagenda, List.filter_cons_of_pos hyes] at hsyncs
  by_cases hmany : 1 < S.partitions
  · rw [if_pos hmany] at hsyncs
    obtain ⟨hfirst, hrest⟩ := List.cons.inj hsyncs
    exact ⟨hmany, congrArg Activity.time hfirst, congrArg Activity.priority hfirst, hrest⟩
  · rw [if_neg hmany] at hsyncs
    cases hsyncs

/-- Whoever comes to the meeting has come in time. -/
theorem OnTime.meets (h : p.OnTime S least) {d : Dispatch M} (hnext : p.next? = some d)
    (hsync : d.activity.payload = .sync) : d.partition.Meets S least := by
  obtain ⟨hagenda, hnow, _⟩ := agenda_of_next? hnext
  obtain ⟨hmany, htime, hpriority, hsyncs⟩ := h.sync_eq hnext hsync
  obtain ⟨horder, hcurrent⟩ := h.of_next? hnext
  obtain ⟨timeline, _, hpartition⟩ := next?_eq_some_iff.mp hnext
  have hmember : d.partition.member = p.member := by rw [hpartition]
  have hstops : d.partition.timeline.agenda.filter Activity.isStop =
      S.stopAt.toList.map Activity.ofStop := by
    have hno : Activity.isStop d.activity.unnumbered = false := by
      simp [Activity.isStop, hsync]
    rw [← h.stops, hagenda, List.filter_cons_of_neg (by simp [hno])]
  refine ⟨horder, hcurrent, hnow.trans htime, ?_, hsyncs, hstops, ?_, hmany⟩
  · rw [hmember]
    exact h.nextSync
  · intro time hat
    have hmem : (Activity.ofStop time : Scheduled M.Payload) ∈ d.partition.timeline.agenda := by
      have : (Activity.ofStop time : Scheduled M.Payload) ∈
          d.partition.timeline.agenda.filter Activity.isStop := by
        rw [hstops, hat]
        simp
      exact (List.mem_filter.mp this).1
    have hafter := h.order.head_not_after hagenda _ hmem
    rw [Activity.not_before_iff] at hafter
    simp only [Activity.ofStop, Activity.time_unnumbered, Activity.priority_unnumbered,
      hpriority, Priority.stop, Priority.threadSync, htime] at hafter
    rw [Time.lt_def]
    omega

/-- Whoever stops before the meeting does so because everyone will. -/
theorem OnTime.leaves_of_stop (h : p.OnTime S least) {d : Dispatch M} (hnext : p.next? = some d)
    (hstop : d.activity.payload = .stop) :
    S.Leaves least ∧ d.partition.Finished S .stopAt := by
  obtain ⟨hagenda, hnow, _⟩ := agenda_of_next? hnext
  obtain ⟨hat, _⟩ := h.stop_eq hnext hstop
  obtain ⟨_, hcurrent⟩ := h.of_next? hnext
  refine ⟨?_, hcurrent, d.activity.time, hat, ?_⟩
  · by_cases hmany : 1 < S.partitions
    · refine Or.inr ⟨_, hat, ?_⟩
      have hmem : (Activity.ofMeeting (least.after S.window) : Scheduled M.Payload) ∈
          d.activity.unnumbered :: d.partition.timeline.agenda := by
        have : (Activity.ofMeeting (least.after S.window) : Scheduled M.Payload) ∈
            p.timeline.agenda.filter Activity.isSync := by
          rw [h.syncs, if_pos hmany]
          exact List.mem_cons_self ..
        rw [← hagenda]
        exact (List.mem_filter.mp this).1
      rcases List.mem_cons.mp hmem with heq | hmem
      · rw [← Activity.time_unnumbered d.activity, ← heq]
        exact Time.le_refl _
      · exact Activity.time_le_of_not_before (h.order.head_not_after hagenda _ hmem)
    · exact Or.inl hmany
  · intro a ha
    rw [← hnow]
    exact hcurrent a ha

/-- Only a partition that is alone can run out of activities. -/
theorem OnTime.alone_of_idle (h : p.OnTime S least) (hnext : p.next? = none) :
    ¬ 1 < S.partitions := by
  intro hmany
  have hsyncs := h.syncs
  rw [next?_eq_none_iff.mp hnext, if_pos hmany] at hsyncs
  cases hsyncs

theorem OnTime.leaves_of_idle (h : p.OnTime S least) (hnext : p.next? = none) :
    S.Leaves least ∧ p.Finished S .exhausted :=
  have hempty := next?_eq_none_iff.mp hnext
  ⟨Or.inl (h.alone_of_idle hnext), fun a ha => by simp [hempty] at ha, hempty⟩

end Partition

namespace Fits

variable {S : Setting} {m : Moment} {p : Partition M} {i : Nat}

theorem finishTimed {least : Time} {stop : StopReason} (hleaves : S.Leaves least)
    (h : p.Finished S stop) : Fits S (.timed least) (Thread.finishTimed stop p).stance := by
  unfold Thread.finishTimed
  split
  · exact .leaving least stop _ hleaves (h.timeline rfl)
  · exact .gone least stop p hleaves h

/-- A partition that works on does not leave the moment. -/
theorem work {work : Work} (h : Fits S m (.running work p)) (hconforms : p.Conforms S i)
    (hexact : S.exact → ∀ d, work.dispatch? p = some d → d.Exact) :
    Fits S m (Thread.workOn work p).stance := by
  cases h with
  | preparing phase p h =>
    have hphases := Thread.phases_runPhase (.init phase) .init phase p
    show Fits S _ (Thread.runPhase (.init phase) .init phase p).stance
    generalize Thread.runPhase (.init phase) .init phase p = t at hphases
    cases hphases with
    | ready own q hphased => exact .prepared phase _ own (h.phased hphased)
    | failed e q hphased => exact .failed ..
  | leaving least stop p hleaves h =>
    have hphases := Thread.phases_runPhase (.complete 0 stop) .complete 0 p
    show Fits S _ (Thread.runPhase (.complete 0 stop) .complete 0 p).stance
    generalize Thread.runPhase (.complete 0 stop) .complete 0 p = t at hphases
    cases hphases with
    | ready own q hphased =>
      exact .left least stop _ own hleaves (h.timeline (Partition.timeline_phased hphased))
    | failed e q hphased => exact .failed ..
  | completing phase stop p h =>
    have hphases := Thread.phases_runPhase (.complete phase stop) .complete phase p
    show Fits S _ (Thread.runPhase (.complete phase stop) .complete phase p).stance
    generalize Thread.runPhase (.complete phase stop) .complete phase p = t at hphases
    cases hphases with
    | ready own q hphased =>
      exact .completed phase stop _ own (h.timeline (Partition.timeline_phased hphased))
    | failed e q hphased => exact .failed ..
  | running least p h hbuffers =>
    have hworks := Thread.works_workOn p
    generalize Thread.workOn .timed p = t at hworks
    cases hworks with
    | idle hnext =>
      obtain ⟨hleaves, hfinished⟩ := h.leaves_of_idle hnext
      exact finishTimed hleaves hfinished
    | work d e hnext hwork heffect =>
      exact .running least _ (h.after hnext hwork heffect fun hsafe => hexact hsafe d hnext)
        (hbuffers.after h hconforms hnext heffect)
    | failed d e err hnext => exact .failed ..
    | sync d hnext hsync =>
      have hmeets := h.meets hnext hsync
      obtain ⟨timeline, _, hpartition⟩ := Partition.next?_eq_some_iff.mp hnext
      have hmember : d.partition.member = p.member := by rw [hpartition]
      have hid : d.partition.id = p.id := by rw [hpartition]
      refine .meeting least { d.partition with member := d.partition.member.startEpoch } ?_ ?_
      · exact ⟨hmeets.order, hmeets.current, hmeets.now, hmeets.nextSync, hmeets.syncs,
          hmeets.stops, hmeets.late, hmeets.many⟩
      · intro j box hbox
        have hbox' : d.partition.member.outbound[j]? = some box := hbox
        rw [hmember] at hbox'
        intro a ha
        obtain ⟨hother, hwaits⟩ := hbuffers j box hbox' a ha
        exact ⟨fun heq => hother (heq.trans hid), hwaits⟩
    | stop d hnext hstop =>
      obtain ⟨hleaves, hfinished⟩ := h.leaves_of_stop hnext hstop
      exact finishTimed hleaves hfinished

end Fits

end Lookahead
