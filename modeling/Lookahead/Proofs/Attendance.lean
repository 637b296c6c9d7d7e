import Lookahead.Proofs.Conservation
import Lookahead.Proofs.Leaving

/-!
What is to be seen of the meetings in one partition.

A partition that is on schedule has come to all meetings so far, each of them a window after the one
before at least, and the next one is still to come (`Stance.OnSchedule`). It stays on schedule while
it works, and a round of the exchange brings it to the next entry of the schedule, if the round is
an epoch.
-/

namespace Lookahead

variable {M : Model}

namespace Seat

theorem nextMeeting_eq (least : Time) (window : Nat) :
    nextMeeting least window = least.after window := by
  have hafter := Time.le_after least window
  apply Time.ext
  rw [Time.le_def] at hafter
  rw [nextMeeting, Time.ticks_max]
  omega

end Seat

/-! ## What is to be seen of meetings -/

theorem countP_eq_total {α : Type} (p : α → Bool) (items : List α) :
    items.countP p = total (fun a => if p a then 1 else 0) items := by
  induction items with
  | nil => rfl
  | cons a rest ih => rw [List.countP_cons, total_cons, ih, Nat.add_comm]

namespace Dispatch

def isWork (d : Dispatch M) : Bool := d.activity.payload.isWork

theorem isSync_of_isWork {d : Dispatch M} (h : d.isWork = true) : d.activity.isSync = false :=
  (Activity.isWork_iff.mp h).1

theorem isWork_eq_false {d : Dispatch M} (h : d.activity.payload = .sync ∨
    d.activity.payload = .stop) : d.isWork = false := by
  rcases h with h | h <;> simp [isWork, h, Action.isWork]

theorem delivered_add_cycles {d : Dispatch M} (h : d.isWork = true) :
    d.delivered.length + d.cycles = 1 := by
  unfold isWork at h
  cases hpayload : d.activity.payload with
  | deliver event => simp [delivered, cycles, Activity.isDelivery, Action.event?, hpayload]
  | clock id => simp [delivered, cycles, Activity.isDelivery, Action.event?, hpayload]
  | sync => simp [hpayload, Action.isWork] at h
  | stop => simp [hpayload, Action.isWork] at h

end Dispatch

def meetings (seen : List (Dispatch M)) : List Time :=
  (seen.filter fun d => d.activity.isSync).map fun d => d.activity.time

/-- After its meeting of this number, and before the next one, a partition dispatched something. -/
def WorkedAfter (number : Nat) (seen : List (Dispatch M)) : Prop :=
  ∃ front d back, seen = front ++ d :: back ∧ d.isWork = true ∧ (meetings front).length = number

@[simp] theorem meetings_append (front back : List (Dispatch M)) :
    meetings (front ++ back) = meetings front ++ meetings back := by
  simp [meetings]

theorem meetings_of_isSync_eq_false {d : Dispatch M} (h : d.activity.isSync = false) :
    meetings [d] = [] := by
  simp [meetings, h]

theorem WorkedAfter.append {number : Nat} {seen : List (Dispatch M)} (h : WorkedAfter number seen)
    (later : List (Dispatch M)) : WorkedAfter number (seen ++ later) := by
  obtain ⟨front, d, back, rfl, hwork, hnumber⟩ := h
  exact ⟨front, d, back ++ later, by simp, hwork, hnumber⟩

/-- After the meeting of this number, and before the next one, someone dispatched something. -/
def Busy (number : Nat) (trace : List (PartitionId × Dispatch M)) : Prop :=
  ∃ j, WorkedAfter number (System.seenOf j trace)

theorem Busy.append {number : Nat} {trace : List (PartitionId × Dispatch M)}
    (h : Busy number trace) (later : List (PartitionId × Dispatch M)) :
    Busy number (trace ++ later) := by
  obtain ⟨j, hj⟩ := h
  exact ⟨j, by rw [System.seenOf_append]; exact hj.append _⟩

def labour (trace : List (PartitionId × Dispatch M)) : Nat :=
  trace.countP fun entry => entry.2.isWork

theorem labour_append (front back : List (PartitionId × Dispatch M)) :
    labour (front ++ back) = labour front + labour back := List.countP_append

theorem labour_noteAt (i : PartitionId) (dispatch : Option (Dispatch M)) :
    labour (noteAt i dispatch) = dispatch.toList.countP Dispatch.isWork := by
  cases dispatch with
  | none => rfl
  | some d => by_cases hwork : d.isWork <;> simp [labour, noteAt, hwork]

/-! ## One partition -/

def Partition.worked (p : Partition M) : Nat := p.tally.events + p.tally.clockFires

namespace Stance

/-- Has it come to a meeting that has not taken place yet? -/
def awaits : Stance M → Bool
  | .ready ⟨_, _, .epoch⟩ => true
  | _ => false

def timed? : Stance M → Option (Partition M)
  | .running .timed p => some p
  | .ready ⟨.timed, p, .epoch⟩ => some p
  | _ => none

/-- How a partition stands when the meetings took place at these times: it has come to all of them,
and perhaps to the next one, and unless it has left the timed run, that one is still to come. -/
structure OnSchedule (window : Nat) (times : List Time) (seen : List (Dispatch M))
    (s : Stance M) : Prop where
  meetings : meetings seen =
    if s.awaits then times ++ [s.partition.member.nextSync] else times
  epochs : s.partition.member.epochs = times.length
  worked : s.partition.worked = seen.countP Dispatch.isWork
  ahead : s.exit? = none → (∀ t ∈ times, t < s.partition.member.nextSync) ∧
    Time.ofNat ((times.length + 1) * window) ≤ s.partition.member.nextSync

theorem OnSchedule.congr {window : Nat} {times : List Time} {seen : List (Dispatch M)}
    {s s' : Stance M} (h : s.OnSchedule window times seen) (hawaits : s'.awaits = s.awaits)
    (hepochs : s'.partition.member.epochs = s.partition.member.epochs)
    (hnext : s'.partition.member.nextSync = s.partition.member.nextSync)
    (hworked : s'.partition.worked = s.partition.worked)
    (hexit : s'.exit? = none → s.exit? = none) : s'.OnSchedule window times seen where
  meetings := by rw [hawaits, hnext]; exact h.meetings
  epochs := hepochs.trans h.epochs
  worked := hworked.trans h.worked
  ahead hs := by rw [hnext]; exact h.ahead (hexit hs)

end Stance

namespace Thread

variable (stop : StopReason) (p : Partition M)

@[simp] theorem awaits_finishTimed : (finishTimed stop p).stance.awaits = false := by
  unfold finishTimed
  cases p.lifecycle <;> rfl

@[simp] theorem timed?_finishTimed : (finishTimed stop p).stance.timed? = none := by
  unfold finishTimed
  cases p.lifecycle <;> rfl

@[simp] theorem epochs_finishTimed :
    (finishTimed stop p).stance.partition.member.epochs = p.member.epochs := by
  unfold finishTimed
  cases p.lifecycle <;> rfl

@[simp] theorem worked_finishTimed :
    (finishTimed stop p).stance.partition.worked = p.worked := by
  unfold finishTimed
  cases p.lifecycle <;> rfl

/-- Whoever is still in the timed run has been in it before, and goes to the same meeting. -/
theorem timed?_workOn {work : Work} {p q : Partition M}
    (h : (workOn work p).stance.timed? = some q) :
    work = .timed ∧ q.member.nextSync = p.member.nextSync := by
  have hpace := pace_workOn work p
  rw [← partition_stance_pace] at hpace
  have hphase : ∀ stage phase, work ≠ .timed →
      (runPhase work stage phase p).stance.timed? = none := by
    intro stage phase hwork
    have hphases := phases_runPhase work stage phase p
    generalize runPhase work stage phase p = t at hphases
    cases hphases with
    | failed => rfl
    | ready => cases work <;> rfl
  cases work with
  | init phase =>
    exact absurd ((hphase .init phase (by simp)).symm.trans h) (by simp)
  | complete phase stop =>
    exact absurd ((hphase .complete phase (by simp)).symm.trans h) (by simp)
  | timed =>
    refine ⟨rfl, ?_⟩
    have hpartition : (workOn .timed p).stance.partition = q := by
      generalize (workOn .timed p).stance = s at h
      unfold Stance.timed? at h
      split at h <;> cases h <;> rfl
    rw [hpartition] at hpace
    exact congrArg Pace.nextSync hpace

end Thread

namespace Partition

variable {p : Partition M} {d : Dispatch M} {S : Setting} {m : Moment} {window : Nat}
  {times : List Time} {seen : List (Dispatch M)}

theorem worked_next? (h : p.next? = some d) : d.partition.worked = p.worked := by
  obtain ⟨timeline, _, hpartition⟩ := next?_eq_some_iff.mp h
  rw [hpartition]
  rfl

theorem member_next? (h : p.next? = some d) : d.partition.member = p.member := by
  obtain ⟨timeline, _, hpartition⟩ := next?_eq_some_iff.mp h
  rw [hpartition]

theorem worked_after {e : Effect M} (hwork : d.isWork = true) (heffect : e.Of d)
    (hfault : e.fault = none) : (d.partition.after e).worked = d.partition.worked + 1 := by
  have hone := Dispatch.delivered_add_cycles hwork
  show e.tally.events + e.tally.clockFires = _
  rw [heffect.tally_eq hfault hwork]
  show d.partition.tally.events + d.delivered.length +
    (d.partition.tally.clockFires + d.cycles) = _
  unfold worked
  omega

theorem onSchedule_runPhase {work : Work} (hwork : work ≠ .timed) (stage : Stage) (phase : Nat)
    (h : (Stance.running work p).OnSchedule window times seen) :
    (∃ e q, (Thread.runPhase work stage phase p).stance = .failed e q) ∨
      (Thread.runPhase work stage phase p).stance.OnSchedule window times seen := by
  have hphases := Thread.phases_runPhase work stage phase p
  generalize Thread.runPhase work stage phase p = t at hphases
  cases hphases with
  | failed e q hphased => exact Or.inl ⟨e, q, rfl⟩
  | ready own q hphased =>
    obtain ⟨outbound, inbox, state, participants, _, rfl⟩ := hphased
    refine Or.inr (h.congr rfl rfl rfl rfl fun hexit => ?_)
    cases work with
    | timed => exact absurd rfl hwork
    | init phase => rfl
    | complete phase stop => cases hexit

/-- A dispatch in the timed run keeps a partition on schedule. -/
theorem onSchedule_timed {least : Time} (hontime : p.OnTime S least)
    (h : (Stance.running .timed p).OnSchedule window times seen) (hnext : p.next? = some d) :
    (∃ e q, (Thread.workOn .timed p).stance = .failed e q) ∨
      (Thread.workOn .timed p).stance.OnSchedule window times (seen ++ [d]) := by
  have hmeetings : meetings seen = times := h.meetings
  have hworked : p.worked = seen.countP Dispatch.isWork := h.worked
  have hahead := h.ahead rfl
  have hepochs : d.partition.member.epochs = times.length := by
    rw [member_next? hnext]
    exact h.epochs
  have hcount : (seen ++ [d]).countP Dispatch.isWork =
      seen.countP Dispatch.isWork + if d.isWork then 1 else 0 := by
    rw [List.countP_append, List.countP_singleton]
  have hidle : d.isWork = false → d.partition.worked = (seen ++ [d]).countP Dispatch.isWork := by
    intro hwork
    rw [hcount, hwork, worked_next? hnext, hworked]
    rfl
  have hworks := Thread.works_workOn p
  generalize Thread.workOn .timed p = t at hworks
  cases hworks with
  | idle hnone => rw [hnext] at hnone; cases hnone
  | failed d' e err hnext' => exact Or.inl ⟨err, d'.partition.after e, rfl⟩
  | work d' e hnext' hwork heffect hfault =>
    obtain rfl : d = d' := Option.some.inj (hnext.symm.trans hnext')
    have hself : meetings [d] = [] :=
      meetings_of_isSync_eq_false (Dispatch.isSync_of_isWork hwork)
    refine Or.inr ⟨?_, hepochs, ?_, fun _ => ?_⟩
    · rw [meetings_append, hmeetings, hself, List.append_nil]
      rfl
    · show (d.partition.after e).worked = _
      rw [worked_after hwork heffect hfault, worked_next? hnext, hworked, hcount,
        if_pos (show d.isWork = true from hwork)]
    · show (∀ t ∈ times, t < d.partition.member.nextSync) ∧ _ ≤ d.partition.member.nextSync
      rw [member_next? hnext]
      exact hahead
  | sync d' hnext' hsync =>
    obtain rfl : d = d' := Option.some.inj (hnext.symm.trans hnext')
    have hself : meetings [d] = [p.member.nextSync] := by
      rw [hontime.nextSync, ← (hontime.sync_eq hnext hsync).2.1]
      simp [meetings, Activity.isSync, hsync]
    refine Or.inr ⟨?_, hepochs, hidle (Dispatch.isWork_eq_false (Or.inl hsync)), fun _ => ?_⟩
    · rw [meetings_append, hmeetings, hself]
      show _ = times ++ [d.partition.member.nextSync]
      rw [member_next? hnext]
    · show (∀ t ∈ times, t < d.partition.member.nextSync) ∧ _ ≤ d.partition.member.nextSync
      rw [member_next? hnext]
      exact hahead
  | stop d' hnext' hstop =>
    obtain rfl : d = d' := Option.some.inj (hnext.symm.trans hnext')
    have hself : meetings [d] = [] :=
      meetings_of_isSync_eq_false (by simp [Activity.isSync, hstop])
    refine Or.inr ⟨?_, ?_, ?_, fun hexit => ?_⟩
    · rw [meetings_append, hmeetings, hself, List.append_nil, Thread.awaits_finishTimed]
      rfl
    · rw [Thread.epochs_finishTimed, hepochs]
    · rw [Thread.worked_finishTimed, hidle (Dispatch.isWork_eq_false (Or.inr hstop))]
    · rw [Thread.exit?_finishTimed] at hexit
      cases hexit

theorem onSchedule_workOn {work : Work} (hmany : 1 < S.partitions)
    (hfits : Fits S m (.running work p))
    (h : (Stance.running work p).OnSchedule window times seen) :
    (∃ e q, (Thread.workOn work p).stance = .failed e q) ∨
      (Thread.workOn work p).stance.OnSchedule window times
        (seen ++ (work.dispatch? p).toList) := by
  have hnone : seen ++ (none : Option (Dispatch M)).toList = seen := List.append_nil seen
  cases hfits with
  | preparing phase p hontime =>
    have hrun := onSchedule_runPhase (fun heq => by cases heq) .init phase h
    rw [← hnone] at hrun
    exact hrun
  | leaving least stop p hleaves hfinished =>
    have hrun := onSchedule_runPhase (fun heq => by cases heq) .complete 0 h
    rw [← hnone] at hrun
    exact hrun
  | completing phase stop p hfinished =>
    have hrun := onSchedule_runPhase (fun heq => by cases heq) .complete phase h
    rw [← hnone] at hrun
    exact hrun
  | running least p hontime hbuffers =>
    cases hnext : p.next? with
    | none => exact absurd hmany (hontime.alone_of_idle hnext)
    | some d =>
      have hdispatch : (Work.dispatch? .timed p).toList = [d] := by
        show p.next?.toList = _
        rw [hnext]
        rfl
      rw [hdispatch]
      exact onSchedule_timed hontime h hnext

end Partition

/-! ## Rounds -/

namespace Party

variable {p : Partition M} {S : Setting} {i : Nat} {least : Time}

/-- An epoch that finds something left to do leads to the next meeting. -/
theorem conclude_resumed (h : p.Conforms S i) (incoming : List (Scheduled M.Payload))
    (hleast : least ≠ Time.never) :
    ∃ q : Partition M,
      (conclude ⟨.timed, p, .epoch⟩ incoming least).stance = .running .timed q ∧
      q.member.nextSync = least.after S.window ∧ q.member.epochs = p.member.epochs + 1 ∧
      q.worked = p.worked ∧
      ∀ a ∈ (p.timeline.addAll incoming).agenda, a ∈ q.timeline.agenda := by
  have hmeeting : Seat.nextMeeting least p.member.window = least.after S.window := by
    rw [Seat.nextMeeting_eq, h.window]
  unfold conclude
  simp only [hleast, ↓reduceIte]
  refine ⟨_, rfl, hmeeting, rfl, rfl, fun a ha => ?_⟩
  exact Timeline.mem_agenda_add.mpr (Or.inr ha)

/-- An epoch that finds nothing left to do ends the timed run. -/
theorem conclude_drained (p : Partition M) (incoming : List (Scheduled M.Payload)) :
    ∃ q : Partition M, (conclude ⟨.timed, p, .epoch⟩ incoming Time.never).stance =
        (Thread.finishTimed .drained q).stance ∧
      q.member.epochs = p.member.epochs + 1 ∧ q.worked = p.worked := by
  unfold conclude
  simp only [↓reduceIte]
  exact ⟨_, rfl, rfl, rfl⟩

/-- Whoever has left the timed run does not come back. -/
theorem timed?_conclude_complete (phase : Nat) (stop : StopReason) (p : Partition M) (own : Nat)
    (incoming : List (Scheduled M.Payload)) (least : Time) :
    (conclude ⟨.complete phase stop, p, .untimed own⟩ incoming least).stance.timed? = none := by
  unfold conclude
  by_cases hleast : least = Time.never <;> simp only [hleast, ne_eq, not_true_eq_false,
    not_false_eq_true, decide_false, decide_true, Thread.afterRound] <;> rfl

end Party

namespace Stance.OnSchedule

variable {p : Partition M} {window : Nat} {times : List Time} {seen : List (Dispatch M)}

/-- A round of an untimed stage has nothing to do with the schedule. -/
theorem conclude_untimed {work : Work} {own : Nat} (hwork : work ≠ .timed)
    (h : (Stance.ready ⟨work, p, .untimed own⟩).OnSchedule window times seen)
    (incoming : List (Scheduled M.Payload)) (least : Time) :
    (Party.conclude ⟨work, p, .untimed own⟩ incoming least).stance.OnSchedule window times
      seen := by
  unfold Party.conclude
  cases work with
  | timed => exact absurd rfl hwork
  | init phase =>
    by_cases hleast : least = Time.never <;> simp only [hleast, ne_eq, not_true_eq_false,
      not_false_eq_true, decide_false, decide_true, Thread.afterRound] <;>
      exact h.congr rfl rfl rfl rfl fun _ => rfl
  | complete phase stop =>
    by_cases hleast : least = Time.never <;> simp only [hleast, ne_eq, not_true_eq_false,
      not_false_eq_true, decide_false, decide_true, Thread.afterRound] <;>
      exact h.congr rfl rfl rfl rfl fun hexit => by cases hexit

theorem conclude_epoch {S : Setting} {i : Nat} {least next : Time} (hwindow : 1 ≤ S.window)
    (hmeets : p.Meets S least) (hconforms : p.Conforms S i)
    (h : (Stance.ready ⟨.timed, p, .epoch⟩).OnSchedule S.window times seen)
    (incoming : List (Scheduled M.Payload)) (hle : least.after S.window ≤ next) :
    (Party.conclude ⟨.timed, p, .epoch⟩ incoming next).stance.OnSchedule S.window
      (times ++ [least.after S.window]) seen := by
  have hseen : Lookahead.meetings seen = times ++ [least.after S.window] := by
    rw [← hmeets.nextSync]
    exact h.meetings
  have hworked : p.worked = seen.countP Dispatch.isWork := h.worked
  have hepochs : p.member.epochs + 1 = (times ++ [least.after S.window]).length := by
    rw [List.length_append]
    exact congrArg (· + 1) h.epochs
  obtain ⟨hrising, hlate⟩ := h.ahead rfl
  replace hrising : ∀ t ∈ times, t < least.after S.window := by
    rw [← hmeets.nextSync]
    exact hrising
  replace hlate : Time.ofNat ((times.length + 1) * S.window) ≤ least.after S.window := by
    rw [← hmeets.nextSync]
    exact hlate
  by_cases hnever : next = Time.never
  · subst hnever
    obtain ⟨q, hstance, hqepochs, hqworked⟩ := Party.conclude_drained p incoming
    rw [hstance]
    refine ⟨?_, ?_, ?_, fun hexit => ?_⟩
    · rw [Thread.awaits_finishTimed]
      exact hseen
    · rw [Thread.epochs_finishTimed, hqepochs, hepochs]
    · rw [Thread.worked_finishTimed, hqworked, hworked]
    · rw [Thread.exit?_finishTimed] at hexit
      cases hexit
  · obtain ⟨q, hstance, hqnext, hqepochs, hqworked, _⟩ :=
      Party.conclude_resumed hconforms incoming hnever
    rw [hstance]
    have hlater := Time.lt_after_of_pos hnever hwindow
    refine ⟨hseen, hqepochs.trans hepochs, hqworked.trans hworked, fun _ => ?_⟩
    show (∀ t ∈ _, t < q.member.nextSync) ∧ _ ≤ q.member.nextSync
    rw [hqnext]
    constructor
    · intro t ht
      have ht' : t ≤ least.after S.window := by
        rcases List.mem_append.mp ht with ht | ht
        · exact Nat.le_of_lt (hrising t ht)
        · obtain rfl := List.mem_singleton.mp ht
          exact Time.le_refl _
      exact Time.lt_of_le_of_lt (Time.le_trans ht' hle) hlater
    · have hnext := Time.le_trans hlate hle
      simp only [List.length_append, List.length_singleton, Time.le_def, Time.ticks_ofNat,
        Time.ticks_after] at *
      rw [Nat.succ_mul (times.length + 1)]
      omega

end Stance.OnSchedule

end Lookahead
