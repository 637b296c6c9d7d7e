import Lookahead.Proofs.Causality
import Lookahead.Proofs.Conservation
import Lookahead.Proofs.Turns

/-!
The course of one partition.

Seen from inside, a run is a course of dispatches, and in between a partition only waits: its clocks
stay as they are, and what is queued for it are deliveries, the next meeting and the stop. So what
is to be said of the clocks of a partition can be said of courses, without the other partitions
(`Simulation.went_run`).
-/

namespace Lookahead

variable {M : Model}

/-! ## Single dispatches -/

def Partition.Next.going? : Partition.Next M → Option (Partition M)
  | .dispatch p => some p
  | .sync p => some p
  | .stop _ p => some p
  | .fail _ _ => none

def Dispatch.after? (d : Dispatch M) : Option (Partition M) :=
  (d.partition.act d.activity.payload).going?

namespace Dispatch

variable {d : Dispatch M} {e : Effect M} {r : Partition M}

theorem after?_of_effect (heffect : e.Of d) (hfault : e.fault = none) :
    d.after? = some (d.partition.after e) := by
  simp [after?, heffect.act d.partition rfl rfl rfl, Partition.next, hfault, Partition.Next.going?]

theorem after?_of_fault {err : RunError} (heffect : e.Of d) (hfault : e.fault = some err) :
    d.after? = none := by
  simp [after?, heffect.act d.partition rfl rfl rfl, Partition.next, hfault, Partition.Next.going?]

theorem after?_of_rest (h : d.activity.payload.isWork = false) :
    d.after? = some d.partition := by
  unfold after?
  cases hpayload : d.activity.payload with
  | deliver event => rw [hpayload] at h; cases h
  | clock id => rw [hpayload] at h; cases h
  | sync => rfl
  | stop => rfl

/-- What a dispatch queues is not due in the past, unless a clock overflows, and if it is delivered
it is an ordinary event. -/
theorem added_of_after? (h : d.after? = some r) :
    ∃ added, r.timeline = d.partition.timeline.addAll added ∧ ∀ a ∈ added,
      (d.Exact → d.partition.timeline.now ≤ a.time) ∧
        (a.isDelivery = true → a.priority = Priority.event) := by
  cases hwork : d.activity.payload.isWork with
  | false =>
    rw [after?_of_rest hwork] at h
    cases h
    exact ⟨[], rfl, by simp⟩
  | true =>
    obtain ⟨e, heffect⟩ := d.exists_effect hwork
    cases hfault : e.fault with
    | some err =>
      rw [after?_of_fault heffect hfault] at h
      cases h
    | none =>
      rw [after?_of_effect heffect hfault] at h
      cases h
      refine ⟨Sent.kept e.sends ++ e.ticks, rfl, fun a ha => ⟨(heffect.added a ha).1, ?_⟩⟩
      intro hdelivery
      rcases List.mem_append.mp ha with ha | ha
      · obtain ⟨s, _, _, rfl⟩ := Sent.mem_kept.mp ha
        rfl
      · obtain ⟨id, hclock⟩ := (heffect.ticks a ha).clock
        simp [Activity.isDelivery, hclock, Action.event?] at hdelivery

end Dispatch

/-! ## Waiting -/

/-- `q` is what became of `p` while it waited: no clock was touched and no turn of a clock was
queued. -/
structure Partition.Waits (p q : Partition M) : Prop where
  clocks : q.clocks = p.clocks
  timeline : ∃ added, q.timeline = p.timeline.addAll added ∧ ∀ a ∈ added,
    p.timeline.now ≤ a.time ∧ a.payload.clock? = none ∧
      (a.isDelivery = true → a.priority = Priority.event)

namespace Partition.Waits

variable {p q : Partition M}

theorem of_eq (hclocks : q.clocks = p.clocks) (htimeline : q.timeline = p.timeline) :
    p.Waits q where
  clocks := hclocks
  timeline := ⟨[], htimeline, by simp⟩

theorem finishTimed (p : Partition M) (stop : StopReason) :
    p.Waits (Thread.finishTimed stop p).stance.partition := by
  refine of_eq ?_ ?_
  · unfold Thread.finishTimed
    split <;> rfl
  · rw [Thread.partition_stance, Thread.timeline_finishTimed]

theorem phased (h : p.Phased q) : p.Waits q := by
  obtain ⟨outbound, inbox, state, participants, _, rfl⟩ := h
  exact of_eq rfl rfl

theorem runPhase (work : Work) (stage : Stage) (phase : Nat) (p : Partition M) :
    p.Waits (Thread.runPhase work stage phase p).stance.partition := by
  have h := Thread.phases_runPhase work stage phase p
  generalize Thread.runPhase work stage phase p = t at h
  cases h with
  | ready own q h => exact phased h
  | failed e q h => exact phased h

end Partition.Waits

/-- What comes in at a meeting are ordinary events. -/
theorem Cohort.Agrees.incoming_events {parties : List (Party M)} {S : Setting} {m : Moment}
    (h : Cohort.Agrees (parties.map Stance.ready) S m) {i : Nat} {q : Party M}
    (hq : parties[i]? = some q) (hkind : q.kind = .epoch) :
    ∀ a ∈ Party.incoming parties i, a.payload.clock? = none ∧ a.priority = Priority.event := by
  intro a ha
  rcases h.kinds with hepoch | huntimed
  · obtain ⟨r, hr, ha⟩ := List.mem_flatMap.mp ha
    obtain ⟨hr', hbuffers⟩ := hepoch r hr
    obtain ⟨b, hb, rfl⟩ := List.mem_map.mp ha
    obtain ⟨_, hpriority, hdelivery⟩ := Party.mem_outbox hbuffers hb
    refine ⟨?_, hpriority⟩
    show b.payload.clock? = none
    cases hpayload : b.payload with
    | clock id => simp [Activity.isDelivery, hpayload, Action.event?] at hdelivery
    | _ => rfl
  · obtain ⟨own, hown⟩ := huntimed q (List.mem_of_getElem? hq)
    rw [hkind] at hown
    cases hown

theorem Cohort.Agrees.waits {parties : List (Party M)} {S : Setting} {m : Moment}
    (h : Cohort.Agrees (parties.map Stance.ready) S m) {i : Nat} {q : Party M}
    (hq : parties[i]? = some q) :
    q.partition.Waits
      (q.conclude (Party.incoming parties i) (Party.least parties)).stance.partition := by
  cases hkind : q.kind with
  | untimed own =>
    refine .of_eq ?_ ?_
    · unfold Party.conclude Party.taken Party.handed
      simp only [hkind, Thread.afterRound]
      split <;> rfl
    · unfold Party.conclude Party.taken Party.handed
      simp only [hkind, Thread.partition_stance, Thread.timeline_afterRound]
  | epoch =>
    have htaken : (q.taken (Party.incoming parties i)).timeline =
        q.partition.timeline.addAll (Party.incoming parties i) := Party.timeline_taken_epoch hkind
    have hclocks : (q.taken (Party.incoming parties i)).clocks = q.partition.clocks := by
      simp [Party.taken, Party.handed, hkind]
    have hincoming : ∀ a ∈ Party.incoming parties i,
        q.partition.timeline.now ≤ a.time ∧ a.payload.clock? = none ∧
          (a.isDelivery = true → a.priority = Priority.event) := by
      intro a ha
      obtain ⟨hclock, hpriority⟩ := h.incoming_events hq hkind a ha
      exact ⟨h.le_incoming hq hkind a ha, hclock, fun _ => hpriority⟩
    by_cases hleast : Party.least parties = Time.never
    · have hwaits := Partition.Waits.finishTimed { q.taken (Party.incoming parties i) with
        member := (q.taken (Party.incoming parties i)).member.finishEpoch } .drained
      unfold Party.conclude
      simp only [hkind, hleast, ↓reduceIte]
      refine ⟨hwaits.clocks.trans hclocks, Party.incoming parties i, ?_, hincoming⟩
      rw [Thread.partition_stance, Thread.timeline_finishTimed]
      exact htaken
    · unfold Party.conclude
      simp only [hkind, hleast, ↓reduceIte]
      refine ⟨hclocks, Party.incoming parties i ++ [.ofMeeting (Seat.nextMeeting
        (Party.least parties) (q.taken (Party.incoming parties i)).member.window)], ?_, ?_⟩
      · rw [Timeline.addAll_append, ← htaken]
        rfl
      · intro a ha
        rcases List.mem_append.mp ha with ha | ha
        · exact hincoming a ha
        · obtain rfl := List.mem_singleton.mp ha
          exact ⟨h.le_nextMeeting hq hkind _, rfl, fun h => by cases h⟩

/-! ## Courses -/

/-- The way of a partition through its dispatches, with nothing but waiting in between. If it is
`safe`, no clock overflows on it unnoticed. -/
inductive Partition.Course (p : Partition M) (safe : Prop) :
    List (Dispatch M) → Partition M → Prop
  | refl : Course p safe [] p
  | waits {q r : Partition M} {ds : List (Dispatch M)} (h : Course p safe ds q)
      (hwaits : q.Waits r) : Course p safe ds r
  | dispatch {q r : Partition M} {ds : List (Dispatch M)} {d : Dispatch M}
      (h : Course p safe ds q) (hnext : q.next? = some d) (hexact : safe → d.Exact)
      (hafter : d.after? = some r) : Course p safe (ds ++ [d]) r

/-- Where a list that has got one more item can be cut: at that item, or before. -/
theorem cut_of_snoc {α : Type} {items front back : List α} {a b : α}
    (h : items ++ [a] = front ++ b :: back) :
    (items = front ∧ a = b ∧ back = []) ∨
      ∃ rest, back = rest ++ [a] ∧ items = front ++ b :: rest := by
  rcases List.eq_nil_or_concat back with rfl | ⟨rest, c, rfl⟩
  · obtain ⟨hfront, hab⟩ := List.append_inj' h rfl
    exact Or.inl ⟨hfront, List.singleton_inj.mp hab, rfl⟩
  · have hcut : items ++ [a] = (front ++ b :: rest) ++ [c] := by simpa using h
    obtain ⟨hitems, hac⟩ := List.append_inj' hcut rfl
    exact Or.inr ⟨rest, by simp [List.singleton_inj.mp hac], hitems⟩

namespace Partition.Course

variable {p q : Partition M} {safe : Prop} {ds before after : List (Dispatch M)} {d : Dispatch M}

theorem split (h : p.Course safe ds q) (hds : ds = before ++ d :: after) :
    ∃ r s, p.Course safe before r ∧ r.next? = some d ∧ (safe → d.Exact) ∧ d.after? = some s ∧
      s.Course safe after q := by
  induction h generalizing after with
  | refl => simp at hds
  | waits h hwaits ih =>
    obtain ⟨r, s, hr, hnext, hexact, hafter, hs⟩ := ih hds
    exact ⟨r, s, hr, hnext, hexact, hafter, .waits hs hwaits⟩
  | @dispatch q s ds e h hnext hexact hafter ih =>
    rcases cut_of_snoc hds with ⟨rfl, rfl, rfl⟩ | ⟨rest, rfl, hrest⟩
    · exact ⟨q, s, h, hnext, hexact, hafter, .refl⟩
    · obtain ⟨r, t, hr, hd, hd', ht, hcourse⟩ := ih hrest
      exact ⟨r, t, hr, hd, hd', ht, .dispatch hcourse hnext hexact hafter⟩

/-- What every wait and every dispatch keeps holds along a course. -/
theorem invariant {P : Partition M → Prop} (h : p.Course safe ds q) (hstart : P p)
    (hwait : ∀ q r, P q → q.Waits r → P r)
    (hdispatch : ∀ q d r, P q → q.next? = some d → (safe → d.Exact) → d.after? = some r → P r) :
    P q := by
  induction h with
  | refl => exact hstart
  | waits h hwaits ih => exact hwait _ _ ih hwaits
  | dispatch h hnext hexact hafter ih => exact hdispatch _ _ _ ih hnext hexact hafter

end Partition.Course

/-! ## Order -/

/-- The agenda is in the order of dispatch and nothing on it is due in the past. -/
structure Timeline.Tidy {π : Type} (timeline : Timeline π) : Prop where
  order : timeline.InOrder
  current : timeline.Current

namespace Partition.Course

variable {p q : Partition M} {safe : Prop} {ds : List (Dispatch M)} {d : Dispatch M}

theorem tidy_next? (h : q.timeline.Tidy) (hnext : q.next? = some d) :
    d.partition.timeline.Tidy := by
  obtain ⟨timeline, hadvance, hpartition⟩ := Partition.next?_eq_some_iff.mp hnext
  rw [hpartition]
  exact ⟨h.order.of_advance hadvance, .of_advance h.order hadvance⟩

/-- Nothing is due before the next dispatch. -/
theorem time_le_of_next? (h : q.timeline.InOrder) (hnext : q.next? = some d) :
    ∀ a ∈ q.timeline.agenda, d.activity.time ≤ a.time := by
  obtain ⟨timeline, hadvance, _⟩ := Partition.next?_eq_some_iff.mp hnext
  obtain ⟨hagenda, hnow, _⟩ := Timeline.agenda_of_advance hadvance
  intro a ha
  rw [hagenda] at ha
  rcases List.mem_cons.mp ha with rfl | ha
  · exact Time.le_refl _
  · rw [← hnow]
    exact Timeline.Current.of_advance h hadvance a ha

theorem now_le_of_next? (h : q.timeline.Tidy) (hnext : q.next? = some d) :
    q.timeline.now ≤ d.activity.time := by
  exact h.current d.activity.unnumbered (Partition.mem_agenda_of_next? hnext)

/-- An agenda stays in order, whatever is queued. -/
theorem inOrder (h : p.Course safe ds q) (hp : p.timeline.InOrder) : q.timeline.InOrder := by
  refine h.invariant (P := fun q => q.timeline.InOrder) hp ?_ ?_
  · intro q r hq hwaits
    obtain ⟨added, hadded, _⟩ := hwaits.timeline
    rw [hadded]
    exact hq.addAll added
  · intro q d r hq hnext _ hafter
    obtain ⟨added, hadded, _⟩ := Dispatch.added_of_after? hafter
    rw [hadded]
    exact (Partition.inOrder_of_next? hnext hq).addAll added

theorem tidy (h : p.Course True ds q) (hp : p.timeline.Tidy) : q.timeline.Tidy := by
  refine h.invariant (P := fun q => q.timeline.Tidy) hp ?_ ?_
  · intro q r hq hwaits
    obtain ⟨added, hadded, hlate⟩ := hwaits.timeline
    rw [hadded]
    exact ⟨hq.order.addAll added, hq.current.addAll fun a ha => (hlate a ha).1⟩
  · intro q d r hq hnext hexact hafter
    have htaken := tidy_next? hq hnext
    obtain ⟨added, hadded, hlate⟩ := Dispatch.added_of_after? hafter
    rw [hadded]
    exact ⟨htaken.order.addAll added,
      htaken.current.addAll fun a ha => (hlate a ha).1 (hexact trivial)⟩

theorem le_now (h : p.Course True ds q) (hp : p.timeline.Tidy) :
    p.timeline.now ≤ q.timeline.now := by
  induction h with
  | refl => exact Time.le_refl _
  | waits _ hwaits ih =>
    obtain ⟨added, hadded, _⟩ := hwaits.timeline
    rw [hadded, Timeline.now_addAll]
    exact ih
  | dispatch h hnext _ hafter ih =>
    obtain ⟨added, hadded, _⟩ := Dispatch.added_of_after? hafter
    rw [hadded, Timeline.now_addAll, (Partition.agenda_of_next? hnext).2.1]
    exact Time.le_trans ih (now_le_of_next? (h.tidy hp) hnext)

end Partition.Course

/-! ## Runs -/

/-- How far partition `p` has come that stands here after these dispatches: to the end of a course,
or to the last dispatch, which failed. -/
def Stance.Went (p : Partition M) (safe : Prop) (ds : List (Dispatch M)) : Stance M → Prop
  | .failed _ _ => (∃ q, p.Course safe ds q) ∨ ∃ before d q, ds = before ++ [d] ∧
      p.Course safe before q ∧ q.next? = some d ∧ d.after? = none
  | s => p.Course safe ds s.partition

namespace Stance.Went

variable {p : Partition M} {safe : Prop} {ds before after : List (Dispatch M)} {d : Dispatch M}
  {s : Stance M}

theorem of_course (h : p.Course safe ds s.partition) : s.Went p safe ds := by
  cases s with
  | failed e q => exact Or.inl ⟨_, h⟩
  | _ => exact h

theorem course (h : s.Went p safe ds) (halive : ∀ e q, s ≠ .failed e q) :
    p.Course safe ds s.partition := by
  cases s with
  | failed e q => exact absurd rfl (halive e q)
  | _ => exact h

/-- Every dispatch was made at some point of a course. -/
theorem made (h : s.Went p safe ds) (hds : ds = before ++ d :: after) :
    ∃ q, p.Course safe before q ∧ q.next? = some d := by
  have hsplit : ∀ {ds' after' : List (Dispatch M)} {q : Partition M}, p.Course safe ds' q →
      ds' = before ++ d :: after' → ∃ q, p.Course safe before q ∧ q.next? = some d := by
    intro ds' after' q hcourse hds'
    obtain ⟨r, _, hr, hnext, _⟩ := hcourse.split hds'
    exact ⟨r, hr, hnext⟩
  cases s with
  | failed e p' =>
    rcases h with ⟨q, hcourse⟩ | ⟨before', d', q, hds', hcourse, hnext, _⟩
    · exact hsplit hcourse hds
    · rcases cut_of_snoc (hds'.symm.trans hds) with ⟨rfl, rfl, _⟩ | ⟨rest, _, hrest⟩
      · exact ⟨q, hcourse, hnext⟩
      · exact hsplit hcourse hrest
  | _ => exact hsplit h hds

/-- A dispatch that another one follows has not failed. -/
theorem exists_after (h : s.Went p safe ds) {e : Dispatch M} (hds : ds = before ++ d :: after)
    (he : e ∈ after) : ∃ r, d.after? = some r := by
  have hsplit : ∀ {ds' after' : List (Dispatch M)} {q : Partition M}, p.Course safe ds' q →
      ds' = before ++ d :: after' → ∃ r, d.after? = some r := by
    intro ds' after' q hcourse hds'
    obtain ⟨_, r, _, _, _, hr, _⟩ := hcourse.split hds'
    exact ⟨r, hr⟩
  cases s with
  | failed e p' =>
    rcases h with ⟨q, hcourse⟩ | ⟨before', d', q, hds', hcourse, _, _⟩
    · exact hsplit hcourse hds
    · rcases cut_of_snoc (hds'.symm.trans hds) with ⟨_, _, rfl⟩ | ⟨rest, _, hrest⟩
      · cases he
      · exact hsplit hcourse hrest
  | _ => exact hsplit h hds

/-- What comes after a dispatch is a way from what that dispatch has left. -/
theorem split (h : s.Went p safe ds) (hds : ds = before ++ d :: after) {r : Partition M}
    (hafter : d.after? = some r) : s.Went r safe after := by
  have hsplit : ∀ {ds' after' : List (Dispatch M)} {q : Partition M}, p.Course safe ds' q →
      ds' = before ++ d :: after' → r.Course safe after' q := by
    intro ds' after' q hcourse hds'
    obtain ⟨_, r', _, _, _, hr', hcourse'⟩ := hcourse.split hds'
    rw [hafter] at hr'
    cases hr'
    exact hcourse'
  cases s with
  | failed e p' =>
    rcases h with ⟨q, hcourse⟩ | ⟨before', d', q, hds', hcourse, hnext, hfailed⟩
    · exact Or.inl ⟨q, hsplit hcourse hds⟩
    · rcases cut_of_snoc (hds'.symm.trans hds) with ⟨_, rfl, _⟩ | ⟨rest, rfl, hrest⟩
      · rw [hafter] at hfailed
        cases hfailed
      · exact Or.inr ⟨rest, d', q, rfl, hsplit hcourse hrest, hnext, hfailed⟩
  | _ => exact hsplit h hds

theorem workOn {work : Work} {q : Partition M} (h : p.Course safe ds q)
    (hexact : safe → ∀ d, work.dispatch? q = some d → d.Exact) :
    (Thread.workOn work q).stance.Went p safe (ds ++ (work.dispatch? q).toList) := by
  have hphase : ∀ stage phase,
      (Thread.runPhase work stage phase q).stance.Went p safe (ds ++ []) := by
    intro stage phase
    rw [List.append_nil]
    exact of_course (.waits h (.runPhase work stage phase q))
  cases work with
  | init phase => exact hphase .init phase
  | complete phase stop => exact hphase .complete phase
  | timed =>
    have hworks := Thread.works_workOn q
    generalize Thread.workOn .timed q = t at hworks
    show t.stance.Went p safe (ds ++ q.next?.toList)
    cases hworks with
    | idle hnext =>
      rw [hnext]
      simpa using of_course (.waits h (.finishTimed q .exhausted))
    | work d e hnext hwork heffect hfault =>
      rw [hnext]
      exact .dispatch h hnext (fun hsafe => hexact hsafe d hnext)
        (Dispatch.after?_of_effect heffect hfault)
    | failed d e err hnext hwork heffect hfault =>
      rw [hnext]
      exact Or.inr ⟨ds, d, q, rfl, h, hnext, Dispatch.after?_of_fault heffect hfault⟩
    | sync d hnext hsync =>
      rw [hnext]
      exact of_course (.waits (.dispatch h hnext (fun hsafe => hexact hsafe d hnext)
        (Dispatch.after?_of_rest (by rw [hsync]; rfl))) (.of_eq rfl rfl))
    | stop d hnext hstop =>
      rw [hnext]
      exact of_course (.waits (.dispatch h hnext (fun hsafe => hexact hsafe d hnext)
        (Dispatch.after?_of_rest (by rw [hstop]; rfl))) (.finishTimed d.partition .stopAt))

end Stance.Went

namespace Simulation

variable {b : Builder M} {log : List (Planned M.Payload)} {simulation : Simulation M}
  {trace : List (PartitionId × Dispatch M)}

theorem went_run (hb : b.Made log) (hbuild : b.build = .ok simulation)
    {labels : List (Option PartitionId)} {cohort : Cohort M}
    (hrun : (Cohort.system M).Run simulation.cohort labels trace cohort)
    {safe : Prop} {j : Nat} (hexact : safe → ∀ d ∈ System.seenOf j trace, d.Exact)
    {p : Partition M} {s : Stance M} (hp : simulation.partitions[j]? = some p)
    (hs : cohort[j]? = some s) : s.Went p.start safe (System.seenOf j trace) := by
  induction hrun generalizing s with
  | refl =>
    obtain ⟨p', hp', rfl⟩ := exists_stance_start hs
    rw [hp] at hp'
    cases hp'
    exact .of_course .refl
  | @step labels trace cohort next label hrun hstep ih =>
    obtain ⟨_, m, hagrees⟩ := agrees_run hb hbuild hrun
    rw [System.seenOf_append] at hexact ⊢
    have hbefore : safe → ∀ d ∈ System.seenOf j trace, d.Exact := fun hsafe d hd =>
      hexact hsafe d (List.mem_append_left _ hd)
    cases label with
    | some i =>
      obtain ⟨work, q, hi, rfl⟩ := Cohort.step?_some_iff.mp hstep
      rw [Cohort.note_of_running hi] at hexact ⊢
      by_cases hij : i = j
      · subst hij
        obtain ⟨hlt, _⟩ := List.getElem?_eq_some_iff.mp hi
        rw [List.getElem?_set_self hlt] at hs
        cases hs
        rw [seenOf_noteAt_self] at hexact ⊢
        have hcourse : p.start.Course safe (System.seenOf i trace) q := ih hbefore hi
        exact .workOn hcourse fun hsafe d hd =>
          hexact hsafe d (List.mem_append_right _ (Option.mem_toList.mpr hd))
      · rw [List.getElem?_set_ne hij] at hs
        rw [seenOf_noteAt_of_ne hij, List.append_nil]
        exact ih hbefore hs
    | none =>
      obtain ⟨parties, _, hready, rfl⟩ := Cohort.exchange?_eq_some_iff.mp hstep
      subst hready
      obtain ⟨q, hq, rfl⟩ := Cohort.getElem?_exchanged hs
      have hcourse : p.start.Course safe (System.seenOf j trace) q.partition :=
        ih hbefore (Cohort.getElem?_ready hq)
      have hnote : (Cohort.system M).note (parties.map Stance.ready) none = [] := rfl
      rw [hnote, System.seenOf_nil, List.append_nil]
      exact .of_course (.waits hcourse (hagrees.waits hq))

theorem lt_of_mem_seenOf (hb : b.Made log) (hbuild : b.build = .ok simulation)
    {labels : List (Option PartitionId)} {cohort : Cohort M}
    (hrun : (Cohort.system M).Run simulation.cohort labels trace cohort) {j : PartitionId}
    {d : Dispatch M} (hd : d ∈ System.seenOf j trace) : j < simulation.partitions.length := by
  induction hrun with
  | refl => cases hd
  | @step labels trace cohort next label hrun hstep ih =>
    rw [System.seenOf_append] at hd
    rcases List.mem_append.mp hd with hd | hd
    · exact ih hd
    · cases label with
      | none => cases hd
      | some i =>
        obtain ⟨work, q, hi, _⟩ := Cohort.step?_some_iff.mp hstep
        have hnote : (Cohort.system M).note cohort (some i) =
            noteAt i (cohort[i]?.bind Stance.dispatch?) := rfl
        by_cases hij : i = j
        · subst hij
          obtain ⟨hconforms, _⟩ := agrees_run hb hbuild hrun
          have hlt := (List.getElem?_eq_some_iff.mp hi).1
          rw [hconforms.length] at hlt
          exact hlt
        · rw [hnote, seenOf_noteAt_of_ne hij] at hd
          cases hd

/-- A partition that has not begun has an agenda that is in order. -/
theorem tidy_start (hb : b.Made log) (hbuild : b.build = .ok simulation) {j : Nat}
    {p : Partition M} (hp : simulation.partitions[j]? = some p) : p.start.timeline.Tidy := by
  obtain ⟨_, _, hfresh⟩ := hb.build hbuild
  obtain ⟨_, hj⟩ := hfresh j p hp
  have h := hj.onTime true True
  exact ⟨h.order, h.current trivial⟩

end Simulation

end Lookahead
