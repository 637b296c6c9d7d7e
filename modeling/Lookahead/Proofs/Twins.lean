import Lookahead.Proofs.Refinement

/-!
Partitions that differ in their stops only.

Twins have the same inside and, stops apart, the same on their agendas. So what one of them
dispatches before it stops the other one dispatches as well, with the same results, and they are
twins afterwards (`Stance.Matches.dispatch`). A partition that is past an instant has nothing left
to dispatch before it, whatever it does from now on (`Stance.Past.workOn`). Two partitions match if
they are twins or both past, and one of them can follow the other one (`Stance.Matches.workOn`).
-/

namespace Lookahead

variable {M : Model}

/-! ## What is dispatched before an instant -/

/-- The events and clocks among some dispatches that are due before an instant, as their handlers
see them. -/
def handledBefore (time : Time) (seen : List (Dispatch M)) : List (Handled M) :=
  ((seen.filter fun d => d.activity.payload.isWork).map Dispatch.handled).filter
    fun x => x.activity.time < time

def workBefore (time : Time) (trace : List (PartitionId × Dispatch M)) (j : PartitionId) :
    List (Handled M) :=
  (workOf trace j).filter fun x => x.activity.time < time

theorem workBefore_eq (time : Time) (trace : List (PartitionId × Dispatch M)) (j : PartitionId) :
    workBefore time trace j = handledBefore time (System.seenOf j trace) := rfl

@[simp] theorem handledBefore_append (time : Time) (front back : List (Dispatch M)) :
    handledBefore time (front ++ back) = handledBefore time front ++ handledBefore time back := by
  simp [handledBefore]

@[simp] theorem workBefore_append (time : Time) (front back : List (PartitionId × Dispatch M))
    (j : PartitionId) :
    workBefore time (front ++ back) j = workBefore time front j ++ workBefore time back j := by
  simp [workBefore_eq]

theorem handledBefore_eq_nil {time : Time} {seen : List (Dispatch M)}
    (h : ∀ d ∈ seen, time ≤ d.activity.time) : handledBefore time seen = [] := by
  unfold handledBefore
  rw [List.filter_eq_nil_iff]
  intro x hx
  obtain ⟨d, hd, rfl⟩ := List.mem_map.mp hx
  have hle : time ≤ d.handled.activity.time := h d (List.mem_filter.mp hd).1
  simpa using Time.lt_irrefl_of_le hle

/-! ## Twins -/

namespace Timeline

variable {π : Type}

/-- Activities that pass a filter are queued among those that do. -/
theorem filter_agenda_addAll_of_pos {kind : Scheduled π → Bool} {timeline : Timeline π}
    (horder : timeline.InOrder) {added : List (Scheduled π)}
    (h : ∀ a ∈ added, kind a.unnumbered = true) :
    (timeline.addAll added).agenda.filter kind =
      Ordered.placeAll Activity.before (added.map Activity.unnumbered)
        (timeline.agenda.filter kind) := by
  rw [agenda_addAll, Ordered.filter_placeAll_of_pos Activity.before_byKey ?_ horder]
  intro x hx
  obtain ⟨a, ha, rfl⟩ := List.mem_map.mp hx
  exact h a ha

/-- Two timelines are at the same instant and differ in their stops only. -/
structure Alike (timeline other : Timeline π) : Prop where
  now : other.now = timeline.now
  priority : other.priority = timeline.priority
  agenda : (other.agenda.filter fun a => !a.isStop) = timeline.agenda.filter fun a => !a.isStop
  order : timeline.InOrder
  order' : other.InOrder

namespace Alike

variable {timeline other : Timeline π} {time : Time}

theorem symm (h : timeline.Alike other) : other.Alike timeline :=
  ⟨h.now.symm, h.priority.symm, h.agenda.symm, h.order', h.order⟩

theorem addAll (h : timeline.Alike other) {added : List (Scheduled π)}
    (hadded : ∀ a ∈ added, a.isStop = false) :
    (timeline.addAll added).Alike (other.addAll added) := by
  have hkind : ∀ a ∈ added, (!(Activity.unnumbered a).isStop) = true := fun a ha => by
    rw [show (Activity.unnumbered a).isStop = a.isStop from rfl, hadded a ha]
    rfl
  refine ⟨?_, ?_, ?_, h.order.addAll added, h.order'.addAll added⟩
  · rw [now_addAll, now_addAll, h.now]
  · rw [priority_addAll, priority_addAll, h.priority]
  · rw [filter_agenda_addAll_of_pos h.order hkind, filter_agenda_addAll_of_pos h.order' hkind,
      h.agenda]

theorem mem (h : timeline.Alike other) {a : Scheduled π} (ha : a ∈ timeline.agenda)
    (hstop : a.isStop = false) : a ∈ other.agenda := by
  have hfilter : a ∈ timeline.agenda.filter fun a => !a.isStop :=
    List.mem_filter.mpr ⟨ha, by simp [hstop]⟩
  rw [← h.agenda] at hfilter
  exact (List.mem_filter.mp hfilter).1

/-- If nothing is due before an instant on one agenda, then neither on the other one if its stops
are not. -/
theorem le_of_le (h : timeline.Alike other) (hpast : ∀ a ∈ timeline.agenda, time ≤ a.time)
    (hstops : ∀ a ∈ other.agenda, a.isStop = true → time ≤ a.time) :
    ∀ a ∈ other.agenda, time ≤ a.time := by
  intro a ha
  cases hstop : a.isStop with
  | true => exact hstops a ha hstop
  | false => exact hpast a (h.symm.mem ha hstop)

/-- What comes first on one agenda comes first on the other one, if it is due before the stops. -/
theorem agenda_cons (h : timeline.Alike other) {a : Scheduled π} {rest : List (Scheduled π)}
    (hagenda : timeline.agenda = a :: rest) (hearly : a.time < time)
    (hstop : a.isStop = false) (hstops : ∀ a ∈ other.agenda, a.isStop = true → time ≤ a.time) :
    ∃ rest', other.agenda = a :: rest' ∧
      (rest'.filter fun a => !a.isStop) = rest.filter fun a => !a.isStop := by
  have hmem : a ∈ other.agenda := h.mem (by rw [hagenda]; exact List.mem_cons_self ..) hstop
  have hfilter := h.agenda
  rw [hagenda, List.filter_cons_of_pos (by simp [hstop])] at hfilter
  cases hother : other.agenda with
  | nil =>
    rw [hother] at hmem
    cases hmem
  | cons b rest' =>
    have hbstop : b.isStop = false := by
      refine Bool.eq_false_iff.mpr fun hbstop => ?_
      have hle : b.time ≤ a.time := by
        rw [hother] at hmem
        rcases List.mem_cons.mp hmem with rfl | hmem
        · exact Time.le_refl _
        · exact Activity.time_le_of_not_before (h.order'.head_not_after hother a hmem)
      have hpast := hstops b (by rw [hother]; exact List.mem_cons_self ..) hbstop
      exact Time.lt_irrefl_of_le (Time.le_trans hpast hle) hearly
    rw [hother, List.filter_cons_of_pos (by simp [hbstop])] at hfilter
    obtain ⟨rfl, hrest⟩ := List.cons.inj hfilter
    exact ⟨rest', rfl, hrest⟩

end Alike

end Timeline

/-- Two partitions that differ in their stops only. -/
inductive Partition.Twins (p : Partition M) : Partition M → Prop
  | mk (timeline : Timeline M.Payload) (stopAt : Option Time) (h : p.timeline.Alike timeline) :
      Twins p { p with timeline := timeline, stopAt := stopAt }

namespace Partition.Twins

variable {p q : Partition M} {d : Dispatch M} {e : Effect M} {time : Time}

theorem timeline (h : p.Twins q) : p.timeline.Alike q.timeline := by
  cases h with
  | mk timeline stopAt h => exact h

theorem symm (h : p.Twins q) : q.Twins p := by
  cases h with
  | mk timeline stopAt h => exact .mk p.timeline p.stopAt h.symm

theorem member (h : p.Twins q) : q.member = p.member := by
  cases h with
  | mk timeline stopAt h => rfl

theorem inside (h : p.Twins q) : q.inside = p.inside := by
  cases h with
  | mk timeline stopAt h => rfl

/-- What one of them dispatches before it stops the other one does, too. -/
theorem next? (h : p.Twins q) (hnext : p.next? = some d) (hearly : d.activity.time < time)
    (hstop : d.activity.isStop = false)
    (hstops : ∀ a ∈ q.timeline.agenda, a.isStop = true → time ≤ a.time) :
    ∃ d', q.next? = some d' ∧ d'.activity.unnumbered = d.activity.unnumbered ∧
      d.partition.Twins d'.partition := by
  obtain ⟨timeline, hadvance, hpartition⟩ := next?_eq_some_iff.mp hnext
  obtain ⟨hagenda, hnow, hpriority⟩ := Timeline.agenda_of_advance hadvance
  obtain ⟨rest', hagenda', hrest⟩ := h.timeline.agenda_cons hagenda hearly hstop hstops
  obtain ⟨b, timeline', hadvance', hb, hnext'⟩ := Timeline.advance_of_agenda_cons hagenda'
  obtain ⟨_, hnow', hpriority'⟩ := Timeline.agenda_of_advance hadvance'
  have htime : b.unnumbered.time = d.activity.unnumbered.time := congrArg (·.time) hb
  have hurgency : b.unnumbered.priority = d.activity.unnumbered.priority :=
    congrArg (·.priority) hb
  have halike : timeline.Alike timeline' := by
    refine ⟨?_, ?_, ?_, h.timeline.order.of_advance hadvance,
      h.timeline.order'.of_advance hadvance'⟩
    · rw [hnow, hnow']
      exact htime
    · rw [hpriority, hpriority']
      exact hurgency
    · rw [hnext']
      exact hrest
  refine ⟨⟨b, { q with timeline := timeline' }⟩,
    next?_eq_some_iff.mpr ⟨timeline', hadvance', rfl⟩, hb, ?_⟩
  rw [hpartition]
  cases h with
  | mk other stopAt _ => exact .mk timeline' stopAt halike

theorem after (h : p.Twins q) (hadded : ∀ a ∈ Sent.kept e.sends ++ e.ticks, a.isStop = false) :
    (p.after e).Twins (q.after e) := by
  cases h with
  | mk timeline stopAt h => exact .mk _ stopAt (h.addAll hadded)

theorem act_eq (h : d.partition.Twins q) (heffect : e.Of d) :
    q.act d.activity.payload = q.next e :=
  heffect.act q h.inside h.timeline.now h.timeline.priority

/-- Where the same comes due in both of them, no clock overflows in either or in both. -/
theorem exact_iff {d' : Dispatch M} (h : d.partition.Twins d'.partition)
    (hsame : d'.activity.unnumbered = d.activity.unnumbered) : d'.Exact ↔ d.Exact := by
  have hpayload : d'.activity.unnumbered.payload = d.activity.unnumbered.payload :=
    congrArg (·.payload) hsame
  rw [Activity.payload_unnumbered, Activity.payload_unnumbered] at hpayload
  unfold Dispatch.Exact
  rw [h.inside, h.timeline.now, h.timeline.priority, hpayload]

/-- What happens when the same comes due in both of them. -/
theorem handled_eq {d' : Dispatch M} (h : d.partition.Twins d'.partition)
    (hsame : d'.activity.unnumbered = d.activity.unnumbered) (heffect : e.Of d) :
    d'.handled = d.handled := by
  have hpayload : d'.activity.unnumbered.payload = d.activity.unnumbered.payload :=
    congrArg (·.payload) hsame
  rw [Activity.payload_unnumbered, Activity.payload_unnumbered] at hpayload
  have hsends : d'.sends = d.sends := by
    unfold Dispatch.sends
    rw [h.inside, h.timeline.now, h.timeline.priority, hpayload]
  have hafter : (d'.partition.act d'.activity.payload).partition.inside =
      (d.partition.act d.activity.payload).partition.inside := by
    rw [hpayload, h.act_eq heffect, heffect.act d.partition rfl rfl rfl]
    have hinside : (d'.partition.after e).inside = (d.partition.after e).inside := by
      rw [inside_after, inside_after, h.inside]
    unfold next
    cases e.fault with
    | none => exact hinside
    | some err => exact hinside
  unfold Dispatch.handled
  rw [hsame, h.inside, hsends, hafter]

end Partition.Twins

/-! ## Partitions that are past an instant -/

/-- A partition that has nothing left to dispatch before an instant. -/
inductive Stance.Past (time : Time) : Stance M → Prop
  | running (p : Partition M) (h : ∀ a ∈ p.timeline.agenda, time ≤ a.time) :
      Past time (.running .timed p)
  | meeting (p : Partition M) (h : time ≤ p.timeline.now) : Past time (.ready ⟨.timed, p, .epoch⟩)
  | completing (phase : Nat) (stop : StopReason) (p : Partition M) :
      Past time (.running (.complete phase stop) p)
  | completed (phase : Nat) (stop : StopReason) (p : Partition M) (kind : Round.Kind) :
      Past time (.ready ⟨.complete phase stop, p, kind⟩)
  | failed (e : RunError) (p : Partition M) : Past time (.failed e p)
  | ended (stop : StopReason) (p : Partition M) : Past time (.ended stop p)

namespace Stance.Past

variable {p : Partition M} {time : Time} {work : Work}

theorem finishTimed (stop : StopReason) (p : Partition M) :
    (Thread.finishTimed stop p).stance.Past time := by
  unfold Thread.finishTimed
  split
  · exact .completing ..
  · exact .ended ..

/-- Whoever is past an instant remains so, and dispatches nothing before it. -/
theorem workOn (h : Past time (.running work p))
    (hexact : ∀ d, work.dispatch? p = some d → d.Exact) :
    (Thread.workOn work p).stance.Past time ∧
      ∀ d, work.dispatch? p = some d → time ≤ d.activity.time := by
  cases h with
  | running p h =>
    have hdue : ∀ d, p.next? = some d → time ≤ d.activity.time := by
      intro d hnext
      exact h d.activity.unnumbered (Partition.mem_agenda_of_next? hnext)
    refine ⟨?_, hdue⟩
    have hworks := Thread.works_workOn p
    generalize Thread.workOn .timed p = t at hworks
    cases hworks with
    | idle hnext => exact finishTimed ..
    | work d e hnext hwork heffect hfault =>
      refine .running _ fun a ha => ?_
      rcases Timeline.mem_agenda_addAll.mp ha with ⟨b, hb, rfl⟩ | ha
      · have hle := (heffect.added b hb).1 (hexact d hnext)
        rw [(Partition.agenda_of_next? hnext).2.1] at hle
        exact Time.le_trans (hdue d hnext) hle
      · exact h a (Partition.mem_agenda_of_rest hnext ha)
    | failed d e err hnext => exact .failed ..
    | sync d hnext hsync =>
      refine .meeting _ ?_
      rw [show _ = d.activity.time from (Partition.agenda_of_next? hnext).2.1]
      exact hdue d hnext
    | stop d hnext hstop => exact finishTimed ..
  | completing phase stop p =>
    refine ⟨?_, fun d hd => by cases hd⟩
    have hphases := Thread.phases_runPhase (.complete phase stop) .complete phase p
    show (Thread.runPhase (.complete phase stop) .complete phase p).stance.Past time
    generalize Thread.runPhase (.complete phase stop) .complete phase p = t at hphases
    cases hphases with
    | ready own q hphased => exact .completed ..
    | failed e q hphased => exact .failed ..

end Stance.Past

/-! ## Partitions that match -/

def Setting.Lasts (S : Setting) (time : Time) : Prop :=
  ∀ stop, S.stopAt = some stop → time ≤ stop

theorem Setting.Lasts.le_of_isStop {S : Setting} {time : Time} (h : S.Lasts time)
    {agenda : List (Scheduled M.Payload)}
    (hstops : agenda.filter Activity.isStop = S.stopAt.toList.map Activity.ofStop) :
    ∀ a ∈ agenda, a.isStop = true → time ≤ a.time := by
  intro a ha hstop
  have hmem : a ∈ agenda.filter Activity.isStop := List.mem_filter.mpr ⟨ha, hstop⟩
  rw [hstops] at hmem
  obtain ⟨stop, hat, rfl⟩ := List.mem_map.mp hmem
  exact h stop (Option.mem_toList.mp hat)

/-- Two partitions stand at the same place and differ in their stops only, or both are past an
instant. -/
inductive Stance.Matches (time : Time) : Stance M → Stance M → Prop
  | running (work : Work) (p q : Partition M) (h : p.Twins q) :
      Matches time (.running work p) (.running work q)
  | ready (work : Work) (kind : Round.Kind) (p q : Partition M) (h : p.Twins q) :
      Matches time (.ready ⟨work, p, kind⟩) (.ready ⟨work, q, kind⟩)
  | past (s s' : Stance M) (h : s.Past time) (h' : s'.Past time) : Matches time s s'

theorem Partition.Twins.runPhase {p q : Partition M} (h : p.Twins q) (stage : Stage)
    (phase : Nat) : (q.runPhase stage phase).1 = (p.runPhase stage phase).1 ∧
      (p.runPhase stage phase).2.Twins (q.runPhase stage phase).2 := by
  cases h with
  | mk timeline stopAt h =>
    unfold Partition.runPhase
    cases losesCount M phase with
    | true => exact ⟨rfl, .mk timeline stopAt h⟩
    | false =>
      dsimp only
      rw [if_neg Bool.false_ne_true, if_neg Bool.false_ne_true]
      generalize hcall :
        callParticipants (.after p.id stage phase) p.participants p.phaseContext = call
      rw [show callParticipants (.after p.id stage phase) p.participants
        ({ p with timeline := timeline, stopAt := stopAt } : Partition M).phaseContext = call
        from hcall]
      match call with
      | (ctx, none) => exact ⟨rfl, .mk timeline stopAt h⟩
      | (ctx, some (.error e)) => exact ⟨rfl, .mk timeline stopAt h⟩
      | (ctx, some (.ok participants)) => exact ⟨rfl, .mk timeline stopAt h⟩

namespace Stance.Matches

variable {s s' : Stance M} {p q : Partition M} {time : Time} {work : Work} {S S' : Setting}
  {m m' : Moment}

theorem symm (h : s.Matches time s') : s'.Matches time s := by
  cases h with
  | running work p q h => exact .running work q p h.symm
  | ready work kind p q h => exact .ready work kind q p h.symm
  | past s s' h h' => exact .past s' s h' h

theorem beginRound (h : p.Twins q) (work : Work) (kind : Round.Kind) :
    (Thread.beginRound work p kind).stance.Matches time (Thread.beginRound work q kind).stance := by
  refine .ready work kind _ _ ?_
  cases h with
  | mk timeline stopAt h => exact .mk timeline stopAt h

theorem runPhase (h : p.Twins q) (work : Work) (stage : Stage) (phase : Nat) :
    (Thread.runPhase work stage phase p).stance.Matches time
      (Thread.runPhase work stage phase q).stance := by
  obtain ⟨hsame, htwins⟩ := h.runPhase stage phase
  unfold Thread.runPhase
  cases hp : p.runPhase stage phase with
  | mk result p' =>
    cases hq : q.runPhase stage phase with
    | mk result' q' =>
      rw [hp, hq] at hsame htwins
      obtain rfl : result = result' := hsame.symm
      cases result with
      | ok own => exact beginRound htwins ..
      | error e => exact .past _ _ (.failed ..) (.failed ..)

/-- What comes due before the stops comes due in both of two twins. -/
theorem dispatch {d : Dispatch M} (h : p.Twins q) (hnext : p.next? = some d)
    (hearly : d.activity.time < time)
    (hstops : ∀ a ∈ p.timeline.agenda, a.isStop = true → time ≤ a.time)
    (hstops' : ∀ a ∈ q.timeline.agenda, a.isStop = true → time ≤ a.time) :
    (Thread.workOn .timed p).stance.Matches time (Thread.workOn .timed q).stance ∧
      handledBefore time p.next?.toList = handledBefore time q.next?.toList ∧
      ∀ d', q.next? = some d' → (d'.Exact ↔ d.Exact) := by
  -- No stop is due yet, and but for stops the agendas are the same.
  have hstop : d.activity.isStop = false := by
    refine Bool.eq_false_iff.mpr fun hstop => Time.lt_irrefl_of_le ?_ hearly
    exact hstops d.activity.unnumbered (Partition.mem_agenda_of_next? hnext) hstop
  obtain ⟨d', hnext', hsame, htwins⟩ := h.next? hnext hearly hstop hstops'
  have hexact : ∀ d', q.next? = some d' → (d'.Exact ↔ d.Exact) := fun other hother => by
    obtain rfl := Option.some.inj (hnext'.symm.trans hother)
    exact htwins.exact_iff hsame
  have hpayload : d'.activity.payload = d.activity.payload := by
    rw [← Activity.payload_unnumbered d'.activity, hsame, Activity.payload_unnumbered]
  have hdispatch : q.dispatch = d'.partition.act d.activity.payload := by
    rw [Thread.dispatch_eq hnext', hpayload]
  have hsees : ∀ {e : Effect M}, e.Of d →
      handledBefore time p.next?.toList = handledBefore time q.next?.toList := by
    intro e heffect
    rw [hnext, hnext']
    simp only [Option.toList_some, handledBefore, List.filter_cons, List.filter_nil, hpayload]
    split
    · simp only [List.map_cons, List.map_nil, htwins.handled_eq hsame heffect]
    · rfl
  have hadded : ∀ {e : Effect M}, e.Of d →
      ∀ a ∈ Sent.kept e.sends ++ e.ticks, a.isStop = false :=
    fun heffect a ha => (Activity.isWork_iff.mp (heffect.added a ha).2).2
  have hworks := Thread.works_workOn p
  generalize Thread.workOn .timed p = t at hworks
  cases hworks with
  | idle hnone =>
    rw [hnone] at hnext
    cases hnext
  | work d₁ e hd₁ hwork heffect hfault =>
    obtain rfl : d = d₁ := Option.some.inj (hnext.symm.trans hd₁)
    have hq : Thread.workOn .timed q = .running .timed (d'.partition.after e) := by
      simp only [Thread.workOn, hdispatch, htwins.act_eq heffect, Partition.next, hfault]
    rw [hq]
    exact ⟨.running .timed _ _ (htwins.after (hadded heffect)), hsees heffect, hexact⟩
  | failed d₁ e err hd₁ hwork heffect hfault =>
    obtain rfl : d = d₁ := Option.some.inj (hnext.symm.trans hd₁)
    have hq : Thread.workOn .timed q = Thread.fail err (d'.partition.after e) := by
      simp only [Thread.workOn, hdispatch, htwins.act_eq heffect, Partition.next, hfault]
    rw [hq]
    exact ⟨.past _ _ (.failed ..) (.failed ..), hsees heffect, hexact⟩
  | sync d₁ hd₁ hsync =>
    obtain rfl : d = d₁ := Option.some.inj (hnext.symm.trans hd₁)
    have hq : Thread.workOn .timed q = Thread.beginRound .timed d'.partition .epoch := by
      simp only [Thread.workOn, hdispatch, hsync, Partition.act]
    rw [hq]
    refine ⟨beginRound htwins .timed .epoch, ?_, hexact⟩
    rw [hnext, hnext']
    simp [handledBefore, hpayload, hsync, Action.isWork]
  | stop d₁ hd₁ hstop' =>
    obtain rfl : d = d₁ := Option.some.inj (hnext.symm.trans hd₁)
    simp [Activity.isStop, hstop'] at hstop

/-- If one of two that match works on, the other one can follow, unless it need not. -/
theorem workOn (h : Stance.Matches time (.running work p) s')
    (hfits : Fits S m (.running work p)) (hfits' : Fits S' m' s') (hlasts : S.Lasts time)
    (hlasts' : S'.Lasts time) (hexact : ∀ d, work.dispatch? p = some d → d.Exact) :
    ((Thread.workOn work p).stance.Matches time s' ∧
      handledBefore time (work.dispatch? p).toList = []) ∨
    ∃ q, s' = .running work q ∧
      (Thread.workOn work p).stance.Matches time (Thread.workOn work q).stance ∧
      handledBefore time (work.dispatch? p).toList =
        handledBefore time (work.dispatch? q).toList ∧
      ∀ d, work.dispatch? q = some d → d.Exact := by
  have hpast : (Stance.running work p).Past time → s'.Past time →
      (Thread.workOn work p).stance.Matches time s' ∧
        handledBefore time (work.dispatch? p).toList = [] := by
    intro h h'
    obtain ⟨hnext, hdue⟩ := h.workOn hexact
    refine ⟨.past _ _ hnext h', handledBefore_eq_nil fun d hd => hdue d ?_⟩
    exact Option.mem_toList.mp hd
  cases h with
  | past _ _ h h' => exact Or.inl (hpast h h')
  | running _ _ q h =>
    cases work with
    | init phase =>
      refine Or.inr ⟨q, rfl, runPhase h .., rfl, fun d hd => ?_⟩
      cases hd
    | complete phase stop => exact Or.inl (hpast (.completing ..) (.completing ..))
    | timed =>
      cases hfits with
      | running least p hontime hbuffers =>
        cases hfits' with
        | running least' q hontime' hbuffers' =>
          have hstops := hlasts.le_of_isStop hontime.stops
          have hstops' := hlasts'.le_of_isStop hontime'.stops
          by_cases hall : ∀ a ∈ p.timeline.agenda, time ≤ a.time
          · refine Or.inl (hpast (.running p hall) (.running q ?_))
            exact h.timeline.le_of_le hall hstops'
          · cases hnext : p.next? with
            | none =>
              refine absurd (fun a ha => ?_) hall
              rw [Partition.next?_eq_none_iff.mp hnext] at ha
              cases ha
            | some d =>
              have hearly : d.activity.time < time := by
                refine Nat.lt_of_not_le fun hle => hall fun a ha => ?_
                have hagenda := (Partition.agenda_of_next? hnext).1
                rw [hagenda] at ha
                rcases List.mem_cons.mp ha with rfl | ha
                · exact hle
                · exact Time.le_trans hle
                    (Activity.time_le_of_not_before (hontime.order.head_not_after hagenda a ha))
              obtain ⟨hmatches, hsees, hiff⟩ := dispatch h hnext hearly hstops hstops'
              exact Or.inr ⟨q, rfl, hmatches, hsees, fun d' hd' =>
                (hiff d' hd').mpr (hexact d hnext)⟩

end Stance.Matches

end Lookahead
