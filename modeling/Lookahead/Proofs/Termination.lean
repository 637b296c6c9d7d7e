import Mathlib.Algebra.Order.BigOperators.Group.List
import Mathlib.Algebra.Order.Group.Nat
import Mathlib.Data.Multiset.DershowitzManna
import Lookahead.Proofs.Attendance
import Lookahead.Proofs.Descent
import Lookahead.Proofs.Enacting
import Lookahead.Proofs.Progress
import Lookahead.Proofs.Relay

/-!
Runs that come to an end.

If one run has come to a halt, there is a bound on the length of all of them
(`Simulation.Reaches.exists_bound`), since a step that one partition can make does not get in the
way of the others.

With a stop ahead, and with links that take their time, no run goes on for ever. A dispatch may
bring about any number of activities, but all of them weigh less than what was dispatched, so what a
partition has on its agenda goes down in the order of multisets while it works, and at every meeting
the next one comes nearer to the stop (`Cohort.Descends`). There are only so many partitions that
can make the next step, so there is a bound on the length of all runs
(`Simulation.comes_to_an_end`).
-/

namespace Lookahead

open Multiset (IsDershowitzMannaLT)

variable {M : Model}

/-! ## Systems whose steps lead down -/

namespace System

variable {σ ι ω α : Type} {sys : System σ ι ω}

/-- Where every step of a kind leads down in a well-founded order, and only so many labels are
possible, there is a bound on the length of all runs that consist of such steps. -/
theorem exists_bound {lower : α → α → Prop} (hwf : WellFounded lower) (rank : σ → α)
    (P : σ → Prop) (kind : ω → Prop) (labels : List ι)
    (hstep : ∀ s i next, P s → (∀ w ∈ sys.note s i, kind w) → sys.step? s i = some next →
      i ∈ labels ∧ P next ∧ lower (rank next) (rank s)) {s : σ} (hs : P s) :
    ∃ bound, ∀ (schedule : List ι) (trace : List ω) (x : σ), sys.Run s schedule trace x →
      (∀ w ∈ trace, kind w) → schedule.length ≤ bound := by
  have hacc := hwf.apply (rank s)
  generalize hrank : rank s = r at hacc
  induction hacc generalizing s with
  | intro r _ ih =>
    have hnext : ∀ i, ∃ bound, ∀ next, sys.step? s i = some next → (∀ w ∈ sys.note s i, kind w) →
        ∀ (schedule : List ι) (trace : List ω) (x : σ), sys.Run next schedule trace x →
          (∀ w ∈ trace, kind w) → schedule.length ≤ bound := by
      intro i
      cases hi : sys.step? s i with
      | none => exact ⟨0, nofun⟩
      | some next =>
        by_cases hkind : ∀ w ∈ sys.note s i, kind w
        · obtain ⟨_, hp, hlower⟩ := hstep s i next hs hkind hi
          obtain ⟨bound, hbound⟩ := ih _ (hrank ▸ hlower) hp rfl
          refine ⟨bound, fun other hother _ => ?_⟩
          cases hother
          exact hbound
        · exact ⟨0, fun _ _ h => absurd h hkind⟩
    obtain ⟨bound, hbound⟩ := Classical.axiomOfChoice hnext
    refine ⟨(labels.map bound).sum + 1, fun schedule trace x hrun hkind => ?_⟩
    cases schedule with
    | nil => exact Nat.zero_le _
    | cons i schedule =>
      obtain ⟨next, rest, hi, hrest, rfl⟩ := hrun.of_cons
      obtain ⟨hfirst, hothers⟩ := List.forall_mem_append.mp hkind
      have hle := hbound i next hi hfirst _ _ _ hrest hothers
      have hlabel : bound i ∈ labels.map bound :=
        List.mem_map_of_mem (hstep s i next hs hfirst hi).1
      have hsum := List.le_sum_of_mem hlabel
      rw [List.length_cons]
      omega

/-- A sequence of steps makes runs of any length. -/
theorem run_of_steps {f : Nat → σ} (h : ∀ k, ∃ i, sys.step? (f k) i = some (f (k + 1))) (k : Nat) :
    ∃ schedule trace, sys.Run (f 0) schedule trace (f k) ∧ schedule.length = k := by
  induction k with
  | zero => exact ⟨[], [], .refl, rfl⟩
  | succ k ih =>
    obtain ⟨schedule, trace, hrun, hlength⟩ := ih
    obtain ⟨i, hi⟩ := h k
    exact ⟨_, _, hrun.step hi, by rw [List.length_append, hlength]; rfl⟩

end System

/-! ## Loads -/

section

variable {α : Type} [Preorder α] {N K : Multiset α}

theorem isDershowitzMannaLT_of_add (K : Multiset α) (h : N ≠ 0) : IsDershowitzMannaLT K (K + N) :=
  ⟨K, 0, N, h, (add_zero K).symm, rfl, nofun⟩

theorem isDershowitzMannaLT_add_left (L : Multiset α) (h : IsDershowitzMannaLT K N) :
    IsDershowitzMannaLT (L + K) (L + N) := by
  obtain ⟨X, Y, Z, hne, rfl, rfl, hless⟩ := h
  exact ⟨L + X, Y, Z, hne, (add_assoc ..).symm, (add_assoc ..).symm, hless⟩

end

/-- How much can still come of everything that is pending, before a stop. -/
def Timeline.load {π : Type} (timeline : Timeline π) (stop : Time) (clock : Int) : Multiset Nat :=
  (timeline.agenda.map (Activity.weight stop clock) : List Nat)

/-- What a partition still has to do before it has left the timed run. -/
def Stance.load (stop : Time) (clock : Int) : Stance M → Multiset Nat
  | .running _ p => {0} + p.timeline.load stop clock
  | .ready _ => {0}
  | _ => 0

/-- What all partitions still have to do before the next meeting. -/
def Cohort.load (stop : Time) (clock : Int) (cohort : Cohort M) : Multiset Nat :=
  (cohort.map (Stance.load stop clock)).sum

def Cohort.ahead (stop : Time) (cohort : Cohort M) : Nat :=
  total (fun s => stop.ticks + 1 - s.partition.member.nextSync.ticks) cohort

theorem Timeline.load_addAll {π : Type} (timeline : Timeline π) (added : List (Scheduled π))
    (stop : Time) (clock : Int) :
    (timeline.addAll added).load stop clock =
      timeline.load stop clock + (added.map (Activity.weight stop clock) : List Nat) := by
  have hperm := (timeline.agenda_addAll_perm added).map (Activity.weight stop clock)
  rw [List.map_append, List.map_map] at hperm
  rw [add_comm]
  exact Multiset.coe_eq_coe.mpr hperm

theorem Partition.load_of_next? {p : Partition M} {d : Dispatch M} (h : p.next? = some d)
    (stop : Time) (clock : Int) :
    p.timeline.load stop clock =
      d.partition.timeline.load stop clock + {d.activity.weight stop clock} := by
  unfold Timeline.load
  rw [(Partition.agenda_of_next? h).1, List.map_cons, ← Multiset.cons_coe, add_comm]
  rfl

/-- A load apart from that of one partition. -/
theorem exists_sum_eq {α β : Type} [AddCommMonoid β] (f : α → β) {items : List α} {i : Nat} {a : α}
    (h : items[i]? = some a) :
    ∃ rest, (items.map f).sum = rest + f a ∧ ∀ b, ((items.set i b).map f).sum = rest + f b := by
  induction items generalizing i with
  | nil => cases h
  | cons c items ih =>
    cases i with
    | zero =>
      cases h
      exact ⟨(items.map f).sum, add_comm .., fun b => add_comm ..⟩
    | succ i =>
      obtain ⟨rest, hsum, hset⟩ := ih h
      refine ⟨f c + rest, ?_, fun b => ?_⟩
      · rw [List.map_cons, List.sum_cons, hsum, add_assoc]
      · rw [List.set_cons_succ, List.map_cons, List.sum_cons, hset b, add_assoc]

/-! ## One partition -/

/-- A partition in the timed run whose links take their time, and that is going to stop. -/
structure Partition.Limited (p : Partition M) (stop : Time) (clock : Int) : Prop where
  order : p.timeline.InOrder
  stops : ∃ a ∈ p.timeline.agenda, a.time = stop
  regular : p.clocks.Regular True p.timeline
  clock : p.clocks.config.priority = clock
  latency : ∀ (link : LinkId) (route : Route), p.routes.get link = .ok route → 1 ≤ route.latency
  lifecycle : p.lifecycle = false

namespace Partition.Limited

variable {p : Partition M} {stop : Time} {clock : Int} {d : Dispatch M}

/-- Nothing is dispatched behind the stop. -/
theorem time_le (h : p.Limited stop clock) (hnext : p.next? = some d) : d.activity.time ≤ stop := by
  obtain ⟨a, ha, rfl⟩ := h.stops
  have hagenda := (Partition.agenda_of_next? hnext).1
  rw [hagenda] at ha
  rcases List.mem_cons.mp ha with rfl | ha
  · exact Time.le_refl _
  · exact Activity.time_le_of_not_before (h.order.head_not_after hagenda a ha)

/-- With every step a partition has less to do. -/
theorem load_workOn (h : p.Limited stop clock) (hstop : stop < Time.never)
    (hexact : ∀ d, p.next? = some d → d.Exact) :
    IsDershowitzMannaLT ((Thread.workOn .timed p).stance.load stop clock)
      ((Stance.running .timed p).load stop clock) := by
  have hleft : IsDershowitzMannaLT 0 ((Stance.running .timed p).load stop clock) :=
    ⟨0, 0, _, by simp [Stance.load], rfl, (zero_add _).symm, nofun⟩
  have hworks := Thread.works_workOn p
  generalize Thread.workOn .timed p = t at hworks
  cases hworks with
  | idle hnext =>
    rw [Thread.stance_finishTimed _ h.lifecycle]
    exact hleft
  | stop d hnext =>
    rw [Thread.stance_finishTimed _ ((Partition.Like.next? hnext).lifecycle.trans h.lifecycle)]
    exact hleft
  | failed d e err hnext => exact hleft
  | sync d hnext =>
    show IsDershowitzMannaLT {0} ({0} + p.timeline.load stop clock)
    refine isDershowitzMannaLT_of_add {0} ?_
    rw [load_of_next? hnext]
    simp
  | work d e hnext hwork heffect hfault =>
    show IsDershowitzMannaLT ({0} + (d.partition.after e).timeline.load stop clock)
      ({0} + p.timeline.load stop clock)
    have hle := h.time_le hnext
    refine isDershowitzMannaLT_add_left {0} ?_
    rw [load_of_next? hnext, show (d.partition.after e).timeline =
      d.partition.timeline.addAll (Sent.kept e.sends ++ e.ticks) from rfl, Timeline.load_addAll]
    refine ⟨_, _, _, by simp, rfl, rfl, fun y hy => ⟨_, Multiset.mem_singleton_self _, ?_⟩⟩
    obtain ⟨x, hx, rfl⟩ := List.mem_map.mp (Multiset.mem_coe.mp hy)
    have hbrings := Dispatch.brings h.regular hnext (hexact d hnext) heffect hfault
      (Time.lt_of_le_of_lt hle hstop) h.latency (Or.inl hx)
    rw [h.clock] at hbrings
    exact hbrings.weight_lt hle

end Partition.Limited

/-! ## All partitions -/

/-- A partition that is in its timed run or has left it for good. -/
def Stance.Plain : Stance M → Prop
  | .running work _ => work = .timed
  | .ready q => q.work = .timed ∧ q.kind = .epoch
  | _ => True

theorem Stance.plain_workOn {p : Partition M} (hlifecycle : p.lifecycle = false) :
    (Thread.workOn .timed p).stance.Plain := by
  have hworks := Thread.works_workOn p
  generalize Thread.workOn .timed p = t at hworks
  cases hworks with
  | idle hnext =>
    rw [Thread.stance_finishTimed _ hlifecycle]
    trivial
  | stop d hnext =>
    rw [Thread.stance_finishTimed _ ((Partition.Like.next? hnext).lifecycle.trans hlifecycle)]
    trivial
  | work d e hnext => rfl
  | failed d e err hnext => trivial
  | sync d hnext => exact ⟨rfl, rfl⟩

namespace Party

variable {q : Party M} {incoming : List (Scheduled M.Payload)} {least : Time}

/-- Without untimed handlers an epoch leads on, or to the end if nothing is left to do. -/
theorem conclude_plain (hwork : q.work = .timed) (hkind : q.kind = .epoch)
    (hlifecycle : q.partition.lifecycle = false) :
    (∃ p, (q.conclude incoming least).stance = .running .timed p) ∧ least ≠ Time.never ∨
      (∃ p, (q.conclude incoming least).stance = .ended .drained p) ∧ least = Time.never := by
  have hgone : (q.taken incoming).lifecycle = false :=
    (Partition.Like.taken q incoming).lifecycle.trans hlifecycle
  unfold conclude
  by_cases hleast : least = Time.never
  · refine Or.inr ⟨?_, hleast⟩
    simp only [hkind, hleast, ↓reduceIte]
    exact ⟨_, Thread.stance_finishTimed _ hgone⟩
  · refine Or.inl ⟨?_, hleast⟩
    simp only [hkind, hwork, hleast, ↓reduceIte]
    exact ⟨_, rfl⟩

theorem nextSync_conclude (hkind : q.kind = .epoch) :
    (q.conclude incoming least).stance.partition.member.nextSync =
      if least = Time.never then q.partition.member.nextSync
      else least.after q.partition.member.window := by
  have hpace : (q.conclude incoming least).stance.partition.pace = _ :=
    (Thread.partition_stance_pace _).trans (pace_conclude q incoming least)
  refine (congrArg Pace.nextSync hpace).trans ?_
  rw [hkind, meeting]
  split
  · rfl
  · exact Seat.nextMeeting_eq ..

end Party

namespace Cohort

variable {cohort next : Cohort M} {S : Setting} {m : Moment} {stop : Time} {clock : Int}

/-- A cohort is nearer to its end: everyone's next meeting is nearer to the stop, or it is as near
as before and there is less to do until then. -/
def Descends (stop : Time) (clock : Int) (next cohort : Cohort M) : Prop :=
  Prod.Lex (· < ·) IsDershowitzMannaLT (next.ahead stop, next.load stop clock)
    (cohort.ahead stop, cohort.load stop clock)

/-- Work does not move the next meetings. -/
theorem ahead_workOn {i : Nat} {p : Partition M} (hi : cohort[i]? = some (.running .timed p))
    (stop : Time) :
    ahead stop (cohort.set i (Thread.workOn .timed p).stance) = ahead stop cohort := by
  have hnext : (Thread.workOn .timed p).stance.partition.member.nextSync = p.member.nextSync :=
    congrArg Pace.nextSync
      ((Thread.partition_stance_pace _).trans (Thread.pace_workOn .timed p))
  refine total_set hi ?_
  rw [hnext]
  rfl

/-- A partition that works brings everyone nearer to the end. -/
theorem descends_workOn {i : Nat} {p : Partition M} (hi : cohort[i]? = some (.running .timed p))
    (h : p.Limited stop clock) (hstop : stop < Time.never)
    (hexact : ∀ d, p.next? = some d → d.Exact) :
    Descends stop clock (cohort.set i (Thread.workOn .timed p).stance) cohort := by
  obtain ⟨rest, hsum, hset⟩ := exists_sum_eq (Stance.load stop clock) hi
  unfold Descends
  rw [ahead_workOn hi stop]
  refine Prod.Lex.right _ ?_
  rw [load, load, hset, hsum]
  exact isDershowitzMannaLT_add_left rest (h.load_workOn hstop hexact)

/-- Whoever is ready in a plain cohort has come to a meeting, and everyone to the same one. -/
theorem exists_meeting {parties : List (Party M)} (hne : parties ≠ [])
    (hplain : ∀ q ∈ parties, (Stance.ready q).Plain)
    (hagrees : Cohort.Agrees (parties.map Stance.ready) S m) :
    ∃ least, ∀ q ∈ parties, q.work = .timed ∧ q.kind = .epoch ∧ q.partition.Meets S least ∧
      q.partition.Buffers S.exact (least.after S.window) := by
  have hfits : ∀ q ∈ parties, Fits S m (.ready q) := fun q hq => hagrees.fits_mem hq
  have hmeets : ∀ q ∈ parties, ∃ least, m = .timed least ∧ q.work = .timed ∧ q.kind = .epoch ∧
      q.partition.Meets S least ∧ q.partition.Buffers S.exact (least.after S.window) := by
    intro q hq
    have hfit := hfits q hq
    obtain ⟨hwork, hkind⟩ := hplain q hq
    obtain ⟨work, p, kind⟩ := q
    cases hwork
    cases hkind
    cases hfit with
    | meeting least p h hbuffers => exact ⟨least, rfl, rfl, rfl, h, hbuffers⟩
  obtain ⟨first, hfirst⟩ := List.exists_mem_of_ne_nil parties hne
  obtain ⟨least, rfl, _⟩ := hmeets first hfirst
  refine ⟨least, fun q hq => ?_⟩
  obtain ⟨least', hsame, h⟩ := hmeets q hq
  cases hsame
  exact h

/-- Whoever stands somewhere after an exchange has been ready there before. -/
theorem exists_ready {parties : List (Party M)} {j : Nat} {s s' : Stance M}
    (hs : (exchanged parties)[j]? = some s) (hs' : (parties.map Stance.ready)[j]? = some s') :
    ∃ q, parties[j]? = some q ∧ s' = .ready q ∧
      s = (q.conclude (Party.incoming parties j) (Party.least parties)).stance := by
  obtain ⟨q, hq, rfl⟩ := getElem?_exchanged hs
  rw [List.getElem?_map, hq] at hs'
  cases hs'
  exact ⟨q, hq, rfl, rfl⟩

/-- Where nothing is left to do there is no other meeting. -/
theorem ahead_drained {parties : List (Party M)} (hkind : ∀ q ∈ parties, q.kind = .epoch)
    (hnever : Party.least parties = Time.never) (stop : Time) :
    ahead stop (exchanged parties) = ahead stop (parties.map Stance.ready) := by
  refine total_congr_of_getElem? (length_exchanged parties) fun j s s' hs hs' => ?_
  obtain ⟨q, hq, rfl, rfl⟩ := exists_ready hs hs'
  rw [Party.nextSync_conclude (hkind q (List.mem_of_getElem? hq)), if_pos hnever]
  rfl

/-- Otherwise everyone's next meeting is nearer to a time that has not been passed. -/
theorem ahead_exchanged {parties : List (Party M)} {least : Time} (hne : parties ≠ [])
    (hwindow : 1 ≤ S.window)
    (hmeets : ∀ q ∈ parties, q.kind = .epoch ∧ q.partition.Meets S least ∧
      q.partition.Buffers S.exact (least.after S.window))
    (hconforms : Cohort.Conforms (parties.map Stance.ready) S)
    (hnever : Party.least parties ≠ Time.never) (hstop : least.after S.window ≤ stop) :
    ahead stop (exchanged parties) < ahead stop (parties.map Stance.ready) := by
  have hne' : exchanged parties ≠ [] := by
    simpa [exchanged] using hne
  refine total_lt_of_getElem? (length_exchanged parties) hne' fun j s s' hs hs' => ?_
  obtain ⟨q, hq, rfl, rfl⟩ := exists_ready hs hs'
  obtain ⟨hkind, hp, _⟩ := hmeets q (List.mem_of_getElem? hq)
  have hmeeting := Party.meeting_le_least hmeets
  have hlater := Time.lt_after_of_pos hnever hwindow
  rw [Party.nextSync_conclude hkind, if_neg hnever,
    (Agrees.conforms_party hconforms hq).window]
  show stop.ticks + 1 - ((Party.least parties).after S.window).ticks <
    stop.ticks + 1 - q.partition.member.nextSync.ticks
  rw [hp.nextSync]
  rw [Time.lt_def] at hlater
  rw [Time.le_def] at hmeeting hstop
  omega

/-- An exchange brings everyone nearer to the end. -/
theorem descends_exchanged {parties : List (Party M)} (hne : parties ≠ [])
    (hwindow : 1 ≤ S.window) (hstop : S.stopAt = some stop) (hlifecycle : S.lifecycle = false)
    (hplain : ∀ q ∈ parties, (Stance.ready q).Plain)
    (hagrees : Cohort.Agrees (parties.map Stance.ready) S m)
    (hconforms : Cohort.Conforms (parties.map Stance.ready) S) :
    Descends stop clock (exchanged parties) (parties.map Stance.ready) := by
  obtain ⟨least, hmeets⟩ := exists_meeting hne hplain hagrees
  unfold Descends
  by_cases hnever : Party.least parties = Time.never
  · rw [ahead_drained (fun q hq => (hmeets q hq).2.1) hnever]
    refine Prod.Lex.right _ ?_
    have hload : load stop clock (exchanged parties) = 0 := by
      refine List.sum_eq_zero fun x hx => ?_
      obtain ⟨s, hs, rfl⟩ := List.mem_map.mp hx
      obtain ⟨j, hj⟩ := List.mem_iff_getElem?.mp hs
      obtain ⟨q, hq, rfl⟩ := getElem?_exchanged hj
      obtain ⟨hwork, hkind, _⟩ := hmeets q (List.mem_of_getElem? hq)
      rcases Party.conclude_plain hwork hkind
        ((Agrees.conforms_party hconforms hq).lifecycle.trans hlifecycle) with
        ⟨_, hnot⟩ | ⟨⟨p, hp⟩, _⟩
      · exact absurd hnever hnot
      · rw [hp]
        rfl
    rw [hload]
    have hpending : load stop clock (parties.map Stance.ready) ≠ 0 := by
      obtain ⟨first, rest, rfl⟩ := List.exists_cons_of_ne_nil hne
      simp [load, Stance.load]
    exact ⟨0, 0, _, hpending, rfl, (zero_add _).symm, nofun⟩
  · obtain ⟨first, hfirst⟩ := List.exists_mem_of_ne_nil parties hne
    have hlate := (hmeets first hfirst).2.2.1.late stop hstop
    rw [Time.lt_def] at hlate
    exact Prod.Lex.left _ _ (ahead_exchanged hne hwindow (fun q hq => (hmeets q hq).2) hconforms
      hnever (Time.le_def.mpr (Nat.le_of_lt hlate)))

end Cohort

/-! ## Runs -/

namespace Simulation

variable {b : Builder M} {log : List (Planned M.Payload)} {simulation : Simulation M}
  {labels : List (Option PartitionId)} {trace : List (PartitionId × Dispatch M)}
  {cohort : Cohort M} {machine : Machine M} {stop : Time}

/-- Where there are no untimed handlers everyone is in the timed run or has left it for good. -/
theorem plain_run (hb : b.Made log) (hbuild : b.build = .ok simulation)
    (hlifecycle : b.lifecycle = false)
    (hrun : (Cohort.system M).Run simulation.cohort labels trace cohort) :
    ∀ (i : Nat) (s : Stance M), cohort[i]? = some s → s.Plain := by
  induction hrun with
  | refl =>
    intro i s hs
    obtain ⟨p, hp, rfl⟩ := exists_stance_start hs
    have hgone : p.lifecycle = false := ((hb.build hbuild).2.2 i p hp).1.trans hlifecycle
    show (if p.lifecycle then _ else _) = Work.timed
    rw [hgone, if_neg Bool.false_ne_true]
  | @step schedule seen x y label hfront hstep ih =>
    obtain ⟨hconforms, _⟩ := agrees_run hb hbuild hfront
    cases label with
    | some i =>
      obtain ⟨work, p, hi, rfl⟩ := Cohort.step?_some_iff.mp hstep
      obtain rfl : work = .timed := ih i _ hi
      exact forall_set (fun j s _ hs => ih j s hs)
        (Stance.plain_workOn ((hconforms.each i _ hi).lifecycle.trans hlifecycle))
    | none =>
      obtain ⟨parties, _, rfl, rfl⟩ := Cohort.exchange?_eq_some_iff.mp hstep
      intro j s hs
      obtain ⟨q, hq, rfl⟩ := Cohort.getElem?_exchanged hs
      obtain ⟨hwork, hkind⟩ : (Stance.ready q).Plain := ih j _ (Cohort.getElem?_ready hq)
      rcases Party.conclude_plain hwork hkind
        ((Cohort.Agrees.conforms_party hconforms hq).lifecycle.trans hlifecycle) with
        ⟨⟨p, hp⟩, _⟩ | ⟨⟨p, hp⟩, _⟩
      · rw [hp]
        rfl
      · rw [hp]
        trivial

theorem routeAt_of_get (hb : b.Made log) (hbuild : b.build = .ok simulation) {i : Nat}
    {p : Partition M} (hp : simulation.partitions[i]? = some p) {link : LinkId} {route : Route}
    (hroute : (b.table i).get link = .ok route) : routeAt b.tables ⟨i, link⟩ = some route := by
  obtain ⟨setup, hsetup, _⟩ := exists_setup hbuild hp
  rw [routeAt, hb.sound.table hsetup]
  exact Builder.get_eq_ok hroute

/-- Wherever a run of the cohort gets to, whoever is at work is going to stop. -/
theorem limited_run (hb : b.Made log) (hbuild : b.build = .ok simulation)
    (hlifecycle : b.lifecycle = false) (hstop : b.config.stopAt = some stop)
    (hlatency : ∀ (e : LinkEnd) (route : Route), routeAt b.tables e = some route →
      1 ≤ route.latency)
    (hrun : (Cohort.system M).Run simulation.cohort labels trace cohort)
    (hexact : ∀ entry ∈ trace, entry.2.Exact) {i : Nat} {p : Partition M}
    (hi : cohort[i]? = some (.running .timed p)) :
    p.Limited stop b.config.clock.priority := by
  obtain ⟨hconforms, m, hagrees⟩ := agrees_run hb hbuild hrun
  obtain ⟨least, hontime⟩ : ∃ least, p.OnTime (b.setting simulation) least := by
    cases hagrees i _ hi with
    | running least p hontime hbuffers => exact ⟨least, hontime⟩
  have hlt : i < simulation.partitions.length := by
    have hplace := (List.getElem?_eq_some_iff.mp hi).1
    rw [hconforms.length] at hplace
    exact hplace
  have hp := List.getElem?_eq_getElem hlt
  have hseen : True → ∀ d ∈ System.seenOf i trace, d.Exact := fun _ d hd =>
    hexact (i, d) (System.mem_seenOf.mp hd)
  have hcourse := (went_run hb hbuild hrun hseen hp hi).course fun _ _ => by simp
  obtain ⟨hregular, hadjusts⟩ := regular_start True hb hbuild hp
  obtain ⟨hregular, hconfig, _⟩ := Partition.Course.regular hcourse hregular
  constructor
  case order => exact hontime.order
  case stops =>
    have hstops : p.timeline.agenda.filter Activity.isStop = [.ofStop stop] := by
      rw [hontime.stops]
      exact congrArg (fun stopAt : Option Time => stopAt.toList.map Activity.ofStop) hstop
    have hmem : Activity.ofStop stop ∈ p.timeline.agenda.filter Activity.isStop := by
      rw [hstops]
      exact List.mem_singleton_self _
    exact ⟨_, List.mem_of_mem_filter hmem, rfl⟩
  case regular => exact hregular
  case clock => rw [show p.clocks.config = _ from hconfig, hadjusts.config]
  case latency =>
    intro link route hroute
    have htable : p.routes = b.table i := routes_run hbuild hrun i _ hi
    rw [htable] at hroute
    exact hlatency ⟨i, link⟩ route (routeAt_of_get hb hbuild hp hroute)
  case lifecycle => exact (hconforms.each i _ hi).lifecycle.trans hlifecycle

/-- There is a bound on the length of all runs of the cohort in which no clock overflows. -/
theorem exists_bound_cohort (hb : b.Made log) (hbuild : b.build = .ok simulation)
    (hlifecycle : b.lifecycle = false) (hstop : b.config.stopAt = some stop)
    (hlast : stop < Time.never)
    (hlatency : ∀ (e : LinkEnd) (route : Route), routeAt b.tables e = some route →
      1 ≤ route.latency) :
    ∃ bound, ∀ (labels : List (Option PartitionId)) (trace : List (PartitionId × Dispatch M))
      (cohort : Cohort M), (Cohort.system M).Run simulation.cohort labels trace cohort →
        (∀ entry ∈ trace, entry.2.Exact) → labels.length ≤ bound := by
  refine System.exists_bound
    (WellFounded.prod_lex wellFounded_lt Multiset.wellFounded_isDershowitzMannaLT)
    (fun cohort => (cohort.ahead stop, cohort.load stop b.config.clock.priority))
    (fun cohort => ∃ labels trace, (Cohort.system M).Run simulation.cohort labels trace cohort ∧
      ∀ entry ∈ trace, entry.2.Exact)
    (fun entry : PartitionId × Dispatch M => entry.2.Exact)
    (none :: (List.range simulation.partitions.length).map some) ?_
    ⟨[], [], .refl, List.forall_mem_nil _⟩
  rintro cohort label next ⟨labels, trace, hrun, hexact⟩ hnote hstep
  obtain ⟨hconforms, m, hagrees⟩ := agrees_run hb hbuild hrun
  have hplain := plain_run hb hbuild hlifecycle hrun
  refine ⟨?_, ⟨_, _, hrun.step hstep, List.forall_mem_append.mpr ⟨hexact, hnote⟩⟩, ?_⟩
  · cases label with
    | none => exact List.mem_cons_self ..
    | some i =>
      obtain ⟨work, p, hi, _⟩ := Cohort.step?_some_iff.mp hstep
      refine List.mem_cons_of_mem _ (List.mem_map_of_mem (List.mem_range.mpr ?_))
      have hplace := (List.getElem?_eq_some_iff.mp hi).1
      rw [hconforms.length] at hplace
      exact hplace
  · cases label with
    | some i =>
      obtain ⟨work, p, hi, rfl⟩ := Cohort.step?_some_iff.mp hstep
      obtain rfl : work = .timed := hplain i _ hi
      rw [Cohort.note_of_running hi] at hnote
      exact Cohort.descends_workOn hi
        (limited_run hb hbuild hlifecycle hstop hlatency hrun hexact hi) hlast
        fun d hd => hnote (i, d) (mem_noteAt.mpr ⟨rfl, hd⟩)
    | none =>
      obtain ⟨parties, hne, rfl, rfl⟩ := Cohort.exchange?_eq_some_iff.mp hstep
      refine Cohort.descends_exchanged hne (hb.build hbuild).2.1 hstop hlifecycle
        (fun q hq => ?_) hagrees hconforms
      obtain ⟨j, hj⟩ := List.mem_iff_getElem?.mp hq
      exact hplain j _ (Cohort.getElem?_ready hj)

/-- A bound on what the cohort takes for a trace gives one on what the machine takes for it. -/
theorem length_schedule_le (hb : b.Made log) (hbuild : b.build = .ok simulation) {bound : Nat}
    (hbound : ∀ (labels : List (Option PartitionId)) (cohort : Cohort M),
      (Cohort.system M).Run simulation.cohort labels trace cohort → labels.length ≤ bound)
    {schedule : List PartitionId}
    (hrun : (Machine.system M).Run simulation.machine schedule trace machine) :
    schedule.length ≤ simulation.partitions.length *
      ((bound + 1) * (3 * simulation.partitions.length + 16) + bound) ∧ trace.length ≤ bound := by
  obtain ⟨labels, cohort, hcohort, htracks, _⟩ := Reaches.cohort hb hbuild ⟨schedule, hrun⟩
  have hlabels := hbound _ _ hcohort
  have htrace := Nat.le_trans (length_trace_le hcohort) hlabels
  have hrounds : labels.count none ≤ bound := Nat.le_trans List.count_le_length hlabels
  refine ⟨Nat.le_trans (schedule_le hb hbuild hcohort hrun htracks) ?_, htrace⟩
  exact Nat.mul_le_mul_left _
    (Nat.add_le_add (Nat.mul_le_mul_right _ (Nat.add_le_add_right hrounds 1)) htrace)

/-- Where a run cannot be continued all partitions have returned. -/
theorem Reaches.returned (hb : b.Made log) (hbuild : b.build = .ok simulation)
    (hreaches : simulation.Reaches trace machine) (hhalted : (Machine.system M).Halted machine) :
    ∀ t ∈ machine.threads, t.result?.isSome := by
  intro t ht
  obtain ⟨j, hj⟩ := List.mem_iff_getElem?.mp ht
  obtain ⟨_, cohort, hrun, htracks, _⟩ := hreaches.cohort hb hbuild
  obtain ⟨_, m, hagrees⟩ := agrees_run hb hbuild hrun
  refine Option.isSome_iff_ne_none.mpr fun halive => ?_
  obtain ⟨i, hi⟩ :=
    htracks.exists_step_of_alive hreaches.told hagrees (departs_run hb hbuild hrun) hj halive
  exact hi (hhalted i)

/-- Where one run has come to a halt there is a bound on the steps of all runs. -/
theorem Reaches.exists_bound (hb : b.Made log) (hbuild : b.build = .ok simulation)
    (hreaches : simulation.Reaches trace machine) (hhalted : (Machine.system M).Halted machine) :
    ∃ bound, ∀ (schedule : List PartitionId) (other : List (PartitionId × Dispatch M))
      (final : Machine M), (Machine.system M).Run simulation.machine schedule other final →
        schedule.length ≤ bound := by
  obtain ⟨labels, cohort, hrun, htracks, _⟩ := hreaches.cohort hb hbuild
  have hle : ∀ {other : List (PartitionId × Dispatch M)} (labels' : List (Option PartitionId))
      (cohort' : Cohort M), (Cohort.system M).Run simulation.cohort labels' other cohort' →
        labels'.length ≤ labels.length := fun _ _ hother =>
    (Cohort.commuting M).length_le_of_halted hrun (htracks.halted hhalted) hother
  exact ⟨_, fun schedule other final hother => (length_schedule_le hb hbuild hle hother).1⟩

/-- A bounded run comes to an end. With a stop, no untimed handlers, links that take their time and
clocks that do not overflow there is a bound on the steps and the dispatches of all runs, so none
goes on for ever, and wherever a run cannot be continued all partitions have returned. -/
theorem comes_to_an_end (hb : b.Made log) (hbuild : b.build = .ok simulation)
    (hlifecycle : b.lifecycle = false) (hstop : b.config.stopAt = some stop)
    (hlast : stop < Time.never)
    (hlatency : ∀ (e : LinkEnd) (route : Route), routeAt b.tables e = some route →
      1 ≤ route.latency)
    (hexact : ∀ (trace : List (PartitionId × Dispatch M)) (machine : Machine M),
      simulation.Reaches trace machine → ∀ entry ∈ trace, entry.2.Exact) :
    (∃ bound, ∀ (schedule : List PartitionId) (trace : List (PartitionId × Dispatch M))
      (machine : Machine M), (Machine.system M).Run simulation.machine schedule trace machine →
        schedule.length ≤ bound ∧ trace.length ≤ bound) ∧
    (¬ ∃ f : Nat → Machine M, f 0 = simulation.machine ∧
      ∀ k, ∃ i, (f k).step? i = some (f (k + 1))) ∧
    ∀ (trace : List (PartitionId × Dispatch M)) (machine : Machine M),
      simulation.Reaches trace machine → (Machine.system M).Halted machine →
        ∀ t ∈ machine.threads, t.result?.isSome := by
  obtain ⟨bound, hbound⟩ := exists_bound_cohort hb hbuild hlifecycle hstop hlast hlatency
  obtain ⟨steps, hsteps⟩ : ∃ steps, steps = simulation.partitions.length *
    ((bound + 1) * (3 * simulation.partitions.length + 16) + bound) := ⟨_, rfl⟩
  have hle : ∀ {schedule : List PartitionId} {trace : List (PartitionId × Dispatch M)}
      {machine : Machine M}, (Machine.system M).Run simulation.machine schedule trace machine →
        schedule.length ≤ steps ∧ trace.length ≤ bound := by
    intro schedule trace machine hrun
    rw [hsteps]
    exact length_schedule_le hb hbuild
      (fun labels cohort hcohort => hbound _ _ _ hcohort (hexact _ _ ⟨schedule, hrun⟩)) hrun
  refine ⟨⟨steps + bound, fun schedule trace machine hrun => ?_⟩, ?_, ?_⟩
  · obtain ⟨hschedule, htrace⟩ := hle hrun
    omega
  · rintro ⟨f, hstart, hf⟩
    have hf : ∀ k, ∃ i, (Machine.system M).step? (f k) i = some (f (k + 1)) := hf
    obtain ⟨schedule, trace, hrun, hlength⟩ := System.run_of_steps hf (steps + 1)
    rw [hstart] at hrun
    have hschedule := (hle hrun).1
    omega
  · intro trace machine hreaches hhalted
    exact hreaches.returned hb hbuild hhalted

/-- A relay that would pass its token ten times is stopped at the instant 5. -/
theorem comes_to_an_end_relay :
    ((Relay.builder 1 10).withStop (some (Time.ofNat 5))).Made (Relay.log 10) ∧
    ∃ simulation, ((Relay.builder 1 10).withStop (some (Time.ofNat 5))).build = .ok simulation ∧
      (∃ bound, ∀ schedule trace machine,
        (Machine.system _).Run simulation.machine schedule trace machine →
          schedule.length ≤ bound ∧ trace.length ≤ bound) ∧
      (¬ ∃ f : Nat → Machine Ring.model, f 0 = simulation.machine ∧
        ∀ k, ∃ i, (f k).step? i = some (f (k + 1))) ∧
      ∀ trace machine, simulation.Reaches trace machine → (Machine.system _).Halted machine →
        ∀ t ∈ machine.threads, t.result?.isSome := by
  have hb : ((Relay.builder 1 10).withStop (some (Time.ofNat 5))).Made (Relay.log 10) :=
    (Relay.made 1 10).withStop (by decide)
  have hbuild := Builder.build_withStop (Relay.build_eq 1 10) (some (Time.ofNat 5))
  have hlatency : ∀ (e : LinkEnd) (route : Route),
      routeAt ((Relay.builder 1 10).withStop (some (Time.ofNat 5))).tables e = some route →
        1 ≤ route.latency := by
    intro e route hroute
    rw [Relay.latency_of_routeAt 1 10 hroute]
    decide
  exact ⟨hb, _, hbuild, comes_to_an_end hb hbuild rfl rfl (by decide) hlatency
    fun _ _ _ _ _ => Dispatch.exact_of_panics rfl _⟩

end Simulation

end Lookahead
