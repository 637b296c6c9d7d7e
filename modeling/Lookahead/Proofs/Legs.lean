import Lookahead.Proofs.Attendance
import Lookahead.Proofs.Ties

/-!
Legs: what a partition does between two meetings.

The meetings cut what is to be seen of a partition into legs. At a meeting everyone has done equally
many legs, and what waits in the outboxes is what was sent in the last of them, in the order of
sending (`Cohort.InLegs`). So what a meeting brings to a partition can be told from what was
dispatched: the sends of one leg, by the partitions that made them (`arrivals`).
-/

namespace Lookahead

variable {M : Model}

/-! ## Legs -/

/-- What a partition dispatched after its meeting of this number and before the next one. The first
leg comes before every meeting. -/
def leg : Nat → List (Dispatch M) → List (Dispatch M)
  | _, [] => []
  | 0, d :: seen => if d.activity.isSync then [] else d :: leg 0 seen
  | number + 1, d :: seen =>
    if d.activity.isSync then leg number seen else leg (number + 1) seen

def posted (number : Nat) (seen : List (Dispatch M)) (j : PartitionId) :
    List (Scheduled M.Payload) :=
  Sent.bound ((leg number seen).flatMap Dispatch.sends) j

/-- What the meeting behind a leg brings to a partition: what the `n` partitions sent to it in that
leg, in the order of the partitions and of sending. -/
def arrivals (n number : Nat) (trace : List (PartitionId × Dispatch M)) (j : PartitionId) :
    List (Scheduled M.Payload) :=
  (List.range n).flatMap fun i => posted number (System.seenOf i trace) j

theorem meetings_cons (d : Dispatch M) (seen : List (Dispatch M)) :
    (meetings (d :: seen)).length =
      (if d.activity.isSync then 1 else 0) + (meetings seen).length := by
  cases hsync : d.activity.isSync with
  | true => simp [meetings, hsync, Nat.add_comm]
  | false => simp [meetings, hsync]

theorem meetings_concat_of_sync {d : Dispatch M} (h : d.activity.isSync = true)
    (seen : List (Dispatch M)) :
    (meetings (seen ++ [d])).length = (meetings seen).length + 1 := by
  have hone : (meetings [d]).length = 1 := by simp [meetings, h]
  rw [meetings_append, List.length_append, hone]

/-- A further dispatch belongs to the leg that the partition is in. -/
theorem leg_concat (number : Nat) (seen : List (Dispatch M)) (d : Dispatch M) :
    leg number (seen ++ [d]) = leg number seen ++
      if (meetings seen).length = number ∧ d.activity.isSync = false then [d] else [] := by
  induction seen generalizing number with
  | nil =>
    cases number <;> cases hsync : d.activity.isSync <;> simp [leg, meetings, hsync]
  | cons e seen ih =>
    rw [List.cons_append, meetings_cons]
    cases hsync : e.activity.isSync with
    | true =>
      cases number with
      | zero =>
        simp [leg, hsync]
      | succ number =>
        have hsame : 1 + (meetings seen).length = number + 1 ↔ (meetings seen).length = number := by
          omega
        simp [leg, hsync, ih, hsame]
    | false => cases number <;> simp [leg, hsync, ih]

/-- A partition that has gone further adds nothing to a leg. -/
theorem leg_concat_of_ne {number : Nat} {seen : List (Dispatch M)}
    (h : (meetings seen).length ≠ number) (d : Dispatch M) :
    leg number (seen ++ [d]) = leg number seen := by
  rw [leg_concat, if_neg fun hboth => h hboth.1, List.append_nil]

theorem leg_concat_sync {number : Nat} {seen : List (Dispatch M)} {d : Dispatch M}
    (h : d.activity.isSync = true) : leg number (seen ++ [d]) = leg number seen := by
  rw [leg_concat, if_neg fun hboth => by simp [h] at hboth, List.append_nil]

/-- Nobody has begun a leg without the meeting before it. -/
theorem leg_eq_nil {number : Nat} {seen : List (Dispatch M)}
    (h : (meetings seen).length < number) : leg number seen = [] := by
  induction seen generalizing number with
  | nil => cases number <;> rfl
  | cons d seen ih =>
    rw [meetings_cons] at h
    cases number with
    | zero => omega
    | succ number =>
      cases hsync : d.activity.isSync with
      | true =>
        simp only [hsync, ↓reduceIte] at h
        simp only [leg, hsync, ↓reduceIte]
        exact ih (by omega)
      | false =>
        simp only [hsync, Bool.false_eq_true, ↓reduceIte] at h
        simp only [leg, hsync, Bool.false_eq_true, ↓reduceIte]
        exact ih (by omega)

theorem Sent.bound_append {π : Type} (front back : List (Sent π)) (j : PartitionId) :
    bound (front ++ back) j = bound front j ++ bound back j := by
  simp [bound]

/-- What is sent to others in a leg is added behind. -/
theorem posted_concat {number : Nat} {seen : List (Dispatch M)} {d : Dispatch M}
    (hnumber : (meetings seen).length = number) (hsync : d.activity.isSync = false)
    (j : PartitionId) :
    posted number (seen ++ [d]) j = posted number seen j ++ Sent.bound d.sends j := by
  unfold posted
  rw [leg_concat, if_pos ⟨hnumber, hsync⟩, List.flatMap_append, Sent.bound_append,
    List.flatMap_singleton]

theorem Dispatch.sends_of_isSync {d : Dispatch M} (h : d.activity.isSync = true) :
    d.sends = [] := by
  unfold sends
  cases hpayload : d.activity.payload with
  | sync => rfl
  | deliver event => simp [Activity.isSync, hpayload] at h
  | clock id => simp [Activity.isSync, hpayload] at h
  | stop => simp [Activity.isSync, hpayload] at h

theorem Dispatch.sends_of_stop {d : Dispatch M} (h : d.activity.payload = .stop) :
    d.sends = [] := by
  unfold sends
  rw [h]
  rfl

/-! ## What a step comes to -/

def Stance.preparing : Stance M → Bool
  | .running (.init _) _ => true
  | .ready ⟨.init _, _, _⟩ => true
  | _ => false

/-- What a step of a partition's own work comes to, as far as its agenda and its outboxes are
concerned: it dispatches nothing and is not in the timed run then, or it dispatches something. -/
inductive Stance.Steps (work : Work) (p : Partition M) : Option (Dispatch M) → Stance M → Prop
  | quiet {s : Stance M} (hagenda : s.partition.timeline.agenda = p.timeline.agenda)
      (htimed : s.timed? = none) (hawaits : s.awaits = false)
      (hpreparing : s.preparing = true → (Stance.running work p).preparing = true) :
      Steps work p none s
  | dispatch {s : Stance M} {d : Dispatch M} (ticks : List (Scheduled M.Payload))
      (hwork : work = .timed) (hnext : p.next? = some d)
      (hticks : ∀ a ∈ ticks, a.isDelivery = false)
      (hagenda : s.partition.timeline.agenda =
        Ordered.placeAll Activity.before (Sent.kept d.sends ++ ticks) d.partition.timeline.agenda)
      (houtboxes : ∀ q, s.timed? = some q →
        ∀ j, q.outboxFor j = p.outboxFor j ++ Sent.bound d.sends j)
      (hawaits : s.awaits = d.activity.isSync)
      (hready : d.activity.isSync = true → ∃ q, s = .ready ⟨.timed, q, .epoch⟩ ∧
        q.timeline = d.partition.timeline)
      (hpreparing : s.preparing = false) : Steps work p (some d) s

namespace Thread

@[simp] theorem preparing_finishTimed (stop : StopReason) (p : Partition M) :
    (finishTimed stop p).stance.preparing = false := by
  unfold finishTimed
  cases p.lifecycle <;> rfl

theorem steps_runPhase {work : Work} (hwork : work ≠ .timed) (stage : Stage) (phase : Nat)
    (p : Partition M) : (runPhase work stage phase p).stance.Steps work p none := by
  have hphases := phases_runPhase work stage phase p
  generalize runPhase work stage phase p = t at hphases
  cases hphases with
  | ready own q hphased =>
    obtain ⟨outbound, inbox, state, participants, _, rfl⟩ := hphased
    cases work with
    | timed => exact absurd rfl hwork
    | init phase => exact .quiet rfl rfl rfl fun _ => rfl
    | complete phase stop => exact .quiet rfl rfl rfl fun h => by cases h
  | failed e q hphased =>
    obtain ⟨outbound, inbox, state, participants, _, rfl⟩ := hphased
    exact .quiet rfl rfl rfl fun h => by cases h

theorem agenda_after {e : Effect M} {d : Dispatch M} (h : e.Of d) :
    (d.partition.after e).timeline.agenda =
      Ordered.placeAll Activity.before
        (Sent.kept d.sends ++ e.ticks.map Activity.unnumbered) d.partition.timeline.agenda := by
  have hkept : (Sent.kept e.sends).map Activity.unnumbered = Sent.kept e.sends := by
    unfold Sent.kept
    rw [List.map_map]
    rfl
  show (d.partition.timeline.addAll (Sent.kept e.sends ++ e.ticks)).agenda = _
  rw [Timeline.agenda_addAll, List.map_append, hkept, h.sends]

theorem steps_workOn (work : Work) (p : Partition M) :
    (workOn work p).stance.Steps work p (work.dispatch? p) := by
  cases work with
  | init phase => exact steps_runPhase (by simp) .init phase p
  | complete phase stop => exact steps_runPhase (by simp) .complete phase p
  | timed =>
    have hworks := works_workOn p
    generalize workOn .timed p = t at hworks
    show t.stance.Steps .timed p p.next?
    have hticks : ∀ {e : Effect M} {d : Dispatch M}, e.Of d →
        ∀ a ∈ e.ticks.map Activity.unnumbered, a.isDelivery = false := by
      intro e d heffect a ha
      obtain ⟨b, hb, rfl⟩ := List.mem_map.mp ha
      obtain ⟨id, hid⟩ := (heffect.ticks b hb).clock
      simp [Activity.isDelivery, hid, Action.event?]
    cases hworks with
    | idle hnext =>
      rw [hnext]
      refine .quiet ?_ (by simp) (by simp) (by simp)
      rw [partition_stance, timeline_finishTimed]
    | work d e hnext hwork heffect hfault =>
      rw [hnext]
      have hsync := Dispatch.isSync_of_isWork (d := d) hwork
      refine .dispatch _ rfl hnext (hticks heffect) (agenda_after heffect) ?_ hsync.symm ?_ rfl
      · intro q hq j
        cases hq
        rw [Partition.outboxFor_after heffect, Partition.outboxFor_of_next? hnext]
      · intro h
        rw [hsync] at h
        cases h
    | failed d e err hnext hwork heffect hfault =>
      rw [hnext]
      have hsync := Dispatch.isSync_of_isWork (d := d) hwork
      refine .dispatch _ rfl hnext (hticks heffect) (agenda_after heffect) (fun q hq => by cases hq)
        hsync.symm ?_ rfl
      intro h
      rw [hsync] at h
      cases h
    | sync d hnext hsync =>
      rw [hnext]
      have hissync : d.activity.isSync = true := by simp [Activity.isSync, hsync]
      have hsends := Dispatch.sends_of_isSync hissync
      refine .dispatch [] rfl hnext (by simp) (by rw [hsends]; rfl) ?_ hissync.symm
        (fun _ => ⟨_, rfl, rfl⟩) rfl
      intro q hq j
      cases hq
      rw [hsends]
      exact (Partition.outboxFor_of_next? hnext j).trans (List.append_nil _).symm
    | stop d hnext hstop =>
      rw [hnext]
      have hissync : d.activity.isSync = false := by simp [Activity.isSync, hstop]
      refine .dispatch [] rfl hnext (by simp) ?_ (by simp) (by simp [hissync])
        (by simp [hissync]) (by simp)
      rw [partition_stance, timeline_finishTimed, Dispatch.sends_of_stop hstop]
      rfl

end Thread

/-! ## Rounds -/

namespace Party

/-- After an epoch nobody awaits a meeting, nothing waits in the outboxes, and what came in is on
the agenda, besides the next meeting. -/
theorem conclude_meeting (p : Partition M) (incoming : List (Scheduled M.Payload)) (least : Time) :
    let s := (conclude ⟨.timed, p, .epoch⟩ incoming least).stance
    s.awaits = false ∧ s.preparing = false ∧
      (∀ r, s.timed? = some r → ∀ j, r.outboxFor j = []) ∧
      ∀ kind : Scheduled M.Payload → Bool, (∀ time, kind (.ofMeeting time) = false) →
        s.partition.timeline.agenda.filter kind =
          (p.timeline.addAll incoming).agenda.filter kind := by
  have htimeline : (taken ⟨.timed, p, .epoch⟩ incoming).timeline = p.timeline.addAll incoming :=
    timeline_taken_epoch rfl
  unfold conclude
  by_cases hleast : least = Time.never
  · simp only [hleast, ↓reduceIte, Thread.awaits_finishTimed, Thread.preparing_finishTimed,
      Thread.timed?_finishTimed, Thread.partition_stance, Thread.timeline_finishTimed]
    refine ⟨trivial, trivial, (fun r hr => by cases hr), fun kind _ => ?_⟩
    rw [htimeline]
  · simp only [hleast, ↓reduceIte]
    refine ⟨rfl, rfl, ?_, fun kind hkind => ?_⟩
    · intro r hr j
      cases hr
      exact outboxFor_taken ⟨.timed, p, .epoch⟩ incoming j
    · show ((taken ⟨.timed, p, .epoch⟩ incoming).timeline.insert _ _ _).agenda.filter kind = _
      rw [Timeline.filter_agenda_meeting _ _ (hkind _), htimeline]

/-- After a round of an untimed stage nobody awaits a meeting, the timeline is what it was, and
whoever begins the timed run has nothing in its outboxes. -/
theorem conclude_stage {work : Work} (hwork : work ≠ .timed) (p : Partition M) (own : Nat)
    (incoming : List (Scheduled M.Payload)) (least : Time) :
    let q : Party M := ⟨work, p, .untimed own⟩
    let s := (q.conclude incoming least).stance
    s.awaits = false ∧ s.partition.timeline = p.timeline ∧
      (s.preparing = true → (Stance.ready q).preparing = true) ∧
      ∀ r, s.timed? = some r →
        (Stance.ready q).preparing = true ∧ ∀ j, r.outboxFor j = [] := by
  have houtboxes := outboxFor_taken (⟨work, p, .untimed own⟩ : Party M) incoming
  cases work with
  | timed => exact absurd rfl hwork
  | init phase =>
    unfold conclude
    by_cases hleast : least = Time.never <;> simp only [hleast, ne_eq, not_true_eq_false,
      not_false_eq_true, decide_false, decide_true, Thread.afterRound]
    · refine ⟨rfl, rfl, (fun h => by cases h), fun r hr => ⟨rfl, ?_⟩⟩
      cases hr
      exact houtboxes
    · exact ⟨rfl, rfl, fun _ => rfl, fun r hr => by cases hr⟩
  | complete phase stop =>
    unfold conclude
    by_cases hleast : least = Time.never <;> simp only [hleast, ne_eq, not_true_eq_false,
      not_false_eq_true, decide_false, decide_true, Thread.afterRound] <;>
      exact ⟨rfl, rfl, (fun h => by cases h), fun r hr => by cases hr⟩

end Party

/-! ## Cohorts -/

/-- Everyone in a cohort has come to this number of meetings, or awaits the next, and what waits in
the outboxes was sent in the leg that everyone is in. -/
structure Cohort.InLegs (cohort : Cohort M) (trace : List (PartitionId × Dispatch M))
    (number : Nat) : Prop where
  counted : ∀ (i : Nat) (s : Stance M), cohort[i]? = some s →
    (meetings (System.seenOf i trace)).length = if s.awaits then number + 1 else number
  last : ∀ (i : Nat) (s : Stance M), cohort[i]? = some s → s.awaits = true →
    ∃ front d q, System.seenOf i trace = front ++ [d] ∧ d.activity.isSync = true ∧
      s = .ready ⟨.timed, q, .epoch⟩ ∧ q.timeline = d.partition.timeline
  early : ∀ (i : Nat) (s : Stance M), cohort[i]? = some s → s.preparing = true →
    System.seenOf i trace = []
  outboxes : ∀ (i : Nat) (s : Stance M) (p : Partition M), cohort[i]? = some s →
    s.timed? = some p → ∀ j, p.outboxFor j = posted number (System.seenOf i trace) j

namespace Cohort.InLegs

variable {cohort : Cohort M} {parties : List (Party M)} {trace : List (PartitionId × Dispatch M)}
  {number i : Nat} {work : Work} {p : Partition M}

theorem workOn (h : cohort.InLegs trace number) (hi : cohort[i]? = some (.running work p)) :
    InLegs (cohort.set i (Thread.workOn work p).stance) (trace ++ noteAt i (work.dispatch? p))
      number := by
  have hsteps := Thread.steps_workOn work p
  generalize (Thread.workOn work p).stance = s at hsteps
  generalize work.dispatch? p = dispatch at hsteps
  have hcount : (meetings (System.seenOf i trace)).length = number := h.counted i _ hi
  constructor
  case counted =>
    refine forall_seen_set (P := fun _ r seen =>
      (meetings seen).length = if r.awaits then number + 1 else number) h.counted ?_
    cases hsteps with
    | quiet hagenda htimed hawaits hpreparing =>
      simp only [Option.toList_none, List.append_nil, hawaits, hcount, Bool.false_eq_true,
        ↓reduceIte]
    | @dispatch _ d ticks hwork hnext hticks hagenda houtboxes hawaits hready hpreparing =>
      rw [Option.toList_some, meetings_append, List.length_append, hcount, hawaits]
      cases hsync : d.activity.isSync <;> simp [meetings, hsync]
  case last =>
    refine forall_seen_set (P := fun _ r seen => r.awaits = true → ∃ front d q,
      seen = front ++ [d] ∧ d.activity.isSync = true ∧ r = .ready ⟨.timed, q, .epoch⟩ ∧
        q.timeline = d.partition.timeline) h.last fun hs => ?_
    cases hsteps with
    | quiet hagenda htimed hawaits hpreparing =>
      rw [hawaits] at hs
      cases hs
    | @dispatch _ d ticks hwork hnext hticks hagenda houtboxes hawaits hready hpreparing =>
      rw [hawaits] at hs
      obtain ⟨q, hq, htimeline⟩ := hready hs
      exact ⟨_, d, q, rfl, hs, hq, htimeline⟩
  case early =>
    refine forall_seen_set (P := fun _ r seen => r.preparing = true → seen = []) h.early
      fun hs => ?_
    cases hsteps with
    | quiet hagenda htimed hawaits hpreparing =>
      rw [Option.toList_none, List.append_nil]
      exact h.early i _ hi (hpreparing hs)
    | dispatch ticks hwork hnext hticks hagenda houtboxes hawaits hready hpreparing =>
      rw [hpreparing] at hs
      cases hs
  case outboxes =>
    have hnew : ∀ q, s.timed? = some q → ∀ k, q.outboxFor k =
        posted number (System.seenOf i trace ++ dispatch.toList) k := by
      intro q hq k
      cases hsteps with
      | quiet hagenda htimed hawaits hpreparing =>
        rw [htimed] at hq
        cases hq
      | @dispatch _ d ticks hwork hnext hticks hagenda houtboxes hawaits hready hpreparing =>
        subst hwork
        rw [houtboxes q hq k, h.outboxes i _ p hi rfl k, Option.toList_some]
        cases hsync : d.activity.isSync with
        | false => rw [posted_concat hcount hsync]
        | true =>
          rw [Dispatch.sends_of_isSync hsync]
          unfold posted
          rw [leg_concat_sync hsync]
          exact List.append_nil _
    intro j r q hr
    exact forall_seen_set (P := fun _ r seen => ∀ q, r.timed? = some q →
      ∀ k, q.outboxFor k = posted number seen k) (fun j r hr q => h.outboxes j r q hr) hnew j r hr q

theorem meet (h : InLegs (parties.map Stance.ready) trace number)
    (hready : ∀ q ∈ parties, ∃ p, q = ⟨.timed, p, .epoch⟩) :
    InLegs (exchanged parties) trace (number + 1) := by
  have hall : ∀ {j : Nat} {s : Stance M}, (exchanged parties)[j]? = some s →
      ∃ p, (parties.map Stance.ready)[j]? = some (.ready ⟨.timed, p, .epoch⟩) ∧
        s = (Party.conclude ⟨.timed, p, .epoch⟩ (Party.incoming parties j)
          (Party.least parties)).stance := by
    intro j s hs
    obtain ⟨q, hq, rfl⟩ := getElem?_exchanged hs
    obtain ⟨p, rfl⟩ := hready q (List.mem_of_getElem? hq)
    exact ⟨p, getElem?_ready hq, rfl⟩
  constructor
  case counted =>
    intro j s hs
    obtain ⟨p, hj, rfl⟩ := hall hs
    rw [(Party.conclude_meeting p _ _).1]
    exact h.counted j _ hj
  case last =>
    intro j s hs hawaits
    obtain ⟨p, hj, rfl⟩ := hall hs
    rw [(Party.conclude_meeting p _ _).1] at hawaits
    cases hawaits
  case early =>
    intro j s hs hpreparing
    obtain ⟨p, hj, rfl⟩ := hall hs
    rw [(Party.conclude_meeting p _ _).2.1] at hpreparing
    cases hpreparing
  case outboxes =>
    intro j s r hs hr k
    obtain ⟨p, hj, rfl⟩ := hall hs
    rw [(Party.conclude_meeting p _ _).2.2.1 r hr k]
    obtain ⟨front, d, q, hseen, hsync, _, _⟩ := h.last j _ hj rfl
    have hcount := h.counted j _ hj
    rw [hseen, meetings_concat_of_sync hsync, Stance.awaits, if_pos rfl] at hcount
    have hfront : (meetings front).length < number + 1 := by omega
    unfold posted
    rw [hseen, leg_concat_sync hsync, leg_eq_nil hfront]
    rfl

/-- Everyone has a round of an untimed stage. -/
theorem talk (h : InLegs (parties.map Stance.ready) trace number)
    (hready : ∀ q ∈ parties, ∃ work p own, q = ⟨work, p, .untimed own⟩ ∧ work ≠ .timed) :
    InLegs (exchanged parties) trace number := by
  have hall : ∀ {j : Nat} {s : Stance M}, (exchanged parties)[j]? = some s →
      ∃ work p own, (parties.map Stance.ready)[j]? = some (.ready ⟨work, p, .untimed own⟩) ∧
        work ≠ .timed ∧ s = (Party.conclude ⟨work, p, .untimed own⟩ (Party.incoming parties j)
          (Party.least parties)).stance := by
    intro j s hs
    obtain ⟨q, hq, rfl⟩ := getElem?_exchanged hs
    obtain ⟨work, p, own, rfl, hwork⟩ := hready q (List.mem_of_getElem? hq)
    exact ⟨work, p, own, getElem?_ready hq, hwork, rfl⟩
  constructor
  case counted =>
    intro j s hs
    obtain ⟨work, p, own, hj, hwork, rfl⟩ := hall hs
    rw [(Party.conclude_stage hwork p own _ _).1]
    exact h.counted j _ hj
  case last =>
    intro j s hs hawaits
    obtain ⟨work, p, own, hj, hwork, rfl⟩ := hall hs
    rw [(Party.conclude_stage hwork p own _ _).1] at hawaits
    cases hawaits
  case early =>
    intro j s hs hpreparing
    obtain ⟨work, p, own, hj, hwork, rfl⟩ := hall hs
    exact h.early j _ hj ((Party.conclude_stage hwork p own _ _).2.2.1 hpreparing)
  case outboxes =>
    intro j s r hs hr k
    obtain ⟨work, p, own, hj, hwork, rfl⟩ := hall hs
    obtain ⟨hpreparing, hempty⟩ := (Party.conclude_stage hwork p own _ _).2.2.2 r hr
    have hseen := h.early j _ hj hpreparing
    rw [hempty k, hseen]
    cases number <;> rfl

end Cohort.InLegs

end Lookahead
