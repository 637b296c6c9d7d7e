import Lookahead.Proofs.Gathering
import Lookahead.Proofs.Work

/-!
What a step of a thread can be.

A thread works on, comes to a gate, looks again at a gate, goes on within its round, concludes it,
or leaves and aborts the barriers (`Thread.moves_of_step?`). So no step takes a completed round or
an abort of a barrier back, and only the end of a round changes how far a partition has come.
-/

namespace Lookahead

variable {M : Model}

/-! ## How far a partition has come -/

/-- The rounds of either kind that a partition has concluded, and its next meeting. -/
@[ext] structure Pace where
  epochs : Nat
  untimedRounds : Nat
  nextSync : Time
deriving DecidableEq

def Member.pace {π : Type} (member : Member π) : Pace where
  epochs := member.epochs
  untimedRounds := member.untimedRounds
  nextSync := member.nextSync

def Partition.pace (p : Partition M) : Pace := p.member.pace

namespace Round.Kind

def isEpoch : Kind → Bool
  | .epoch => true
  | .untimed _ => false

end Round.Kind

namespace Pace

def rounds (pace : Pace) : Nat := pace.epochs + pace.untimedRounds

/-- The number of a round among those of its kind. -/
def index (pace : Pace) (epoch : Bool) : Nat := if epoch then pace.epochs else pace.untimedRounds

def next (pace : Pace) (epoch : Bool) (meeting : Time) : Pace :=
  if epoch then { pace with epochs := pace.epochs + 1, nextSync := meeting }
  else { pace with untimedRounds := pace.untimedRounds + 1 }

@[simp] theorem rounds_next (pace : Pace) (epoch : Bool) (meeting : Time) :
    (pace.next epoch meeting).rounds = pace.rounds + 1 := by
  cases epoch <;> simp only [next, rounds, Bool.false_eq_true, ↓reduceIte] <;> omega

end Pace

namespace Partition

variable {p q : Partition M}

theorem pace_next? {d : Dispatch M} (h : p.next? = some d) : d.partition.pace = p.pace := by
  obtain ⟨timeline, _, hpartition⟩ := next?_eq_some_iff.mp h
  rw [hpartition]
  rfl

theorem pace_phased (h : p.Phased q) : q.pace = p.pace := by
  obtain ⟨outbound, inbox, state, participants, _, rfl⟩ := h
  rfl

end Partition

namespace Thread

def pace (t : Thread M) : Pace := t.partition.pace

theorem pace_beginRound (work : Work) (p : Partition M) (kind : Round.Kind) :
    (beginRound work p kind).pace = p.pace := by
  cases kind <;> rfl

theorem pace_finishTimed (stop : StopReason) (p : Partition M) :
    (finishTimed stop p).pace = p.pace := by
  unfold finishTimed
  split <;> rfl

theorem pace_runPhase (work : Work) (stage : Stage) (phase : Nat) (p : Partition M) :
    (runPhase work stage phase p).pace = p.pace := by
  have hphases := phases_runPhase work stage phase p
  generalize runPhase work stage phase p = t at hphases
  cases hphases with
  | ready own q hphased => exact (pace_beginRound ..).trans (Partition.pace_phased hphased)
  | failed e q hphased => exact Partition.pace_phased hphased

theorem pace_workOn (work : Work) (p : Partition M) : (workOn work p).pace = p.pace := by
  cases work with
  | init phase => exact pace_runPhase ..
  | complete phase stop => exact pace_runPhase ..
  | timed =>
    have hworks := works_workOn p
    generalize workOn .timed p = t at hworks
    cases hworks with
    | idle hnext => exact pace_finishTimed ..
    | work d e hnext => exact Partition.pace_next? (M := M) hnext
    | failed d e err hnext => exact Partition.pace_next? (M := M) hnext
    | sync d hnext => exact (pace_beginRound ..).trans (Partition.pace_next? hnext)
    | stop d hnext => exact (pace_finishTimed ..).trans (Partition.pace_next? hnext)

theorem pace_afterRound (work : Work) (p : Partition M) (kind : Round.Kind)
    (outcome : Round.Outcome M.Payload) : (afterRound work p kind outcome).pace = p.pace := by
  unfold afterRound
  cases outcome with
  | resume nextSync => rfl
  | drained => exact pace_finishTimed ..
  | untimed received more =>
    dsimp only
    split <;> rfl

end Thread

/-! ## Failures -/

namespace Thread

def error? : Thread M → Option RunError
  | .aborting _ e _ => some e
  | .ended (.error e) _ => some e
  | _ => none

def told : Thread M → Bool
  | .aborting .exchanged _ _ => true
  | .aborting .published _ _ => true
  | .ended (.error _) _ => true
  | _ => false

theorem told_of_error? {t : Thread M} (h : t.error? = none) : t.told = false := by
  cases t with
  | aborting gate e p => cases h
  | ended result p =>
    cases result with
    | ok stop => rfl
    | error e => cases h
  | _ => rfl

theorem error?_finishTimed (stop : StopReason) (p : Partition M) :
    (finishTimed stop p).error? = none := by
  unfold finishTimed
  split <;> rfl

/-- Nobody fails at the end of a round. -/
theorem error?_afterRound (work : Work) (p : Partition M) (kind : Round.Kind)
    (outcome : Round.Outcome M.Payload) : (afterRound work p kind outcome).error? = none := by
  unfold afterRound
  cases outcome with
  | resume nextSync => rfl
  | drained => exact error?_finishTimed ..
  | untimed received more =>
    dsimp only
    split <;> rfl

theorem told_runPhase (work : Work) (stage : Stage) (phase : Nat) (p : Partition M) :
    (runPhase work stage phase p).told = false := by
  have hphases := phases_runPhase work stage phase p
  generalize runPhase work stage phase p = t at hphases
  cases hphases <;> rfl

/-- Whoever fails at work has told nobody yet. -/
theorem told_workOn (work : Work) (p : Partition M) : (workOn work p).told = false := by
  cases work with
  | init phase => exact told_runPhase ..
  | complete phase stop => exact told_runPhase ..
  | timed =>
    have hworks := works_workOn p
    generalize workOn .timed p = t at hworks
    cases hworks with
    | idle hnext => exact told_of_error? (error?_finishTimed ..)
    | work d e hnext => rfl
    | failed d e err hnext => rfl
    | sync d hnext => rfl
    | stop d hnext => exact told_of_error? (error?_finishTimed ..)

end Thread

/-! ## Barriers only move on -/

/-- Completed rounds stay complete, and who is aborted stays aborted. -/
structure Barrier.Later (b b' : Barrier) : Prop where
  generation : b.generation ≤ b'.generation
  aborted : b.aborted = true → b'.aborted = true

namespace Barrier.Later

variable {b b' b'' : Barrier}

theorem refl (b : Barrier) : b.Later b := ⟨Nat.le_refl _, id⟩

theorem trans (h : b.Later b') (h' : b'.Later b'') : b.Later b'' :=
  ⟨Nat.le_trans h.generation h'.generation, h'.aborted ∘ h.aborted⟩

theorem arrive (b : Barrier) : b.Later b.arrive.1 := by
  unfold Barrier.arrive
  split
  · exact refl b
  · split
    · exact ⟨Nat.le_succ _, id⟩
    · exact ⟨Nat.le_refl _, id⟩

theorem abort (b : Barrier) : b.Later b.abort := ⟨Nat.le_refl _, fun _ => rfl⟩

end Barrier.Later

namespace Shared

variable {π : Type} {a b c : Shared π}

@[simp] theorem barrier_setBarrier_self (shared : Shared π) (gate : Gate) (barrier : Barrier) :
    (shared.setBarrier gate barrier).barrier gate = barrier := by
  cases gate <;> rfl

theorem barrier_setBarrier_ne (shared : Shared π) {gate other : Gate} (h : other ≠ gate)
    (barrier : Barrier) :
    (shared.setBarrier gate barrier).barrier other = shared.barrier other := by
  cases gate <;> cases other <;> first | rfl | exact absurd rfl h

def Later (a b : Shared π) : Prop := ∀ gate, (a.barrier gate).Later (b.barrier gate)

namespace Later

theorem refl (a : Shared π) : a.Later a := fun _ => .refl _

theorem trans (h : a.Later b) (h' : b.Later c) : a.Later c := fun gate => (h gate).trans (h' gate)

theorem of_barriers (h : ∀ gate, b.barrier gate = a.barrier gate) : a.Later b := by
  intro gate
  rw [h gate]
  exact .refl _

theorem setBarrier (a : Shared π) {gate : Gate} {barrier : Barrier}
    (h : (a.barrier gate).Later barrier) : a.Later (a.setBarrier gate barrier) := by
  intro other
  by_cases hother : other = gate
  · subst hother
    rw [barrier_setBarrier_self]
    exact h
  · rw [barrier_setBarrier_ne a hother]
    exact .refl _

theorem abortAt (a : Shared π) (gate : Gate) : a.Later (a.abortAt gate) :=
  setBarrier a (.abort _)

theorem abort (a : Shared π) : a.Later a.abort :=
  (abortAt a .arrive).trans ((abortAt _ .exchanged).trans (abortAt _ .published))

end Later

end Shared

/-! ## Steps of a thread -/

/-- A thread in a round goes on from one position to the next, between two gates. -/
inductive Round.Goes (shared : Shared M.Payload) (p : Partition M) :
    Round.Position M.Payload → Round.Position M.Payload → Prop
  | turn (target : PartitionId) (h : target < p.member.outbound.length) :
      Goes shared p (.handingOver target) (.handingOver (target + 1))
  | handedOver (target : PartitionId) :
      Goes shared p (.handingOver target) (.entering .exchanged)
  | collect (got : List (Batch M.Payload)) (batch : Batch M.Payload) :
      Goes shared p (.collecting got) (.collecting (got ++ [batch]))
  | collected (got : List (Batch M.Payload)) : Goes shared p (.collecting got) .publishing
  | publish : Goes shared p .publishing (.entering .published)
  | read (slot : Nat) (least next : Time) (h : slot < shared.minimums.length) :
      Goes shared p (.reading slot least) (.reading (slot + 1) next)

/-- What a step of a thread can be. -/
inductive Thread.Moves (shared : Shared M.Payload) :
    Thread M → Shared M.Payload → Thread M → Prop
  | work (work : Work) (p : Partition M) :
      Moves shared (.running work p) shared (workOn work p)
  | arrive (work : Work) (p : Partition M) (round : Round M.Payload) (gate : Gate)
      (h : round.position = .entering gate) :
      Moves shared (.syncing work p round)
        (shared.setBarrier gate (shared.barrier gate).arrive.1)
        (stand work p round gate (shared.barrier gate).arrive.2)
  | look (work : Work) (p : Partition M) (round : Round M.Payload) (gate : Gate)
      (generation : Nat) (h : round.position = .waiting gate generation)
      (hlook : ∀ g, (shared.barrier gate).look generation ≠ .waiting g) :
      Moves shared (.syncing work p round) shared
        (stand work p round gate ((shared.barrier gate).look generation))
  | goes (work : Work) (p q : Partition M) (round next : Round M.Payload)
      (shared' : Shared M.Payload) (hbarriers : ∀ gate, shared'.barrier gate = shared.barrier gate)
      (hpace : q.pace = p.pace) (hkind : next.kind = round.kind)
      (h : Round.Goes shared p round.position next.position) :
      Moves shared (.syncing work p round) shared' (.syncing work q next)
  | lost (work : Work) (p q : Partition M) (round : Round M.Payload) (target : PartitionId)
      (box : Outbox M.Payload) (batch : Batch M.Payload) (hpace : q.pace = p.pace)
      (h : round.position = .handingOver target) (hbox : p.member.outbound[target]? = some box)
      (hpost : shared.post? target batch = none) :
      Moves shared (.syncing work p round) shared.abort (fail (.link (.noRoute target)) q)
  | conclude (work : Work) (p : Partition M) (round : Round M.Payload) (slot : Nat) (least : Time)
      (t : Thread M) (meeting : Time) (h : round.position = .reading slot least)
      (hafresh : t.Afresh) (hpace : t.pace = p.pace.next round.kind.isEpoch meeting)
      (hsound : t.error? = none) :
      Moves shared (.syncing work p round) shared t
  | abort (gate : Gate) (e : RunError) (p : Partition M) (t : Thread M)
      (h : t = match gate with
        | .arrive => .aborting .exchanged e p
        | .exchanged => .aborting .published e p
        | .published => .ended (.error e) p) :
      Moves shared (.aborting gate e p) (shared.abortAt gate) t

namespace Thread

variable {shared shared' : Shared M.Payload} {t t' : Thread M} {work : Work} {p : Partition M}
  {round : Round M.Payload}

theorem moveTo_position (round : Round M.Payload) : round.moveTo round.position = round := rfl

theorem moves_handingOver {target : PartitionId} (h : round.position = .handingOver target)
    (hstep : step? shared (.syncing work p round) = some (shared', t')) :
    Moves shared (.syncing work p round) shared' t' := by
  rw [← moveTo_position round, h] at hstep
  cases hbox : p.member.outbound[target]? with
  | none =>
    rw [step?_handingOver_end hbox] at hstep
    cases hstep
    refine .goes _ _ _ _ _ _ (fun _ => rfl) ?_ rfl (h ▸ .handedOver target)
    cases round.kind <;> rfl
  | some box =>
    have hlt := (List.getElem?_eq_some_iff.mp hbox).1
    cases hempty : box.isEmpty with
    | true =>
      rw [step?_handingOver_empty hbox hempty] at hstep
      cases hstep
      exact .goes _ _ _ _ _ _ (fun _ => rfl) rfl rfl (h ▸ .turn target hlt)
    | false =>
      cases hpost : shared.post? target ⟨p.member.id, box.activities.map fun activity =>
        activity.notBefore (round.horizon p.timeline)⟩ with
      | some posted =>
        rw [step?_handingOver_post hbox hempty hpost] at hstep
        cases hstep
        refine .goes _ _ _ _ _ _ ?_ rfl rfl (h ▸ .turn target hlt)
        unfold Shared.post? at hpost
        split at hpost
        · cases hpost
          intro gate
          cases gate <;> rfl
        · cases hpost
      | none =>
        have hhorizon : (round.moveTo (.handingOver target)).horizon p.timeline =
            round.horizon p.timeline := rfl
        simp only [step?, syncOn, Seat.step?, Round.moveTo, Seat.handOver, hbox, hempty,
          Bool.false_eq_true, ↓reduceIte] at hstep
        simp only [Round.moveTo] at hhorizon
        rw [hhorizon, hpost] at hstep
        cases hstep
        exact .lost _ _ _ _ target box _ rfl h hbox hpost

theorem moves_collecting {got : List (Batch M.Payload)} (h : round.position = .collecting got)
    (hstep : step? shared (.syncing work p round) = some (shared', t')) :
    Moves shared (.syncing work p round) shared' t' := by
  rw [← moveTo_position round, h] at hstep
  cases hfetch : shared.fetch? p.member.id with
  | some fetched =>
    obtain ⟨batch, rest⟩ := fetched
    rw [step?_collecting hfetch] at hstep
    cases hstep
    refine .goes _ _ _ _ _ _ ?_ rfl rfl (h ▸ .collect got batch)
    unfold Shared.fetch? at hfetch
    split at hfetch
    · cases hfetch
      intro gate
      cases gate <;> rfl
    · cases hfetch
  | none =>
    rw [step?_collecting_end hfetch] at hstep
    cases hkind : round.kind with
    | epoch =>
      simp only [hkind] at hstep
      cases hstep
      exact .goes _ _ _ _ _ _ (fun _ => rfl) rfl rfl (h ▸ .collected got)
    | untimed own =>
      simp only [hkind] at hstep
      cases hstep
      exact .goes _ _ _ _ _ _ (fun _ => rfl) rfl hkind.symm (h ▸ .collected got)

theorem moves_reading {slot : Nat} {least : Time} (h : round.position = .reading slot least)
    (hstep : step? shared (.syncing work p round) = some (shared', t')) :
    Moves shared (.syncing work p round) shared' t' := by
  cases hslot : shared.minimums[slot]? with
  | some time =>
    rw [← moveTo_position round, h, step?_reading hslot] at hstep
    cases hstep
    have hlt := (List.getElem?_eq_some_iff.mp hslot).1
    exact .goes _ _ _ _ _ _ (fun _ => rfl) rfl rfl (h ▸ .read slot least _ hlt)
  | none =>
    simp only [step?, syncOn, Seat.step?, h, Seat.read, hslot, Seat.conclude] at hstep
    cases hkind : round.kind with
    | epoch =>
      by_cases hleast : least = Time.never
      · simp only [hkind, hleast, ↓reduceIte] at hstep
        cases hstep
        refine .conclude _ _ _ slot least _ p.member.nextSync h (afresh_afterRound ..) ?_
          (error?_afterRound ..)
        rw [pace_afterRound, hkind]
        rfl
      · simp only [hkind, hleast, ↓reduceIte] at hstep
        cases hstep
        refine .conclude _ _ _ slot least _ (Seat.nextMeeting least p.member.window) h
          (afresh_afterRound ..) ?_ (error?_afterRound ..)
        rw [pace_afterRound, hkind]
        rfl
    | untimed own =>
      simp only [hkind] at hstep
      cases hstep
      refine .conclude _ _ _ slot least _ p.member.nextSync h (afresh_afterRound ..) ?_
        (error?_afterRound ..)
      rw [pace_afterRound, hkind]
      rfl

theorem moves_of_step? (hstep : t.step? shared = some (shared', t')) :
    Moves shared t shared' t' := by
  cases t with
  | running work p =>
    cases hstep
    exact .work work p
  | ended result p => cases hstep
  | aborting gate e p =>
    cases gate <;>
      · cases hstep
        exact .abort _ e p _ rfl
  | syncing work p round =>
    cases hposition : round.position with
    | entering gate =>
      rw [← moveTo_position round, hposition, step?_entering] at hstep
      cases hstep
      exact .arrive work p round gate hposition
    | waiting gate generation =>
      rw [← moveTo_position round, hposition, step?_waiting] at hstep
      have hlook : ∀ g, (shared.barrier gate).look generation ≠ .waiting g := by
        intro g hg
        rw [hg] at hstep
        cases hstep
      have hstand : (shared, stand work p round gate ((shared.barrier gate).look generation)) =
          (shared', t') := by
        cases hstanding : (shared.barrier gate).look generation with
        | waiting g => exact absurd hstanding (hlook g)
        | passed =>
          rw [hstanding] at hstep
          exact Option.some.inj hstep
        | turnedAway =>
          rw [hstanding] at hstep
          exact Option.some.inj hstep
      cases hstand
      exact .look work p round gate generation hposition hlook
    | handingOver target => exact moves_handingOver hposition hstep
    | collecting got => exact moves_collecting hposition hstep
    | publishing =>
      rw [← moveTo_position round, hposition, step?_publishing] at hstep
      cases hstep
      refine .goes _ _ _ _ _ _ (fun gate => ?_) rfl rfl (hposition ▸ .publish)
      cases gate <;> rfl
    | reading slot least => exact moves_reading hposition hstep

/-- No step takes anything back at a barrier. -/
theorem Moves.later (h : t.Moves shared shared' t') : shared.Later shared' := by
  cases h with
  | work work p => exact .refl _
  | arrive work p round gate hposition => exact .setBarrier _ (.arrive _)
  | look work p round gate generation hposition => exact .refl _
  | goes work p q round next _ hbarriers => exact .of_barriers hbarriers
  | lost work p q round target box batch => exact .abort _
  | conclude work p round slot least _ meeting => exact .refl _
  | abort gate e p => exact .abortAt _ gate

end Thread

/-! ## Machines -/

namespace Machine

variable {machine next : Machine M} {i : Nat}

theorem moves_of_step? (h : machine.step? i = some next) :
    ∃ t shared t', machine.threads[i]? = some t ∧ t.Moves machine.shared shared t' ∧
      next = machine.update i shared t' := by
  obtain ⟨t, shared, t', ht, hstep, hnext⟩ := step?_eq_some_iff.mp h
  exact ⟨t, shared, t', ht, Thread.moves_of_step? hstep, hnext⟩

theorem later_step (h : machine.step? i = some next) : machine.shared.Later next.shared := by
  obtain ⟨t, shared, t', _, hmoves, rfl⟩ := moves_of_step? h
  exact hmoves.later.trans (.of_barriers fun gate => barrier_update machine i shared t' gate)

theorem later_run {schedule : List PartitionId} {trace : List (PartitionId × Dispatch M)}
    (h : (system M).Run machine schedule trace next) : machine.shared.Later next.shared :=
  h.invariant (P := fun later => machine.shared.Later later.shared) (.refl _)
    fun _ _ _ hlater hstep => hlater.trans (later_step hstep)

end Machine

end Lookahead
