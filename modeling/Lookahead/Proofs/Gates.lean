import Lookahead.Proofs.Halting
import Lookahead.Proofs.Moves

/-!
Threads and gates.

A thread passes each gate once in a round. So the rounds that a thread has concluded and its
position say how often it has passed a gate, and no gate is ever more than one round ahead of that
(`Machine.Timely`). A gate is ahead only of those who wait at it, and they can go on.
-/

namespace Lookahead

variable {M : Model}

/-! ## Passing gates -/

def Gate.place : Gate → Nat
  | .arrive => 0
  | .exchanged => 1
  | .published => 2

theorem Gate.place_inj {gate other : Gate} : gate.place = other.place ↔ gate = other := by
  cases gate <;> cases other <;> simp [place]

/-- How many gates of its round a partition has passed that stands here. -/
def Round.Position.gates {π : Type} : Round.Position π → Nat
  | .entering gate => gate.place
  | .waiting gate _ => gate.place
  | .handingOver _ => 1
  | .collecting _ => 2
  | .publishing => 2
  | .reading _ _ => 3

/-- The gate that a partition waits at, and how many rounds were complete there when it came. -/
def Round.Position.awaits? {π : Type} : Round.Position π → Option (Gate × Nat)
  | .waiting gate generation => some (gate, generation)
  | _ => none

theorem Round.gates_behind {π : Type} (gate : Gate) :
    (Round.behind gate : Position π).gates = gate.place + 1 := by
  cases gate <;> rfl

/-- Between two gates no gate is passed and nobody waits. -/
theorem Round.Goes.gates_eq {shared : Shared M.Payload} {p : Partition M}
    {position next : Round.Position M.Payload} (h : Round.Goes shared p position next) :
    next.gates = position.gates ∧ position.awaits? = none ∧ next.awaits? = none := by
  cases h <;> exact ⟨rfl, rfl, rfl⟩

namespace Thread

def gates : Thread M → Nat
  | .syncing _ _ round => round.position.gates
  | _ => 0

def passed (t : Thread M) (gate : Gate) : Nat :=
  t.pace.rounds + if gate.place < t.gates then 1 else 0

/-- The gate that a thread waits at, and how many rounds were complete there when it came. -/
def awaits? : Thread M → Option (Gate × Nat)
  | .syncing _ _ round => round.position.awaits?
  | _ => none

variable {t t' : Thread M} {work : Work} {p : Partition M} {round : Round M.Payload} {gate : Gate}

theorem awaits?_waiting {generation : Nat} (h : round.position = .waiting gate generation) :
    awaits? (.syncing work p round) = some (gate, generation) := by
  simp [awaits?, Round.Position.awaits?, h]

theorem awaits?_entering (h : round.position = .entering gate) :
    awaits? (.syncing work p round) = none := by
  simp [awaits?, Round.Position.awaits?, h]

theorem Afresh.gates_eq (h : t.Afresh) : t.gates = 0 := by
  cases h <;> rfl

theorem Afresh.awaits?_eq (h : t.Afresh) : t.awaits? = none := by
  cases h <;> rfl

theorem passed_of_gates (h : t.gates = 0) : t.passed gate = t.pace.rounds := by
  simp [passed, h]

theorem passed_syncing : passed (.syncing work p round) gate =
    p.pace.rounds + if gate.place < round.position.gates then 1 else 0 := rfl

theorem passed_entering (h : round.position = .entering gate) :
    passed (.syncing work p round) gate = p.pace.rounds := by
  simp [passed_syncing, h, Round.Position.gates]

theorem passed_waiting {generation : Nat} (h : round.position = .waiting gate generation) :
    passed (.syncing work p round) gate = p.pace.rounds := by
  simp [passed_syncing, h, Round.Position.gates]

/-- Whoever passes a gate has passed this one once more and the others as often as before. -/
theorem passed_behind (other : Gate) (h : round.position.gates = gate.place) :
    passed (.syncing work p (round.moveTo (Round.behind gate))) other =
      passed (.syncing work p round) other + if other = gate then 1 else 0 := by
  rw [passed_syncing, passed_syncing, h]
  simp only [Round.moveTo, Round.gates_behind]
  by_cases hother : other = gate
  · subst hother
    simp
  · have hne : other.place ≠ gate.place := fun heq => hother (Gate.place_inj.mp heq)
    have hiff : other.place < gate.place + 1 ↔ other.place < gate.place := by omega
    simp [hother, hiff]

end Thread

/-! ## What a tracked machine says of a thread at a gate -/

namespace Tracks

variable {machine : Machine M} {cohort : Cohort M} {i j : Nat} {work : Work} {p : Partition M}
  {round : Round M.Payload} {gate : Gate}

theorem length_threads (h : Tracks machine cohort) : machine.threads.length = cohort.length := by
  cases h with
  | gathering rounds h => exact h.size
  | handing rounds parties hne hready h => rw [hready, List.length_map, h.size]
  | taking rounds parties hne hready h => rw [hready, List.length_map, h.size]

theorem last_of_arrive {b : Barrier} {n generation count : Nat}
    (h : b.Filling n generation count) (hpassed : b.arrive.2 = .passed) : count + 1 = n := by
  cases haborted : b.aborted with
  | true =>
    rw [Barrier.arrive_of_aborted haborted] at hpassed
    cases hpassed
  | false =>
    rcases h.arrive haborted with ⟨hlast, _, _⟩ | ⟨_, harrive, _⟩
    · exact hlast
    · rw [harrive] at hpassed
      cases hpassed

/-- When the last one comes to a gate, all others wait there in the open round. -/
theorem others_wait (h : Tracks machine cohort)
    (ht : machine.threads[i]? = some (.syncing work p round))
    (hposition : round.position = .entering gate)
    (hpassed : (machine.shared.barrier gate).arrive.2 = .passed) (hij : i ≠ j) {t : Thread M}
    (htj : machine.threads[j]? = some t) :
    t.awaits? = some (gate, (machine.shared.barrier gate).generation) := by
  cases h with
  | gathering rounds h =>
    obtain ⟨s, hs, hgathers⟩ := h.stands i _ ht
    cases hgathers with
    | entering q =>
      cases hposition
      obtain ⟨r, _, rfl⟩ := h.others_wait ht (last_of_arrive h.arrive hpassed) hij htj
      show some (Gate.arrive, rounds) = some (Gate.arrive, machine.shared.arrive.generation)
      rw [h.arrive.generation]
    | _ => cases hposition
  | handing rounds parties hne hready h =>
    obtain ⟨q, _, hhands⟩ := h.stands i _ ht
    cases hhands with
    | entering q =>
      cases hposition
      obtain ⟨r, _, rfl⟩ := h.others_wait ht (last_of_arrive h.exchanged hpassed) hij htj
      show some (Gate.exchanged, rounds) =
        some (Gate.exchanged, machine.shared.exchanged.generation)
      rw [h.exchanged.generation]
    | _ => cases hposition
  | taking rounds parties hne hready h =>
    obtain ⟨q, _, _, _, _, _, htakes⟩ := h.stands i _ ht
    cases htakes with
    | entering q =>
      cases hposition
      obtain ⟨r, _, _, _, rfl⟩ := h.others_wait ht (last_of_arrive h.published hpassed) hij htj
      show some (Gate.published, rounds) =
        some (Gate.published, machine.shared.published.generation)
      rw [h.published.generation]
    | _ => cases hposition

/-- Behind the first gate of a round nobody is turned away who comes to a gate. -/
theorem not_turnedAway_entering (h : Tracks machine cohort)
    (ht : machine.threads[i]? = some (.syncing work p round))
    (hposition : round.position = .entering gate)
    (haway : (machine.shared.barrier gate).arrive.2 = .turnedAway) : gate = .arrive := by
  have haborted : (machine.shared.barrier gate).aborted = true := by
    unfold Barrier.arrive at haway
    split at haway
    · assumption
    · split at haway <;> cases haway
  cases h with
  | gathering rounds h =>
    obtain ⟨s, _, hgathers⟩ := h.stands i _ ht
    cases hgathers with
    | entering q =>
      cases hposition
      rfl
    | _ => cases hposition
  | handing rounds parties hne hready h =>
    obtain ⟨harrive, hexchanged, hpublished⟩ := h.sound
    cases gate <;> simp_all [Shared.barrier]
  | taking rounds parties hne hready h =>
    obtain ⟨harrive, hexchanged, hpublished⟩ := h.sound
    cases gate <;> simp_all [Shared.barrier]

theorem not_turnedAway_waiting (h : Tracks machine cohort) {generation : Nat}
    (ht : machine.threads[i]? = some (.syncing work p round))
    (hposition : round.position = .waiting gate generation)
    (haway : (machine.shared.barrier gate).look generation = .turnedAway) : gate = .arrive := by
  obtain ⟨hgeneration, haborted⟩ := Barrier.look_eq_turnedAway_iff.mp haway
  cases h with
  | gathering rounds h =>
    obtain ⟨s, _, hgathers⟩ := h.stands i _ ht
    cases hgathers with
    | waiting q =>
      cases hposition
      rfl
    | released q incoming generation' hne =>
      cases hposition
      exact absurd (hgeneration.symm.trans h.published.generation) hne
    | _ => cases hposition
  | handing rounds parties hne hready h =>
    obtain ⟨harrive, hexchanged, hpublished⟩ := h.sound
    cases gate <;> simp_all [Shared.barrier]
  | taking rounds parties hne hready h =>
    obtain ⟨harrive, hexchanged, hpublished⟩ := h.sound
    cases gate <;> simp_all [Shared.barrier]

/-- Nobody hands anything over to an inbox that is gone. -/
theorem post?_ne_none (h : Tracks machine cohort) {target : PartitionId}
    (ht : machine.threads[i]? = some (.syncing work p round))
    (hposition : round.position = .handingOver target) {box : Outbox M.Payload}
    (hbox : p.member.outbound[target]? = some box) (batch : Batch M.Payload) :
    machine.shared.post? target batch ≠ none := by
  cases h with
  | gathering rounds h =>
    obtain ⟨s, _, hgathers⟩ := h.stands i _ ht
    cases hgathers <;> cases hposition
  | handing rounds parties hne hready h =>
    obtain ⟨q, hq, hhands⟩ := h.stands i _ ht
    cases hhands with
    | handing q d =>
      cases hposition
      have hlength : (q.handing target).member.outbound.length = parties.length := by
        rw [← (h.placed i q hq).outboxes]
        exact List.length_mapIdx
      have hlt : target < parties.length := by
        rw [← hlength]
        exact (List.getElem?_eq_some_iff.mp hbox).1
      obtain ⟨batches, hbatches, _⟩ := h.inboxes target hlt
      simp [Shared.post?, hbatches]
    | _ => cases hposition
  | taking rounds parties hne hready h =>
    obtain ⟨q, _, _, _, _, _, htakes⟩ := h.stands i _ ht
    cases htakes <;> cases hposition

end Tracks

/-! ## Timeliness -/

/-- A gate is never ahead of a thread but where the thread waits at it, and then by one round. -/
structure Thread.Timely (shared : Shared M.Payload) (t : Thread M) : Prop where
  waits : ∀ gate generation, t.awaits? = some (gate, generation) → generation = t.passed gate
  reach : ∀ gate, (shared.barrier gate).generation = t.passed gate ∨
    (shared.barrier gate).generation = t.passed gate + 1 ∧
      t.awaits? = some (gate, t.passed gate)

namespace Thread.Timely

variable {shared shared' : Shared M.Payload} {t t' : Thread M} {gate : Gate}

theorem of_barriers (h : t.Timely shared)
    (hsame : ∀ gate, (shared'.barrier gate).generation = (shared.barrier gate).generation) :
    t.Timely shared' := by
  refine ⟨h.waits, fun gate => ?_⟩
  rw [hsame]
  exact h.reach gate

theorem generation_eq (h : t.Timely shared) (hfree : t.awaits? = none) (gate : Gate) :
    (shared.barrier gate).generation = t.passed gate := by
  rcases h.reach gate with heq | ⟨_, hawaits⟩
  · exact heq
  · rw [hfree] at hawaits
    cases hawaits

/-- A thread that waits nowhere is on time where all gates are as often open as it has passed them.
-/
theorem of_generation (hfree : t.awaits? = none)
    (h : ∀ gate, (shared.barrier gate).generation = t.passed gate) : t.Timely shared :=
  ⟨fun _ _ hawaits => (by rw [hfree] at hawaits; cases hawaits), fun gate => Or.inl (h gate)⟩

/-- The gate at which everyone else waits opens. -/
theorem opened (h : t.Timely shared)
    (hawaits : t.awaits? = some (gate, (shared.barrier gate).generation)) {barrier : Barrier}
    (hbarrier : barrier.generation = (shared.barrier gate).generation + 1) :
    t.Timely (shared.setBarrier gate barrier) := by
  have hpassed := h.waits gate _ hawaits
  refine ⟨h.waits, fun other => ?_⟩
  by_cases hother : other = gate
  · subst hother
    rw [Shared.barrier_setBarrier_self, hbarrier, ← hpassed]
    exact Or.inr ⟨rfl, hawaits⟩
  · rw [Shared.barrier_setBarrier_ne _ hother]
    exact h.reach other

end Thread.Timely

theorem Barrier.arrive_generation (b : Barrier) :
    b.arrive.1.generation = b.generation + if b.arrive.2 = .passed then 1 else 0 := by
  unfold arrive
  split
  · simp
  · split <;> simp

theorem Shared.generation_arrive (shared : Shared M.Payload) (gate other : Gate) :
    ((shared.setBarrier gate (shared.barrier gate).arrive.1).barrier other).generation =
      (shared.barrier other).generation +
        if (shared.barrier gate).arrive.2 = .passed ∧ other = gate then 1 else 0 := by
  by_cases hother : other = gate
  · subst hother
    rw [barrier_setBarrier_self, Barrier.arrive_generation]
    simp
  · rw [barrier_setBarrier_ne _ hother]
    simp [hother]

theorem Shared.generation_abortAt (shared : Shared M.Payload) (gate other : Gate) :
    ((shared.abortAt gate).barrier other).generation = (shared.barrier other).generation := by
  unfold abortAt
  by_cases hother : other = gate
  · subst hother
    rw [barrier_setBarrier_self]
    rfl
  · rw [barrier_setBarrier_ne _ hother]

theorem Barrier.arrive_waiting {b : Barrier} {generation : Nat}
    (h : b.arrive.2 = .waiting generation) : generation = b.generation := by
  unfold arrive at h
  split at h
  · cases h
  · split at h <;> cases h
    rfl

namespace Tracks

variable {machine next : Machine M} {cohort : Cohort M} {i j : Nat} {t : Thread M} {work : Work}
  {p : Partition M} {round : Round M.Payload} {gate : Gate}

theorem timely_arrive (h : Tracks machine cohort)
    (ht : machine.threads[i]? = some (.syncing work p round))
    (hposition : round.position = .entering gate)
    (htimely : (Thread.syncing work p round).Timely machine.shared) :
    (Thread.stand work p round gate (machine.shared.barrier gate).arrive.2).Timely
      (machine.shared.setBarrier gate (machine.shared.barrier gate).arrive.1) := by
  have hreach := htimely.generation_eq (Thread.awaits?_entering hposition)
  have hgates : round.position.gates = gate.place := by rw [hposition]; rfl
  have hset := machine.shared.generation_arrive gate
  cases hstanding : (machine.shared.barrier gate).arrive.2 with
  | passed =>
    rw [hstanding] at hset
    refine .of_generation (by cases gate <;> rfl) fun other => ?_
    show _ = Thread.passed (.syncing work p (round.moveTo (Round.behind gate))) other
    rw [hset, Thread.passed_behind other hgates, hreach]
    simp
  | turnedAway =>
    rw [hstanding] at hset
    have hfirst := h.not_turnedAway_entering ht hposition hstanding
    subst hfirst
    refine .of_generation rfl fun other => ?_
    rw [hset, hreach]
    simp only [reduceCtorEq, false_and, ↓reduceIte, Nat.add_zero]
    rw [Thread.passed_syncing, hgates]
    rfl
  | waiting generation =>
    rw [hstanding] at hset
    obtain rfl := Barrier.arrive_waiting hstanding
    have hsame : ∀ other, Thread.passed (.syncing work p
        (round.moveTo (.waiting gate (machine.shared.barrier gate).generation))) other =
          Thread.passed (.syncing work p round) other := by
      intro other
      rw [Thread.passed_syncing, Thread.passed_syncing, hgates]
      rfl
    refine ⟨?_, fun other => ?_⟩
    · intro other g hawaits
      cases hawaits
      exact (hreach gate).trans (hsame gate).symm
    · rw [hset, hreach]
      simp only [reduceCtorEq, false_and, ↓reduceIte, Nat.add_zero]
      exact Or.inl (hsame other).symm

theorem timely_look (h : Tracks machine cohort) {generation : Nat}
    (ht : machine.threads[i]? = some (.syncing work p round))
    (hposition : round.position = .waiting gate generation)
    (hlook : ∀ g, (machine.shared.barrier gate).look generation ≠ .waiting g)
    (htimely : (Thread.syncing work p round).Timely machine.shared) :
    (Thread.stand work p round gate ((machine.shared.barrier gate).look generation)).Timely
      machine.shared := by
  have hawaits : (Thread.syncing work p round).awaits? = some (gate, generation) :=
    Thread.awaits?_waiting hposition
  have hpassed := htimely.waits gate generation hawaits
  have hgates : round.position.gates = gate.place := by rw [hposition]; rfl
  have hothers : ∀ other, other ≠ gate →
      (machine.shared.barrier other).generation =
        Thread.passed (.syncing work p round) other := by
    intro other hother
    rcases htimely.reach other with heq | ⟨_, hwaits⟩
    · exact heq
    · rw [hawaits] at hwaits
      cases hwaits
      exact absurd rfl hother
  cases hstanding : (machine.shared.barrier gate).look generation with
  | waiting g => exact absurd hstanding (hlook g)
  | passed =>
    have hne := Barrier.look_eq_passed_iff.mp hstanding
    refine .of_generation (by cases gate <;> rfl) fun other => ?_
    show _ = Thread.passed (.syncing work p (round.moveTo (Round.behind gate))) other
    rw [Thread.passed_behind other hgates]
    by_cases hother : other = gate
    · subst hother
      rcases htimely.reach other with heq | ⟨heq, _⟩
      · exact absurd (heq.trans hpassed.symm) hne
      · simpa using heq
    · simpa [hother] using hothers other hother
  | turnedAway =>
    have hfirst := h.not_turnedAway_waiting ht hposition hstanding
    subst hfirst
    refine .of_generation rfl fun other => ?_
    have hrounds : ∀ other, Thread.passed (.syncing work p round) other = p.pace.rounds := by
      intro other
      rw [Thread.passed_syncing, hgates]
      simp [Gate.place]
    show _ = Thread.passed (Thread.fail (.aborted p.id) p) other
    rw [Thread.passed_of_gates rfl]
    show _ = p.pace.rounds
    rw [← hrounds other]
    by_cases hother : other = .arrive
    · subst hother
      rw [← hpassed]
      exact (Barrier.look_eq_turnedAway_iff.mp hstanding).1
    · exact hothers other hother

end Tracks

def Machine.Timely (machine : Machine M) : Prop := ∀ (i : Nat) (t : Thread M),
  machine.threads[i]? = some t → t.Timely machine.shared

namespace Tracks

variable {machine next : Machine M} {cohort : Cohort M} {i j : Nat} {t t' : Thread M}
  {shared' : Shared M.Payload}

/-- A thread that makes a step stays on time. -/
theorem timely_mover (h : Tracks machine cohort) (ht : machine.threads[i]? = some t)
    (htimely : t.Timely machine.shared) (hmoves : t.Moves machine.shared shared' t') :
    t'.Timely shared' := by
  cases hmoves with
  | work work p =>
    have hafresh := Thread.afresh_workOn work p
    refine .of_generation hafresh.awaits?_eq fun gate => ?_
    rw [htimely.generation_eq rfl, Thread.passed_of_gates hafresh.gates_eq,
      Thread.passed_of_gates rfl, Thread.pace_workOn]
    rfl
  | arrive work p round gate hposition => exact h.timely_arrive ht hposition htimely
  | look work p round gate generation hposition hlook =>
    exact h.timely_look ht hposition hlook htimely
  | goes work p q round next _ hbarriers hpace hkind hgoes =>
    obtain ⟨hgates, hfree, hfree'⟩ := hgoes.gates_eq
    refine .of_generation hfree' fun gate => ?_
    rw [hbarriers, htimely.generation_eq hfree, Thread.passed_syncing, Thread.passed_syncing,
      hgates, hpace]
  | lost work p q round target box batch hpace hposition hbox hpost =>
    exact absurd hpost (h.post?_ne_none ht hposition hbox batch)
  | conclude work p round slot least _ meeting hposition hafresh hpace =>
    refine .of_generation hafresh.awaits?_eq fun gate => ?_
    have hfree : (Thread.syncing work p round).awaits? = none := by
      simp [Thread.awaits?, Round.Position.awaits?, hposition]
    have hlt : gate.place < 3 := by cases gate <;> decide
    rw [htimely.generation_eq hfree, Thread.passed_of_gates hafresh.gates_eq, hpace,
      Pace.rounds_next, Thread.passed_syncing, hposition]
    simp [Round.Position.gates, hlt]
  | abort gate e p t htarget =>
    refine .of_generation (by rw [htarget]; cases gate <;> rfl) fun other => ?_
    rw [Shared.generation_abortAt, htimely.generation_eq rfl, htarget]
    cases gate <;> rfl

theorem timely_other (h : Tracks machine cohort) (ht : machine.threads[i]? = some t)
    (hmoves : t.Moves machine.shared shared' t') (hij : i ≠ j) {u : Thread M}
    (hu : machine.threads[j]? = some u) (htimely : u.Timely machine.shared) :
    u.Timely shared' := by
  cases hmoves with
  | arrive work p round gate hposition =>
    by_cases hpassed : (machine.shared.barrier gate).arrive.2 = .passed
    · have hgeneration := Barrier.arrive_generation (machine.shared.barrier gate)
      rw [if_pos hpassed] at hgeneration
      exact htimely.opened (h.others_wait ht hposition hpassed hij hu) hgeneration
    · refine htimely.of_barriers fun other => ?_
      rw [Shared.generation_arrive]
      simp [hpassed]
  | goes work p q round next _ hbarriers =>
    exact htimely.of_barriers fun gate => by rw [hbarriers]
  | lost work p q round target box batch hpace hposition hbox hpost =>
    exact absurd hpost (h.post?_ne_none ht hposition hbox batch)
  | abort gate e p t htarget =>
    exact htimely.of_barriers fun other => Shared.generation_abortAt _ gate other
  | work work p => exact htimely
  | look work p round gate generation hposition => exact htimely
  | conclude work p round slot least _ meeting hposition => exact htimely

theorem timely_step (h : Tracks machine cohort) (htimely : machine.Timely)
    (hstep : machine.step? i = some next) : next.Timely := by
  obtain ⟨t, shared, t', ht, hmoves, rfl⟩ := Machine.moves_of_step? hstep
  have hbarriers : ∀ {u : Thread M}, u.Timely shared →
      u.Timely (machine.update i shared t').shared := by
    intro u hu
    exact hu.of_barriers fun gate => by rw [Machine.barrier_update]
  show ∀ (j : Nat) (u : Thread M), (machine.threads.set i t')[j]? = some u → _
  refine forall_set ?_ (hbarriers (h.timely_mover ht (htimely i t ht) hmoves))
  intro j u hji hu
  exact hbarriers (h.timely_other ht hmoves hji.symm hu (htimely j u hu))

end Tracks

/-! ## Runs -/

namespace Simulation

variable {b : Builder M} {log : List (Planned M.Payload)} {simulation : Simulation M}
  {trace : List (PartitionId × Dispatch M)} {machine : Machine M}

/-- What holds at the start of a machine, its cohort and what is to be seen, and is kept by every
step of the machine and the steps of the cohort that go with it, holds along every run. -/
theorem follow {ω : Type} {sys : System (Machine M) PartitionId ω}
    (hsys : sys.step? = Machine.step?) {P : List ω → Machine M → Cohort M → Prop} (hb : b.Made log)
    (hbuild : b.build = .ok simulation) (hstart : P [] simulation.machine simulation.cohort)
    (hkeep : ∀ (view : List ω) (x y : Machine M) (cohort next : Cohort M)
      (labels more : List (Option PartitionId)) (trace seen : List (PartitionId × Dispatch M))
      (i : PartitionId),
      (Cohort.system M).Run simulation.cohort labels trace cohort → Tracks x cohort →
        P view x cohort → x.step? i = some y → (Cohort.system M).Run cohort more seen next →
          Tracks y next → P (view ++ sys.note x i) y next)
    {schedule : List PartitionId} {view : List ω}
    (hrun : sys.Run simulation.machine schedule view machine) :
    ∃ labels trace cohort, (Cohort.system M).Run simulation.cohort labels trace cohort ∧
      Tracks machine cohort ∧ cohort.Placed ∧ P view machine cohort := by
  induction hrun with
  | refl =>
    exact ⟨[], [], simulation.cohort, .refl, tracks_start (hb.build hbuild).1,
      placed_start hb hbuild, hstart⟩
  | @step _ _ x y i _ hstep ih =>
    obtain ⟨labels, trace, cohort, hrun, htracks, hplaced, hp⟩ := ih
    rw [hsys] at hstep
    obtain ⟨more, next, hmore, hnext⟩ := htracks.step hplaced hstep
    exact ⟨labels ++ more, _, next, hrun.trans hmore, hnext,
      hmore.invariant hplaced fun _ _ _ hx hxy => hx.step hxy,
      hkeep _ _ _ _ _ _ _ _ _ _ hrun htracks hp hstep hmore hnext⟩

/-- No partition has come anywhere at the start. -/
theorem pace_start (hb : b.Made log) (hbuild : b.build = .ok simulation) {i : Nat} {t : Thread M}
    (ht : simulation.machine.threads[i]? = some t) :
    t.Afresh ∧ t.pace = ⟨0, 0, Time.ofNat simulation.window⟩ := by
  obtain ⟨p, hp, rfl⟩ := exists_thread_start ht
  obtain ⟨_, hfresh⟩ := (hb.build hbuild).2.2 i p hp
  obtain ⟨profile, hmember⟩ := hfresh.member
  refine ⟨.running .., ?_⟩
  show p.member.pace = _
  rw [hmember]
  rfl

theorem timely_start (hb : b.Made log) (hbuild : b.build = .ok simulation) :
    simulation.machine.Timely := by
  intro i t ht
  obtain ⟨hafresh, hpace⟩ := pace_start hb hbuild ht
  refine .of_generation hafresh.awaits?_eq fun gate => ?_
  rw [Thread.passed_of_gates hafresh.gates_eq, hpace]
  cases gate <;> rfl

/-- Wherever a run gets to, all threads are on time. -/
theorem Reaches.timely (hb : b.Made log) (hbuild : b.build = .ok simulation)
    (h : simulation.Reaches trace machine) : machine.Timely := by
  obtain ⟨schedule, hrun⟩ := h
  obtain ⟨_, _, _, _, _, _, htimely⟩ := follow (P := fun _ x _ => x.Timely) rfl hb hbuild
    (timely_start hb hbuild)
    (fun _ _ _ _ _ _ _ _ _ _ _ htracks hx hstep _ _ => htracks.timely_step hx hstep) hrun
  exact htimely

end Simulation

end Lookahead
