import Lookahead.Proofs.Pace

/-!
How many steps a partition makes.

Every step of a thread is a dispatch, or brings it nearer to the end of its round, or concludes the
round (`Tracks.rank_step`). So the steps of a partition are bounded by the rounds that it has
concluded and the dispatches that it has made (`Simulation.steps_le`).
-/

namespace Lookahead

variable {M : Model}

/-! ## Ranks -/

/-- How far a partition is from the end of its round that stands here in a round of `n`. -/
def Round.Position.rank {π : Type} (n : Nat) : Position π → Nat
  | .entering .arrive => 3 * n + 13
  | .waiting .arrive _ => 3 * n + 12
  | .handingOver target => 2 * n + 11 + (n - target)
  | .entering .exchanged => 2 * n + 10
  | .waiting .exchanged _ => 2 * n + 9
  | .collecting got => n + 8 + (n - got.length)
  | .publishing => n + 7
  | .entering .published => n + 6
  | .waiting .published _ => n + 5
  | .reading slot _ => 4 + (n - slot)

/-- How far a thread is from the end of its round, dispatches apart. Whoever is turned away from a
round leaves instead. -/
def Thread.rank (n : Nat) : Thread M → Nat
  | .running .timed _ => 3 * n + 15
  | .running _ _ => 3 * n + 14
  | .syncing _ _ round => round.position.rank n
  | .aborting .arrive _ _ => 3
  | .aborting .exchanged _ _ => 2
  | .aborting .published _ _ => 1
  | .ended _ _ => 0

theorem Round.Position.rank_bounds {π : Type} (n : Nat) (position : Position π) :
    3 < position.rank n ∧ position.rank n ≤ 3 * n + 13 := by
  cases position with
  | entering gate => cases gate <;> simp only [rank] <;> omega
  | waiting gate generation => cases gate <;> simp only [rank] <;> omega
  | _ => simp only [rank]; omega

namespace Thread

theorem rank_le (n : Nat) (t : Thread M) : t.rank n ≤ 3 * n + 15 := by
  cases t with
  | running work p => cases work <;> simp only [rank] <;> omega
  | syncing work p round =>
    have := (round.position.rank_bounds n).2
    simp only [rank]
    omega
  | aborting gate e p => cases gate <;> simp only [rank] <;> omega
  | ended result p => exact Nat.zero_le _

theorem rank_finishTimed (n : Nat) (stop : StopReason) (p : Partition M) :
    (finishTimed stop p).rank n ≤ 3 * n + 14 := by
  unfold finishTimed
  split
  · exact Nat.le_refl _
  · exact Nat.zero_le _

theorem rank_workOn (n : Nat) (work : Work) (p : Partition M) :
    (workOn work p).rank n + 1 ≤ rank n (.running work p) + (work.dispatch? p).toList.length := by
  have hphase : ∀ (stage : Stage) (phase : Nat),
      (runPhase work stage phase p).rank n + 1 ≤ 3 * n + 14 := by
    intro stage phase
    have hphases := phases_runPhase work stage phase p
    generalize runPhase work stage phase p = t at hphases
    cases hphases with
    | ready own q hphased => exact Nat.le_refl _
    | failed e q hphased =>
      show 3 + 1 ≤ _
      omega
  cases work with
  | init phase => exact hphase .init phase
  | complete phase stop => exact hphase .complete phase
  | timed =>
    have hworks := works_workOn p
    generalize workOn .timed p = t at hworks
    show t.rank n + 1 ≤ 3 * n + 15 + p.next?.toList.length
    cases hworks with
    | idle hnext =>
      have := rank_finishTimed n .exhausted p
      omega
    | work d e hnext =>
      rw [hnext]
      exact Nat.le_refl _
    | failed d e err hnext =>
      rw [hnext]
      show 3 + 1 ≤ 3 * n + 15 + 1
      omega
    | sync d hnext =>
      rw [hnext]
      show 3 * n + 13 + 1 ≤ 3 * n + 15 + 1
      omega
    | stop d hnext =>
      rw [hnext]
      have := rank_finishTimed n .stopAt d.partition
      show _ ≤ 3 * n + 15 + 1
      omega

/-- Whoever does not wait at a gate any more passes or is turned away. -/
theorem rank_stand (n : Nat) (work : Work) (p : Partition M) (round : Round M.Payload) (gate : Gate)
    (generation : Nat) {standing : Standing} (h : ∀ g, standing ≠ .waiting g) :
    (stand work p round gate standing).rank n + 1 ≤
      (.waiting gate generation : Round.Position M.Payload).rank n := by
  cases standing with
  | passed =>
    cases gate <;>
      simp only [stand, rank, Round.moveTo, Round.behind, Round.Position.rank, List.length_nil] <;>
      omega
  | turnedAway => cases gate <;> simp [stand, rank, fail, Round.Position.rank]
  | waiting generation => exact absurd rfl (h generation)

theorem rank_waiting (n : Nat) (gate : Gate) (generation : Nat) :
    (.waiting gate generation : Round.Position M.Payload).rank n + 1 =
      (.entering gate : Round.Position M.Payload).rank n := by
  cases gate <;> rfl

end Thread

/-- Between two gates a partition comes nearer to the end of its round, as long as it turns to no
more partitions than there are. -/
theorem Round.Goes.rank {shared : Shared M.Payload} {p : Partition M}
    {position next : Round.Position M.Payload} {n : Nat} (h : Round.Goes shared p position next)
    (houtboxes : ∀ target, position = .handingOver target → p.member.outbound.length = n)
    (hcollected : ∀ got, next = .collecting got → got.length ≤ n)
    (hslots : shared.minimums.length = n) : next.rank n + 1 ≤ position.rank n := by
  cases h with
  | turn target hlt =>
    rw [houtboxes target rfl] at hlt
    exact Nat.add_lt_add_left (Nat.sub_succ_lt_self _ _ hlt) _
  | handedOver target =>
    simp only [Position.rank]
    omega
  | collect got batch =>
    have hle := hcollected _ rfl
    simp only [Position.rank, List.length_append, List.length_singleton] at hle ⊢
    omega
  | collected got =>
    simp only [Position.rank]
    omega
  | publish =>
    simp only [Position.rank]
    omega
  | read slot least next hlt =>
    simp only [Position.rank]
    omega

/-! ## Steps -/

namespace Tracks

variable {machine next : Machine M} {cohort cohort' : Cohort M} {i : Nat} {t : Thread M}
  {work : Work} {p : Partition M} {round : Round M.Payload}

theorem slots (h : Tracks machine cohort) :
    machine.shared.minimums.length = machine.threads.length := by
  cases h with
  | gathering rounds h => rw [h.slots, h.size]
  | handing rounds parties hne hready h => rw [h.slots, h.size]
  | taking rounds parties hne hready h => rw [h.slots, h.size]

theorem outboxes_handingOver (h : Tracks machine cohort)
    (ht : machine.threads[i]? = some (.syncing work p round)) {target : PartitionId}
    (hposition : round.position = .handingOver target) :
    p.member.outbound.length = machine.threads.length := by
  cases h with
  | gathering rounds h =>
    obtain ⟨s, _, hgathers⟩ := h.stands i _ ht
    cases hgathers <;> cases hposition
  | handing rounds parties hne hready h =>
    obtain ⟨q, hq, hhands⟩ := h.stands i _ ht
    cases hhands with
    | handing q d =>
      rw [h.size, ← (h.placed i q hq).outboxes]
      exact List.length_mapIdx
    | _ => cases hposition
  | taking rounds parties hne hready h =>
    obtain ⟨q, _, _, _, _, _, htakes⟩ := h.stands i _ ht
    cases htakes <;> cases hposition

/-- Nobody gets more than one batch from anyone. -/
theorem collected_le (h : Tracks machine cohort)
    (ht : machine.threads[i]? = some (.syncing work p round)) {got : List (Batch M.Payload)}
    (hposition : round.position = .collecting got) : got.length ≤ machine.threads.length := by
  cases h with
  | gathering rounds h =>
    obtain ⟨s, _, hgathers⟩ := h.stands i _ ht
    cases hgathers <;> cases hposition
  | handing rounds parties hne hready h =>
    obtain ⟨q, _, hhands⟩ := h.stands i _ ht
    cases hhands <;> cases hposition
  | taking rounds parties hne hready h =>
    obtain ⟨q, batches, _, _, _, _, htakes⟩ := h.stands i _ ht
    cases htakes with
    | collecting q batches slot got hbrought =>
      cases hposition
      have hlength := (hbrought.perm h.placed).length_eq
      have hle := List.length_filterMap_le (fun q => Party.batch? q i) parties
      rw [List.length_append] at hlength
      rw [h.size]
      omega
    | _ => cases hposition

/-- A step is a dispatch, or brings the thread nearer to the end of its round, or concludes the
round. -/
theorem rank_step (h : Tracks machine cohort) (ht : machine.threads[i]? = some t)
    (hstep : machine.step? i = some next) (hnext : Tracks next cohort') :
    ∃ t', next.threads[i]? = some t' ∧
      (t'.pace = t.pace ∧ t'.rank machine.threads.length + 1 ≤
          t.rank machine.threads.length + t.dispatch?.toList.length ∨
        t'.pace.rounds = t.pace.rounds + 1) := by
  obtain ⟨u, shared, t', hu, hmoves, rfl⟩ := Machine.moves_of_step? hstep
  rw [ht] at hu
  cases hu
  have ht' : (machine.update i shared t').threads[i]? = some t' := getElem?_set_of_some ht
  refine ⟨t', ht', ?_⟩
  cases hmoves with
  | work work p => exact Or.inl ⟨Thread.pace_workOn work p, Thread.rank_workOn _ work p⟩
  | arrive work p round gate hposition =>
    refine Or.inl ⟨?_, ?_⟩
    · cases (machine.shared.barrier gate).arrive.2 <;> rfl
    · show _ ≤ round.position.rank _
      rw [hposition]
      have hentering : (.waiting gate 0 : Round.Position M.Payload).rank machine.threads.length ≤
          (.entering gate : Round.Position M.Payload).rank machine.threads.length :=
        Nat.le_of_lt (Nat.le_of_eq (Thread.rank_waiting _ gate 0))
      cases hstanding : (machine.shared.barrier gate).arrive.2 with
      | waiting generation => exact Nat.le_of_eq (Thread.rank_waiting _ gate generation)
      | passed =>
        exact Nat.le_trans (Thread.rank_stand _ work p round gate 0 (by simp)) hentering
      | turnedAway =>
        exact Nat.le_trans (Thread.rank_stand _ work p round gate 0 (by simp)) hentering
  | look work p round gate generation hposition hlook =>
    refine Or.inl ⟨?_, ?_⟩
    · cases (machine.shared.barrier gate).look generation <;> rfl
    · show _ ≤ round.position.rank _
      rw [hposition]
      exact Thread.rank_stand _ work p round gate generation hlook
  | goes work p q round next _ hbarriers hpace hkind hgoes =>
    refine Or.inl ⟨hpace, hgoes.rank (fun target hposition => h.outboxes_handingOver ht hposition)
      (fun got hposition => ?_) h.slots⟩
    have hle := hnext.collected_le ht' hposition
    rwa [show (machine.update i shared (.syncing work q next)).threads.length =
      machine.threads.length from List.length_set ..] at hle
  | lost work p q round target box batch hpace hposition hbox hpost =>
    refine Or.inl ⟨hpace, ?_⟩
    exact (round.position.rank_bounds _).1
  | conclude work p round slot least _ meeting hposition hafresh hpace =>
    refine Or.inr ?_
    rw [hpace, Pace.rounds_next]
    rfl
  | abort gate e p _ htarget =>
    refine Or.inl ⟨?_, ?_⟩
    · rw [htarget]
      cases gate <;> rfl
    · rw [htarget]
      cases gate <;> exact Nat.le_refl _

end Tracks

/-! ## Runs -/

namespace Simulation

variable {b : Builder M} {log : List (Planned M.Payload)} {simulation : Simulation M}
  {trace : List (PartitionId × Dispatch M)} {machine : Machine M}

/-- The steps of a partition are bounded by the rounds that it has concluded and its dispatches. -/
theorem steps_le (hb : b.Made log) (hbuild : b.build = .ok simulation)
    {schedule : List PartitionId}
    (hrun : (Machine.system M).Run simulation.machine schedule trace machine) {i : Nat}
    {t : Thread M} (ht : machine.threads[i]? = some t) :
    schedule.count i + t.rank simulation.partitions.length ≤
      (t.pace.rounds + 1) * (3 * simulation.partitions.length + 16) +
        (System.seenOf i trace).length := by
  induction hrun generalizing t with
  | refl =>
    have hrank := t.rank_le simulation.partitions.length
    have hround : 1 * (3 * simulation.partitions.length + 16) ≤
        (t.pace.rounds + 1) * (3 * simulation.partitions.length + 16) :=
      Nat.mul_le_mul_right _ (Nat.succ_le_succ (Nat.zero_le _))
    simp only [List.count_nil, System.seenOf_nil, List.length_nil]
    omega
  | @step schedule trace x y j hrun hstep ih =>
    obtain ⟨_, cohort, _, htracks, _⟩ := Reaches.cohort hb hbuild ⟨_, hrun⟩
    obtain ⟨_, cohort', _, htracks', _⟩ := Reaches.cohort hb hbuild ⟨_, hrun.step hstep⟩
    have hlength : x.threads.length = simulation.partitions.length :=
      Reaches.length_threads ⟨_, hrun⟩
    obtain ⟨u, shared, u', hu, _, hy⟩ := Machine.moves_of_step? hstep
    by_cases hij : j = i
    · subst hij
      obtain ⟨t', ht', hrank⟩ := htracks.rank_step hu hstep htracks'
      rw [ht] at ht'
      cases ht'
      have hbound := ih hu
      have hnote : (Machine.system M).note x j = noteAt j u.dispatch? := by
        show noteAt j (x.threads[j]?.bind Thread.dispatch?) = _
        rw [hu]
        rfl
      rw [hlength] at hrank
      rw [hnote, List.count_append, List.count_singleton_self, System.seenOf_append,
        List.length_append, seenOf_noteAt_self]
      rcases hrank with ⟨hpace, hrank⟩ | hpace
      · rw [hpace]
        omega
      · have hle := t.rank_le simulation.partitions.length
        rw [hpace, Nat.add_mul (u.pace.rounds + 1)]
        omega
    · have hsame : x.threads[i]? = some t := by
        rw [hy] at ht
        have ht' : (x.threads.set j u')[i]? = some t := ht
        rwa [List.getElem?_set_ne hij] at ht'
      have hbound := ih hsame
      have hnone : System.seenOf i ((Machine.system M).note x j) = [] :=
        seenOf_noteAt_of_ne hij _
      rw [List.count_append, List.count_singleton, if_neg (by simpa using hij),
        System.seenOf_append, hnone, List.append_nil]
      exact hbound

end Simulation

end Lookahead
