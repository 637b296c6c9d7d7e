import Lookahead.Proofs.Cohort

/-!
What the steps of a thread in a round come to: at a gate, at an outbox, at its inbox and at the
minimums, and what becomes of the machine.

A barrier is filling while its round is open to those who come, and idle if nobody has come since
its last round. It counts those who wait at it, so that the last arrival finds everyone else there.
-/

namespace Lookahead

variable {M : Model} {α : Type}

/-! ## One place of a list -/

/-- What holds at every position still does if it holds of what is put at one of them. -/
theorem forall_set {P : Nat → α → Prop} {items : List α} {i : Nat} {a : α}
    (h : ∀ j x, j ≠ i → items[j]? = some x → P j x) (ha : P i a) :
    ∀ j x, (items.set i a)[j]? = some x → P j x := by
  intro j x hj
  by_cases hij : j = i
  · subst hij
    obtain ⟨hlt, hget⟩ := List.getElem?_eq_some_iff.mp hj
    rw [List.getElem_set_self] at hget
    exact hget ▸ ha
  · rw [List.getElem?_set_ne (Ne.symm hij)] at hj
    exact h j x hij hj

/-- What holds of everyone, and of what each has dispatched, still does if it holds of the one that
makes a step. -/
theorem Cohort.forall_seen_set {P : PartitionId → Stance M → List (Dispatch M) → Prop}
    {cohort : Cohort M} {trace : List (PartitionId × Dispatch M)} {i : PartitionId} {s' : Stance M}
    {d : Option (Dispatch M)}
    (h : ∀ (j : Nat) (s : Stance M), cohort[j]? = some s → P j s (System.seenOf j trace))
    (hi : P i s' (System.seenOf i trace ++ d.toList)) :
    ∀ (j : Nat) (s : Stance M), (cohort.set i s')[j]? = some s →
      P j s (System.seenOf j (trace ++ noteAt i d)) := by
  refine forall_set (fun j s hji hs => ?_) ?_
  · rw [System.seenOf_append, seenOf_noteAt_of_ne hji.symm, List.append_nil]
    exact h j s hs
  · rw [System.seenOf_append, seenOf_noteAt_self]
    exact hi

/-- Nothing is counted where nothing at any position is. -/
theorem countP_eq_zero_of_getElem? {p : α → Bool} {items : List α}
    (h : ∀ (j : Nat) (x : α), items[j]? = some x → p x = false) : items.countP p = 0 := by
  rw [List.countP_eq_zero]
  intro x hx
  obtain ⟨j, hj⟩ := List.mem_iff_getElem?.mp hx
  simp [h j x hj]

/-- Whatever holds of the entries of a list and of the next one holds with that at the end. -/
theorem forall_getElem?_concat {items : List α} {a : α} {P : Nat → α → Prop}
    (hitems : ∀ i x, items[i]? = some x → P i x) (ha : P items.length a) :
    ∀ i x, (items ++ [a])[i]? = some x → P i x := by
  intro i x hx
  rcases Nat.lt_trichotomy i items.length with hlt | rfl | hlt
  · rw [List.getElem?_append_left hlt] at hx
    exact hitems i x hx
  · rw [List.getElem?_concat_length] at hx
    exact Option.some.inj hx ▸ ha
  · rw [List.getElem?_eq_none (by rw [List.length_append]; exact hlt)] at hx
    cases hx

theorem getElem?_set_of_some {items : List α} {i : Nat} {x a : α} (h : items[i]? = some x) :
    (items.set i a)[i]? = some a := by
  rw [List.getElem?_set_self (List.getElem?_eq_some_iff.mp h).1]

theorem set_self_of_some {items : List α} {i : Nat} {x : α} (h : items[i]? = some x) :
    items.set i x = items := by
  obtain ⟨hlt, rfl⟩ := List.getElem?_eq_some_iff.mp h
  exact List.set_getElem_self hlt

theorem countP_set_of_some {p : α → Bool} {items : List α} {i : Nat} {x a : α}
    (h : items[i]? = some x) (hx : p x = false) :
    (items.set i a).countP p = items.countP p + if p a then 1 else 0 := by
  obtain ⟨hlt, rfl⟩ := List.getElem?_eq_some_iff.mp h
  rw [List.countP_set hlt, hx]
  simp

theorem two_le_countP {p : α → Bool} {items : List α} {i j : Nat} {x y : α} (hij : i ≠ j)
    (hx : items[i]? = some x) (hy : items[j]? = some y) (hpx : p x = true) (hpy : p y = true) :
    2 ≤ items.countP p := by
  induction items generalizing i j with
  | nil => simp at hx
  | cons a rest ih =>
    have hpos : ∀ {k : Nat} {z : α}, rest[k]? = some z → p z = true → 0 < rest.countP p := by
      intro k z hz hpz
      exact List.countP_pos_iff.mpr ⟨z, List.mem_of_getElem? hz, hpz⟩
    cases i with
    | zero =>
      cases j with
      | zero => exact absurd rfl hij
      | succ j =>
        simp only [List.getElem?_cons_zero, Option.some.injEq] at hx
        subst hx
        rw [List.countP_cons_of_pos hpx]
        have := hpos hy hpy
        omega
    | succ i =>
      cases j with
      | zero =>
        simp only [List.getElem?_cons_zero, Option.some.injEq] at hy
        subst hy
        rw [List.countP_cons_of_pos hpy]
        have := hpos hx hpx
        omega
      | succ j =>
        have := ih (fun h => hij (congrArg Nat.succ h)) hx hy
        rw [List.countP_cons]
        omega

theorem others_of_countP {p : α → Bool} {items : List α} {i j : Nat} {x y : α}
    (hcount : items.countP p + 1 = items.length) (hx : items[i]? = some x) (hpx : p x = false)
    (hij : i ≠ j) (hy : items[j]? = some y) : p y = true := by
  cases hpy : p y with
  | true => rfl
  | false =>
    have htwo := two_le_countP (p := fun z => !p z) hij hx hy (by simp [hpx]) (by simp [hpy])
    have hall := List.length_eq_countP_add_countP p (l := items)
    simp only [Bool.not_eq_true, Bool.decide_eq_false] at hall
    omega

/-! ## Barriers -/

namespace Barrier

/-- Whoever looks again has passed if the round is complete. -/
theorem look_eq_passed_iff {b : Barrier} {generation : Nat} :
    b.look generation = .passed ↔ b.generation ≠ generation := by
  unfold look
  split
  · simp_all
  · split <;> simp_all

theorem look_eq_turnedAway_iff {b : Barrier} {generation : Nat} :
    b.look generation = .turnedAway ↔ b.generation = generation ∧ b.aborted = true := by
  unfold look
  split
  · simp_all
  · split <;> simp_all

/-- Nobody has come since `generation` rounds were complete. -/
structure Idle (b : Barrier) (n generation : Nat) : Prop where
  participants : b.participants = n
  generation : b.generation = generation
  waiting : b.waiting = 0

/-- `count` of the `n` participants wait in the open round; an aborted barrier counts nobody. -/
structure Filling (b : Barrier) (n generation count : Nat) : Prop where
  participants : b.participants = n
  generation : b.generation = generation
  waiting : b.aborted = false → b.waiting = count
  room : b.aborted = false → count < n

theorem Idle.abort {b : Barrier} {n generation : Nat} (h : b.Idle n generation) :
    b.abort.Idle n generation :=
  ⟨h.participants, h.generation, h.waiting⟩

theorem Idle.filling {b : Barrier} {n generation : Nat} (h : b.Idle n generation) (hn : 0 < n) :
    b.Filling n generation 0 :=
  ⟨h.participants, h.generation, fun _ => h.waiting, fun _ => hn⟩

theorem Idle.look {b : Barrier} {n rounds generation : Nat} (h : b.Idle n rounds)
    (hne : generation ≠ rounds) : b.look generation = .passed := by
  rw [look_eq_passed_iff, h.generation]
  exact hne.symm

theorem filling_abort {b : Barrier} {n generation : Nat} (hparticipants : b.participants = n)
    (hgeneration : b.generation = generation) (count : Nat) :
    b.abort.Filling n generation count :=
  ⟨hparticipants, hgeneration, fun h => (by cases h), fun h => (by cases h)⟩

/-- An aborted barrier may be said to count anybody. -/
theorem Filling.of_aborted {b : Barrier} {n generation count : Nat}
    (h : b.Filling n generation count) (haborted : b.aborted = true) (other : Nat) :
    b.Filling n generation other := by
  refine ⟨h.participants, h.generation, fun h' => ?_, fun h' => ?_⟩
  all_goals
    rw [haborted] at h'
    cases h'

theorem arrive_of_aborted {b : Barrier} (h : b.aborted = true) : b.arrive = (b, .turnedAway) := by
  simp [arrive, h]

/-- Whoever comes to a barrier that is not aborted completes the round or waits. -/
theorem Filling.arrive {b : Barrier} {n generation count : Nat}
    (h : b.Filling n generation count) (haborted : b.aborted = false) :
    (count + 1 = n ∧ b.arrive = ({ b with waiting := 0, generation := b.generation + 1 }, .passed) ∧
      b.arrive.1.Idle n (generation + 1)) ∨
    (count + 1 < n ∧
      b.arrive = ({ b with waiting := b.waiting + 1 }, .waiting generation) ∧
      b.arrive.1.Filling n generation (count + 1)) := by
  have hwaiting := h.waiting haborted
  have hroom := h.room haborted
  by_cases hlast : count + 1 = n
  · refine Or.inl ⟨hlast, ?_, ?_⟩
    · simp [Barrier.arrive, haborted, hwaiting, h.participants, hlast]
    · simp only [Barrier.arrive, haborted, hwaiting, h.participants, hlast, Bool.false_eq_true,
        ↓reduceIte]
      exact ⟨rfl, by rw [h.generation], rfl⟩
  · refine Or.inr ⟨by omega, ?_, ?_⟩
    · simp [Barrier.arrive, haborted, hwaiting, h.participants, hlast, h.generation]
    · simp only [Barrier.arrive, haborted, hwaiting, h.participants, hlast, Bool.false_eq_true,
        ↓reduceIte]
      exact ⟨rfl, h.generation, fun _ => rfl, fun _ => by omega⟩

end Barrier

/-! ## Threads in a round -/

namespace Thread

def waitsAt (gate : Gate) : Thread M → Bool
  | .syncing _ _ round =>
    match round.position with
    | .waiting at' _ => at' == gate
    | _ => false
  | _ => false

def stand (work : Work) (p : Partition M) (round : Round M.Payload) (gate : Gate) :
    Standing → Thread M
  | .passed => .syncing work p (round.moveTo (Round.behind gate))
  | .turnedAway => fail (.aborted p.id) p
  | .waiting generation => .syncing work p (round.moveTo (.waiting gate generation))

variable {shared : Shared M.Payload} {work : Work} {p : Partition M} {round : Round M.Payload}

theorem step?_entering (gate : Gate) :
    Thread.step? shared (.syncing work p (round.moveTo (.entering gate))) =
      some (shared.setBarrier gate (shared.barrier gate).arrive.1,
        stand work p round gate (shared.barrier gate).arrive.2) := by
  simp only [Thread.step?, syncOn, Seat.step?, Round.moveTo, Seat.enter]
  generalize (shared.barrier gate).arrive = arrival
  obtain ⟨barrier, standing⟩ := arrival
  cases standing <;> rfl

theorem step?_waiting (gate : Gate) (generation : Nat) :
    Thread.step? shared (.syncing work p (round.moveTo (.waiting gate generation))) =
      match (shared.barrier gate).look generation with
      | .waiting _ => none
      | standing => some (shared, stand work p round gate standing) := by
  simp only [Thread.step?, syncOn, Seat.step?, Round.moveTo]
  generalize (shared.barrier gate).look generation = standing
  cases standing <;> rfl

/-- A party that comes to the first gate. -/
theorem step?_arriving (q : Party M) :
    Thread.step? shared (.syncing q.work q.partition { kind := q.kind }) =
      some (shared.setBarrier .arrive shared.arrive.arrive.1,
        stand q.work q.partition { kind := q.kind } .arrive shared.arrive.arrive.2) := by
  have hround : ({ kind := q.kind } : Round M.Payload) =
    ({ kind := q.kind } : Round M.Payload).moveTo (.entering .arrive) := rfl
  rw [hround, step?_entering]
  rfl

theorem step?_gathered (q : Party M) (generation : Nat) :
    Thread.step? shared (.syncing q.work q.partition
      { kind := q.kind, position := .waiting .arrive generation }) =
      match shared.arrive.look generation with
      | .waiting _ => none
      | standing =>
        some (shared, stand q.work q.partition { kind := q.kind } .arrive standing) := by
  have hround : ({ kind := q.kind, position := .waiting .arrive generation } : Round M.Payload) =
    ({ kind := q.kind } : Round M.Payload).moveTo (.waiting .arrive generation) := rfl
  rw [hround, step?_waiting]
  rfl

theorem step?_handingOver_end {t : Nat} (h : p.member.outbound[t]? = none) :
    Thread.step? shared (.syncing work p (round.moveTo (.handingOver t))) =
      some (shared, .syncing work
        { p with
          member :=
            match round.kind with
            | .epoch => p.member.addExchanged round.sent round.sentBytes
            | .untimed _ => p.member }
        (round.moveTo (.entering .exchanged))) := by
  obtain ⟨kind, position, sent, sentBytes, received⟩ := round
  cases kind <;>
    simp only [Thread.step?, syncOn, Seat.step?, Round.moveTo, Seat.handOver, h, Seat.handedOver]

theorem step?_handingOver_empty {t : Nat} {box : Outbox M.Payload}
    (h : p.member.outbound[t]? = some box) (hbox : box.isEmpty = true) :
    Thread.step? shared (.syncing work p (round.moveTo (.handingOver t))) =
      some (shared, .syncing work p (round.moveTo (.handingOver (t + 1)))) := by
  simp only [Thread.step?, syncOn, Seat.step?, Round.moveTo, Seat.handOver, h, hbox, ↓reduceIte]
  rfl

theorem step?_handingOver_post {t : Nat} {box : Outbox M.Payload} {posted : Shared M.Payload}
    (h : p.member.outbound[t]? = some box) (hbox : box.isEmpty = false)
    (hpost : shared.post? t ⟨p.member.id, box.activities.map fun activity =>
      activity.notBefore (round.horizon p.timeline)⟩ = some posted) :
    Thread.step? shared (.syncing work p (round.moveTo (.handingOver t))) =
      some (posted, .syncing work { p with member := p.member.emptyOutbox t }
        { round with
          position := .handingOver (t + 1)
          sent := round.sent + box.size
          sentBytes := round.sentBytes + box.dataSize }) := by
  have hhorizon : (round.moveTo (.handingOver t)).horizon p.timeline =
      round.horizon p.timeline := rfl
  simp only [Round.moveTo] at hhorizon
  simp only [Thread.step?, syncOn, Seat.step?, Round.moveTo, Seat.handOver, h, hbox, hhorizon,
    hpost, Bool.false_eq_true, ↓reduceIte]
  rfl

theorem step?_collecting {got : List (Batch M.Payload)} {batch : Batch M.Payload}
    {rest : Shared M.Payload} (h : shared.fetch? p.member.id = some (batch, rest)) :
    Thread.step? shared (.syncing work p (round.moveTo (.collecting got))) =
      some (rest, .syncing work p (round.moveTo (.collecting (got ++ [batch])))) := by
  simp only [Thread.step?, syncOn, Seat.step?, Round.moveTo, Seat.collect, h]
  rfl

theorem step?_collecting_end {got : List (Batch M.Payload)}
    (h : shared.fetch? p.member.id = none) :
    Thread.step? shared (.syncing work p (round.moveTo (.collecting got))) =
      some (shared,
        match round.kind with
        | .epoch =>
          .syncing work { p with timeline := p.timeline.addAll (Round.inSenderOrder got) }
            (round.moveTo .publishing)
        | .untimed _ =>
          .syncing work p
            { round with
              received :=
                (Round.inSenderOrder got).filterMap fun activity => activity.payload.event?
              position := .publishing }) := by
  simp only [Thread.step?, syncOn, Seat.step?, Round.moveTo, Seat.collect, h, Seat.collected]
  cases round.kind <;> rfl

theorem step?_publishing :
    Thread.step? shared (.syncing work p (round.moveTo .publishing)) =
      some (shared.publish p.member.id (round.minimum p.timeline),
        .syncing work p (round.moveTo (.entering .published))) := rfl

theorem step?_reading {slot : Nat} {least time : Time} (h : shared.minimums[slot]? = some time) :
    Thread.step? shared (.syncing work p (round.moveTo (.reading slot least))) =
      some (shared, .syncing work p (round.moveTo (.reading (slot + 1) (min least time)))) := by
  simp only [Thread.step?, syncOn, Seat.step?, Round.moveTo, Seat.read, h]
  rfl

theorem step?_reading_end {q : Party M} {incoming : List (Scheduled M.Payload)} {slot : Nat}
    {least : Time} (h : shared.minimums[slot]? = none) :
    Thread.step? shared (.syncing q.work (q.taken incoming)
        ((q.roundTaken incoming).moveTo (.reading slot least))) =
      some (shared, q.conclude incoming least) := by
  have hkind : (q.roundTaken incoming).kind = q.kind := by
    unfold Party.roundTaken
    split <;> rfl
  simp only [Thread.step?, syncOn, Seat.step?, Round.moveTo, Seat.read, h, Seat.conclude,
    Party.conclude, hkind]
  cases hq : q.kind with
  | epoch =>
    by_cases hleast : least = Time.never
    · simp [hleast, afterRound]
    · simp [hleast, afterRound]
  | untimed own => rfl

end Thread

/-! ## Machines -/

@[simp] theorem Shared.barrier_close {π : Type} (shared : Shared π) (owner : PartitionId)
    (gate : Gate) : (shared.close owner).barrier gate = shared.barrier gate := by
  cases gate <;> rfl

namespace Machine

def update (machine : Machine M) (i : Nat) (shared : Shared M.Payload) (t : Thread M) :
    Machine M :=
  ⟨if t.result?.isSome then shared.close i else shared, machine.threads.set i t⟩

section

variable (machine : Machine M) (i : Nat) (shared : Shared M.Payload) (t : Thread M)

@[simp] theorem barrier_update (gate : Gate) :
    (machine.update i shared t).shared.barrier gate = shared.barrier gate := by
  unfold update
  dsimp only
  split
  · exact Shared.barrier_close ..
  · rfl

@[simp] theorem minimums_update :
    (machine.update i shared t).shared.minimums = shared.minimums := by
  unfold update
  dsimp only
  split <;> rfl

theorem inboxes_update :
    (machine.update i shared t).shared.inboxes =
      if t.result?.isSome then shared.inboxes.set i none else shared.inboxes := by
  unfold update
  dsimp only
  split <;> rfl

theorem update_of_going (h : t.result?.isSome = false) :
    machine.update i shared t = ⟨shared, machine.threads.set i t⟩ := by
  simp [update, h]

end

theorem step?_eq_some_iff {machine next : Machine M} {i : Nat} :
    machine.step? i = some next ↔
      ∃ t shared t', machine.threads[i]? = some t ∧ t.step? machine.shared = some (shared, t') ∧
        next = machine.update i shared t' := by
  unfold step?
  cases ht : machine.threads[i]? with
  | none => simp
  | some t =>
    cases hstep : t.step? machine.shared with
    | none => simp [hstep]
    | some result =>
      obtain ⟨shared, t'⟩ := result
      simp only [hstep, Option.some.injEq]
      constructor
      · rintro rfl
        exact ⟨t, shared, t', rfl, hstep, rfl⟩
      · rintro ⟨_, _, _, rfl, hstep', rfl⟩
        rw [hstep] at hstep'
        cases hstep'
        rfl

end Machine

end Lookahead
