import Lookahead.Sync.Barrier
import Lookahead.Proofs.Rounds

/-!
Whoever comes to one barrier, in any number and in any order.

A caller comes to the barrier, is told at once that it may pass or that it is turned away, or
waits. Whoever waits may look again at any time, for a reason or for none. Between all that the
barrier may be aborted, once or often.

Callers are numbered as they come, and those who come before the first abort are in time. The rounds
are the timely callers in groups of as many as take part, and a round is all or nothing: either all
of it pass, or all of it are turned away (`rounds_all_or_nothing`).
-/

namespace Lookahead

/-- A barrier, and where everyone stands who has come to it, in the order of their coming. A thread
that comes again is a further caller. -/
structure Rendezvous where
  barrier : Barrier
  callers : List Standing

namespace Rendezvous

/-- What may happen at a barrier. -/
inductive Move where
  | arrive
  | look (caller : Nat)
  | abort
deriving DecidableEq

def start (n : Nat) : Rendezvous := ⟨.ofParticipants n, []⟩

def step? (hall : Rendezvous) : Move → Option Rendezvous
  | .arrive => some ⟨hall.barrier.arrive.1, hall.callers ++ [hall.barrier.arrive.2]⟩
  | .abort => some { hall with barrier := hall.barrier.abort }
  | .look k =>
    match hall.callers[k]? with
    | some (.waiting generation) =>
      some { hall with callers := hall.callers.set k (hall.barrier.look generation) }
    | _ => none

/-- Everything that can happen at a barrier; there is no more to be seen than the state. -/
def system : System Rendezvous Move Unit := ⟨step?, fun _ _ => []⟩

def timely : List Move → Nat
  | [] => 0
  | .abort :: _ => 0
  | .arrive :: moves => timely moves + 1
  | .look _ :: moves => timely moves

/-! ## Who is in time -/

theorem timely_le (moves : List Move) : timely moves ≤ moves.count .arrive := by
  induction moves with
  | nil => exact Nat.le_refl 0
  | cons move moves ih =>
    cases move with
    | arrive => simpa [timely] using ih
    | look k => simpa [timely] using ih
    | abort => exact Nat.zero_le _

theorem timely_of_not_mem {moves : List Move} (h : Move.abort ∉ moves) :
    timely moves = moves.count .arrive := by
  induction moves with
  | nil => rfl
  | cons move moves ih =>
    simp only [List.mem_cons, not_or] at h
    cases move with
    | arrive => simpa [timely] using ih h.2
    | look k => simpa [timely] using ih h.2
    | abort => exact absurd rfl h.1

theorem timely_append_of_mem {moves : List Move} (h : Move.abort ∈ moves) (later : List Move) :
    timely (moves ++ later) = timely moves := by
  induction moves with
  | nil => cases h
  | cons move moves ih =>
    cases move with
    | arrive => simpa [timely] using ih (by simpa using h)
    | look k => simpa [timely] using ih (by simpa using h)
    | abort => rfl

theorem timely_append_of_ne (moves : List Move) {move : Move} (h : move ≠ .arrive) :
    timely (moves ++ [move]) = timely moves := by
  induction moves with
  | nil =>
    cases move with
    | arrive => exact absurd rfl h
    | look k => rfl
    | abort => rfl
  | cons first moves ih =>
    cases first with
    | arrive => simpa [timely] using ih
    | look k => simpa [timely] using ih
    | abort => rfl

theorem timely_append_arrive {moves : List Move} (h : Move.abort ∉ moves) :
    timely (moves ++ [.arrive]) = timely moves + 1 := by
  rw [timely_of_not_mem (by simpa using h), timely_of_not_mem h, List.count_append]
  rfl

/-! ## What is so in every state -/

/-- Where a caller may stand when some rounds are complete, and when so many have come in time: who
passed is of a complete round, who was turned away is not and there was an abort, and who waits
knows in which round. -/
inductive Placed (n generation timely : Nat) (aborted : Bool) (k : Nat) : Standing → Prop
  | passed : k < generation * n → Placed n generation timely aborted k .passed
  | turnedAway : aborted = true → generation * n ≤ k →
      Placed n generation timely aborted k .turnedAway
  | waiting : k < timely → Placed n generation timely aborted k (.waiting (k / n))

/-- What has happened at a barrier shows in where it stands. -/
structure Counted (n : Nat) (moves : List Move) (hall : Rendezvous) : Prop where
  participants : hall.barrier.participants = n
  callers : hall.callers.length = moves.count .arrive
  timely : hall.barrier.generation * n + hall.barrier.waiting = timely moves
  waiting : hall.barrier.waiting < n
  aborted : hall.barrier.aborted = true ↔ Move.abort ∈ moves
  placed : ∀ k standing, hall.callers[k]? = some standing →
    Placed n hall.barrier.generation (Rendezvous.timely moves) hall.barrier.aborted k standing

namespace Placed

variable {n generation timely k : Nat} {aborted : Bool} {standing : Standing}

/-- A caller stays where it is while more rounds are completed and more come. -/
theorem mono (h : Placed n generation timely aborted k standing) {generation' timely' : Nat}
    (hgeneration : generation ≤ generation') (htimely : timely ≤ timely')
    (haborted : aborted = true → generation' = generation) :
    Placed n generation' timely' aborted k standing := by
  cases h with
  | passed hk => exact .passed (Nat.lt_of_lt_of_le hk (Nat.mul_le_mul_right n hgeneration))
  | turnedAway hturned hk => exact .turnedAway hturned (by rwa [haborted hturned])
  | waiting hk => exact .waiting (Nat.lt_of_lt_of_le hk htimely)

/-- An abort as such moves nobody. -/
theorem abort (h : Placed n generation timely aborted k standing) :
    Placed n generation timely true k standing := by
  cases h with
  | passed hk => exact .passed hk
  | turnedAway _ hk => exact .turnedAway rfl hk
  | waiting hk => exact .waiting hk

end Placed

namespace Counted

variable {n : Nat} {moves : List Move} {hall : Rendezvous}

theorem generation_eq (h : Counted n moves hall) :
    hall.barrier.generation = Rendezvous.timely moves / n := by
  rw [← h.timely, Nat.mul_comm, Nat.mul_add_div (Nat.zero_lt_of_lt h.waiting),
    Nat.div_eq_of_lt h.waiting, Nat.add_zero]

theorem waiting_eq (h : Counted n moves hall) :
    hall.barrier.waiting = Rendezvous.timely moves % n := by
  rw [← h.timely, Nat.mul_comm, Nat.mul_add_mod, Nat.mod_eq_of_lt h.waiting]

/-- What a caller finds that looks again: its round complete, or the barrier aborted, or neither. -/
theorem look_eq (h : Counted n moves hall) {k : Nat} (hk : k < Rendezvous.timely moves) :
    hall.barrier.look (k / n) =
      if k < hall.barrier.generation * n then .passed
      else if hall.barrier.aborted then .turnedAway else .waiting (k / n) := by
  have hn : 0 < n := Nat.zero_lt_of_lt h.waiting
  have hround : k / n ≤ hall.barrier.generation := by
    rw [h.generation_eq]
    exact Nat.div_le_div_right (Nat.le_of_lt hk)
  have hcomplete : hall.barrier.generation ≠ k / n ↔ k < hall.barrier.generation * n := by
    rw [← Nat.div_lt_iff_lt_mul hn]
    exact ⟨fun hne => Nat.lt_of_le_of_ne hround hne.symm, fun hlt => (Nat.ne_of_lt hlt).symm⟩
  unfold Barrier.look
  simp only [hcomplete]

theorem start (n : Nat) : Counted (max n 1) [] (Rendezvous.start n) where
  participants := rfl
  callers := rfl
  timely := by simp [Rendezvous.start, Barrier.ofParticipants, Rendezvous.timely]
  waiting := Nat.lt_of_lt_of_le Nat.zero_lt_one (Nat.le_max_right n 1)
  aborted := by simp [Rendezvous.start, Barrier.ofParticipants]
  placed := by simp [Rendezvous.start]

theorem length_callers (h : Counted n moves hall) (habort : Move.abort ∉ moves) :
    hall.callers.length = hall.barrier.generation * n + hall.barrier.waiting := by
  rw [h.callers, h.timely, timely_of_not_mem habort]

/-- One more caller moves nobody, whether or not it completes a round. -/
theorem placed_grown (h : Counted n moves hall) (haborted : ¬ hall.barrier.aborted = true)
    {generation : Nat} (hle : hall.barrier.generation ≤ generation) :
    ∀ k standing, hall.callers[k]? = some standing →
      Placed n generation (Rendezvous.timely moves + 1) hall.barrier.aborted k standing :=
  fun k standing hk =>
    (h.placed k standing hk).mono hle (Nat.le_succ _) fun hturned => absurd hturned haborted

/-- Whoever comes after an abort is turned away. -/
theorem arrive_late (h : Counted n moves hall) (haborted : hall.barrier.aborted = true) :
    Counted n (moves ++ [.arrive]) { hall with callers := hall.callers ++ [.turnedAway] } := by
  have htimely := timely_append_of_mem (h.aborted.mp haborted) [.arrive]
  -- those of complete rounds came before the abort
  have hlate : hall.barrier.generation * n ≤ hall.callers.length := by
    have := timely_le moves
    have := h.timely
    have := h.callers
    omega
  exact {
    participants := h.participants
    callers := by simpa [List.count_append] using h.callers
    timely := by rw [htimely]; exact h.timely
    waiting := h.waiting
    aborted := by simpa using h.aborted
    placed := by
      rw [htimely]
      exact forall_getElem?_concat h.placed (.turnedAway haborted hlate) }

/-- Whoever comes last in a round passes and completes it. -/
theorem arrive_last (h : Counted n moves hall) (haborted : ¬ hall.barrier.aborted = true)
    (hlast : hall.barrier.waiting + 1 = n) :
    Counted n (moves ++ [.arrive])
      ⟨{ hall.barrier with waiting := 0, generation := hall.barrier.generation + 1 },
        hall.callers ++ [.passed]⟩ := by
  have habort : Move.abort ∉ moves := fun hmem => haborted (h.aborted.mpr hmem)
  have htimely := timely_append_arrive habort
  have hround : (hall.barrier.generation + 1) * n = hall.callers.length + 1 := by
    rw [h.length_callers habort, Nat.succ_mul]
    omega
  exact {
    participants := h.participants
    callers := by simpa [List.count_append] using h.callers
    timely := by
      rw [htimely, ← h.timely, ← h.length_callers habort]
      exact hround
    waiting := Nat.zero_lt_of_lt h.waiting
    aborted := by simpa using h.aborted
    placed := by
      rw [htimely]
      refine forall_getElem?_concat (h.placed_grown haborted (Nat.le_succ _)) (.passed ?_)
      rw [hround]
      exact Nat.lt_succ_self _ }

/-- Whoever comes earlier in a round waits in it. -/
theorem arrive_early (h : Counted n moves hall) (haborted : ¬ hall.barrier.aborted = true)
    (hearly : hall.barrier.waiting + 1 ≠ n) :
    Counted n (moves ++ [.arrive])
      ⟨{ hall.barrier with waiting := hall.barrier.waiting + 1 },
        hall.callers ++ [.waiting hall.barrier.generation]⟩ := by
  have habort : Move.abort ∉ moves := fun hmem => haborted (h.aborted.mpr hmem)
  have htimely := timely_append_arrive habort
  have hcount := h.length_callers habort
  have hround : hall.barrier.generation = hall.callers.length / n := by
    rw [hcount, h.timely, h.generation_eq]
  exact {
    participants := h.participants
    callers := by simpa [List.count_append] using h.callers
    timely := by
      rw [htimely, ← h.timely]
      rfl
    waiting := Nat.lt_of_le_of_ne h.waiting hearly
    aborted := by simpa using h.aborted
    placed := by
      rw [htimely]
      refine forall_getElem?_concat (h.placed_grown haborted (Nat.le_refl _)) ?_
      rw [hround]
      refine .waiting ?_
      rw [hcount, h.timely]
      exact Nat.lt_succ_self _ }

/-- Whoever comes is turned away after an abort, completes the round, or waits in it. -/
theorem arrive (h : Counted n moves hall) :
    Counted n (moves ++ [.arrive])
      ⟨hall.barrier.arrive.1, hall.callers ++ [hall.barrier.arrive.2]⟩ := by
  unfold Barrier.arrive
  split
  · rename_i haborted
    exact h.arrive_late haborted
  · rename_i haborted
    split
    · rename_i hlast
      exact h.arrive_last haborted (hlast.trans h.participants)
    · rename_i hearly
      exact h.arrive_early haborted fun hlast => hearly (hlast.trans h.participants.symm)

/-- Whoever looks again passes if its round is complete, and is turned away if it never will be. -/
theorem look (h : Counted n moves hall) {k generation : Nat}
    (hk : hall.callers[k]? = some (.waiting generation)) :
    Counted n (moves ++ [.look k])
      { hall with callers := hall.callers.set k (hall.barrier.look generation) } := by
  have htimely : Rendezvous.timely (moves ++ [.look k]) = Rendezvous.timely moves :=
    timely_append_of_ne _ (by simp)
  cases h.placed k _ hk with
  | waiting hlt =>
    exact {
      participants := h.participants
      callers := by simpa [List.count_append] using h.callers
      timely := by rw [htimely]; exact h.timely
      waiting := h.waiting
      aborted := by simpa using h.aborted
      placed := by
        rw [htimely]
        refine forall_set (fun j x _ => h.placed j x) ?_
        rw [h.look_eq hlt]
        split
        · exact .passed ‹_›
        · split
          · exact .turnedAway ‹_› (Nat.le_of_not_lt ‹_›)
          · exact .waiting hlt }

theorem abort (h : Counted n moves hall) :
    Counted n (moves ++ [.abort]) { hall with barrier := hall.barrier.abort } where
  participants := h.participants
  callers := by simpa [List.count_append] using h.callers
  timely := by rw [timely_append_of_ne _ (by simp)]; exact h.timely
  waiting := h.waiting
  aborted := by simp [Barrier.abort]
  placed := by
    rw [timely_append_of_ne _ (by simp)]
    exact fun k standing hk => (h.placed k standing hk).abort

theorem step (h : Counted n moves hall) {move : Move} {next : Rendezvous}
    (hstep : hall.step? move = some next) : Counted n (moves ++ [move]) next := by
  cases move with
  | arrive =>
    cases hstep
    exact h.arrive
  | abort =>
    cases hstep
    exact h.abort
  | look k =>
    simp only [step?] at hstep
    split at hstep
    · rename_i generation hk
      cases hstep
      exact h.look hk
    · cases hstep

theorem run (h : Counted n moves hall) {later : List Move} {seen : List Unit} {last : Rendezvous}
    (hrun : system.Run hall later seen last) : Counted n (moves ++ later) last := by
  induction hrun with
  | refl => simpa using h
  | step _ hstep ih =>
    rw [← List.append_assoc]
    exact ih.step hstep

end Counted

/-! ## What becomes of a caller -/

/-- Whoever has passed or was turned away is done with the barrier. -/
theorem settled_step {hall next : Rendezvous} {move : Move} {k : Nat} {standing : Standing}
    (hstep : hall.step? move = some next) (hk : hall.callers[k]? = some standing)
    (hsettled : ∀ generation, standing ≠ .waiting generation) :
    next.callers[k]? = some standing := by
  have hlt : k < hall.callers.length := (List.getElem?_eq_some_iff.mp hk).1
  cases move with
  | arrive =>
    cases hstep
    exact (List.getElem?_append_left hlt).trans hk
  | abort =>
    cases hstep
    exact hk
  | look j =>
    simp only [step?] at hstep
    split at hstep
    · rename_i generation hj
      cases hstep
      have hne : j ≠ k := by
        rintro rfl
        rw [hk] at hj
        cases hj
        exact hsettled generation rfl
      exact (List.getElem?_set_ne hne).trans hk
    · cases hstep

theorem settled_run {hall last : Rendezvous} {later : List Move} {seen : List Unit} {k : Nat}
    {standing : Standing} (hrun : system.Run hall later seen last)
    (hk : hall.callers[k]? = some standing)
    (hsettled : ∀ generation, standing ≠ .waiting generation) :
    last.callers[k]? = some standing := by
  induction hrun with
  | refl => exact hk
  | step _ hstep ih => exact settled_step hstep ih hsettled

/-! ## All or nothing -/

/-- The round of a caller is complete: enough have come in time. -/
def Complete (n : Nat) (moves : List Move) (k : Nat) : Prop := (k / n + 1) * n ≤ timely moves

instance (n : Nat) (moves : List Move) (k : Nat) : Decidable (Complete n moves k) :=
  inferInstanceAs (Decidable (_ ≤ _))

theorem Counted.complete_iff {n : Nat} {moves : List Move} {hall : Rendezvous}
    (h : Counted n moves hall) {k : Nat} :
    Complete n moves k ↔ k < hall.barrier.generation * n := by
  have hn : 0 < n := Nat.zero_lt_of_lt h.waiting
  rw [Complete, ← Nat.le_div_iff_mul_le hn, ← h.generation_eq, Nat.succ_le_iff,
    Nat.div_lt_iff_lt_mul hn]

structure AllOrNothing (n : Nat) (moves : List Move) (hall : Rendezvous) : Prop where
  /-- Everyone who has come is a caller. -/
  callers : hall.callers.length = moves.count .arrive
  /-- The timely callers fill one round after the other, and the count of rounds is right. -/
  rounds : hall.barrier.generation = timely moves / n
  /-- The others of them are the open round, which is empty as soon as a round is complete. -/
  opened : hall.barrier.waiting = timely moves % n
  /-- The open round is never full. -/
  ready : hall.barrier.waiting < n
  /-- Whoever waits came in time and knows its round. -/
  waits : ∀ k generation : Nat, hall.callers[k]? = some (.waiting generation) →
    generation = k / n ∧ k < timely moves
  /-- Nobody passes before the last of its round has come. -/
  passes : ∀ k, hall.callers[k]? = some .passed → Complete n moves k
  /-- Nobody is turned away without an abort, and nobody of a complete round is. -/
  turned : ∀ k, hall.callers[k]? = some .turnedAway → Move.abort ∈ moves ∧ ¬Complete n moves k
  /-- Whoever came after an abort was turned away. -/
  late : ∀ k, timely moves ≤ k → k < hall.callers.length → hall.callers[k]? = some .turnedAway
  /-- Whoever waits can look again: it passes if its round is complete, aborted or not, is turned
  away if the round is left incomplete by an abort, and waits on otherwise. -/
  looks : ∀ k generation : Nat, hall.callers[k]? = some (.waiting generation) →
    ∃ next, hall.step? (.look k) = some next ∧ next.callers[k]? = some
      (if Complete n moves k then .passed
       else if Move.abort ∈ moves then .turnedAway else .waiting generation)
  /-- Up to `2 ^ 64` rounds a counter of 64 bits is enough to tell whether a round is over. -/
  counter : hall.barrier.generation < UInt64.size → ∀ k generation : Nat,
    hall.callers[k]? = some (.waiting generation) →
      (hall.barrier.generation % UInt64.size = generation % UInt64.size ↔
        hall.barrier.generation = generation)
  /-- What a caller was told is not taken back, and no round is completed after an abort. -/
  final : ∀ later seen last, system.Run hall later seen last →
    (∀ (k : Nat) (standing : Standing), hall.callers[k]? = some standing →
      (∀ generation, standing ≠ .waiting generation) → last.callers[k]? = some standing) ∧
    (Move.abort ∈ moves → last.barrier.generation = hall.barrier.generation)

/-- Whatever the order in which callers come, look again and abort the barrier, its rounds are all
or nothing. -/
theorem rounds_all_or_nothing (n : Nat) {moves : List Move} {seen : List Unit} {hall : Rendezvous}
    (hrun : system.Run (start n) moves seen hall) : AllOrNothing (max n 1) moves hall := by
  have h : Counted (max n 1) moves hall := (Counted.start n).run hrun
  exact {
    callers := h.callers
    rounds := h.generation_eq
    opened := h.waiting_eq
    ready := h.waiting
    waits := by
      intro k generation hk
      cases h.placed k _ hk with
      | waiting hlt => exact ⟨rfl, hlt⟩
    passes := by
      intro k hk
      cases h.placed k _ hk with
      | passed hlt => exact h.complete_iff.mpr hlt
    turned := by
      intro k hk
      cases h.placed k _ hk with
      | turnedAway haborted hle =>
        exact ⟨h.aborted.mp haborted, fun hc => Nat.not_lt.mpr hle (h.complete_iff.mp hc)⟩
    late := by
      intro k hlate hlt
      obtain ⟨standing, hk⟩ : ∃ standing, hall.callers[k]? = some standing :=
        ⟨_, List.getElem?_eq_getElem hlt⟩
      have htimely := h.timely
      cases h.placed k _ hk with
      | passed hpassed => omega
      | turnedAway => exact hk
      | waiting hwaiting => omega
    looks := by
      intro k generation hk
      refine ⟨{ hall with callers := hall.callers.set k (hall.barrier.look generation) }, ?_, ?_⟩
      · simp only [step?, hk]
      · rw [getElem?_set_of_some hk]
        cases h.placed k _ hk with
        | waiting hlt => simp only [h.look_eq hlt, h.complete_iff, h.aborted]
    counter := by
      intro hfew k generation hk
      cases h.placed k _ hk with
      | waiting hlt =>
        have hle : k / max n 1 ≤ hall.barrier.generation := by
          rw [h.generation_eq]
          exact Nat.div_le_div_right (Nat.le_of_lt hlt)
        rw [Nat.mod_eq_of_lt hfew, Nat.mod_eq_of_lt (Nat.lt_of_le_of_lt hle hfew)]
    final := by
      intro later seen last hlater
      refine ⟨fun k standing hk hsettled => settled_run hlater hk hsettled, fun habort => ?_⟩
      rw [(h.run hlater).generation_eq, h.generation_eq, timely_append_of_mem habort] }

/-- Two come to a barrier for two, and it is aborted before the first of them wakes up: both pass,
and only who comes later is turned away. -/
theorem sleeper_passes :
    system.Run (start 2) [.arrive, .arrive, .abort, .look 0, .arrive] []
        ⟨⟨2, 0, 1, true⟩, [.passed, .passed, .turnedAway]⟩ ∧
      AllOrNothing 2 [.arrive, .arrive, .abort, .look 0, .arrive]
        ⟨⟨2, 0, 1, true⟩, [.passed, .passed, .turnedAway]⟩ := by
  have hrun : system.Run (start 2) [.arrive, .arrive, .abort, .look 0, .arrive] []
      ⟨⟨2, 0, 1, true⟩, [.passed, .passed, .turnedAway]⟩ :=
    .cons rfl (.cons rfl (.cons rfl (.cons rfl (.cons rfl .refl))))
  exact ⟨hrun, rounds_all_or_nothing 2 hrun⟩

end Rendezvous

end Lookahead
