import Lookahead.Proofs.Rounds

/-!
Between two exchanges: the gate `arrive` is open, and the threads of a machine stand as a cohort
says.

A thread may lag behind the cohort, in which everyone has concluded the last round already, as long
as the minimums of that round are all there; they are not published anew before everyone has come to
the gate again. A thread that is turned away there has not got any further than the cohort, where it
is ready for a round that never takes place.
-/

namespace Lookahead

variable {M : Model}

/-! ## Cohorts that are broken -/

namespace Cohort

def Broken (cohort : Cohort M) : Prop := ∃ (j : Nat) (e : RunError) (p : Partition M),
  cohort[j]? = some (.failed e p)

theorem Broken.of_failed {cohort : Cohort M} {i : Nat} {e : RunError} {p : Partition M}
    (h : cohort[i]? = some (.failed e p)) : cohort.Broken := ⟨i, e, p, h⟩

theorem Broken.set {cohort : Cohort M} (h : cohort.Broken) {i : Nat} {s s' : Stance M}
    (hs : cohort[i]? = some s) (hkeep : (∀ e p, s ≠ .failed e p) ∨ s' = s) :
    Broken (cohort.set i s') := by
  obtain ⟨j, e, p, hj⟩ := h
  by_cases hij : i = j
  · subst hij
    rw [hs] at hj
    cases hj
    rcases hkeep with hnot | rfl
    · exact absurd rfl (hnot e p)
    · exact ⟨i, e, p, getElem?_set_of_some hs⟩
  · exact ⟨j, e, p, by rw [List.getElem?_set_ne hij]; exact hj⟩

theorem not_broken_ready (parties : List (Party M)) :
    ¬ Broken (parties.map Stance.ready) := by
  rintro ⟨j, e, p, hj⟩
  rw [List.getElem?_map] at hj
  cases hq : parties[j]? <;> simp [hq] at hj

end Cohort

/-! ## Where the threads stand -/

/-- A thread stands as the cohort says, after so many rounds and with these minimums published in
the last of them. -/
inductive Gathers (rounds : Nat) (minimums : List Time) (broken : Prop) :
    Thread M → Stance M → Prop
  | running (work : Work) (p : Partition M) :
      Gathers rounds minimums broken (.running work p) (.running work p)
  | entering (q : Party M) :
      Gathers rounds minimums broken (.syncing q.work q.partition { kind := q.kind }) (.ready q)
  | waiting (q : Party M) :
      Gathers rounds minimums broken
        (.syncing q.work q.partition { kind := q.kind, position := .waiting .arrive rounds })
        (.ready q)
  | released (q : Party M) (incoming : List (Scheduled M.Payload)) (generation : Nat)
      (h : generation ≠ rounds) :
      Gathers rounds minimums broken
        (.syncing q.work (q.taken incoming)
          ((q.roundTaken incoming).moveTo (.waiting .published generation)))
        (q.conclude incoming (minimums.foldl min Time.never)).stance
  | reading (q : Party M) (incoming : List (Scheduled M.Payload)) (slot : Nat) (least : Time) :
      Gathers rounds minimums broken
        (.syncing q.work (q.taken incoming)
          ((q.roundTaken incoming).moveTo (.reading slot least)))
        (q.conclude incoming ((minimums.drop slot).foldl min least)).stance
  | failing (gate : Gate) (e : RunError) (p : Partition M) :
      Gathers rounds minimums broken (.aborting gate e p) (.failed e p)
  | turnedAway (gate : Gate) (q : Party M) (h : broken) :
      Gathers rounds minimums broken
        (.aborting gate (.aborted q.partition.id) q.partition) (.ready q)
  | ended (stop : StopReason) (p : Partition M) :
      Gathers rounds minimums broken (.ended (.ok stop) p) (.ended stop p)
  | failed (e : RunError) (p : Partition M) :
      Gathers rounds minimums broken (.ended (.error e) p) (.failed e p)
  | left (q : Party M) (h : broken) :
      Gathers rounds minimums broken
        (.ended (.error (.aborted q.partition.id)) q.partition) (.ready q)

/-- What a thread does next that works or concludes. -/
inductive Thread.Afresh : Thread M → Prop
  | running (work : Work) (p : Partition M) : Afresh (.running work p)
  | entering (work : Work) (p : Partition M) (kind : Round.Kind) :
      Afresh (.syncing work p { kind := kind })
  | aborting (gate : Gate) (e : RunError) (p : Partition M) : Afresh (.aborting gate e p)
  | ended (result : Except RunError StopReason) (p : Partition M) : Afresh (.ended result p)

namespace Thread

theorem afresh_beginRound (work : Work) (p : Partition M) (kind : Round.Kind) :
    (beginRound work p kind).Afresh := .entering ..

theorem afresh_finishTimed (stop : StopReason) (p : Partition M) :
    (finishTimed stop p).Afresh := by
  unfold finishTimed
  split
  · exact .running ..
  · exact .ended ..

theorem afresh_afterRound (work : Work) (p : Partition M) (kind : Round.Kind)
    (outcome : Round.Outcome M.Payload) : (afterRound work p kind outcome).Afresh := by
  unfold afterRound
  cases outcome with
  | resume nextSync => exact .running ..
  | drained => exact afresh_finishTimed ..
  | untimed received more =>
    dsimp only
    split
    · exact .running ..
    · exact .running ..
    · exact .running ..
    · exact .ended ..
    · exact .running ..

theorem afresh_runPhase (work : Work) (stage : Stage) (phase : Nat) (p : Partition M) :
    (runPhase work stage phase p).Afresh := by
  unfold runPhase
  split
  · exact afresh_beginRound ..
  · exact .aborting ..

theorem afresh_workOn (work : Work) (p : Partition M) : (workOn work p).Afresh := by
  unfold workOn
  cases work with
  | init phase => exact afresh_runPhase ..
  | complete phase stop => exact afresh_runPhase ..
  | timed =>
    dsimp only
    split
    · exact .running ..
    · exact afresh_beginRound ..
    · exact afresh_finishTimed ..
    · exact .aborting ..

theorem afresh_conclude (q : Party M) (incoming : List (Scheduled M.Payload)) (least : Time) :
    (q.conclude incoming least).Afresh := by
  unfold Party.conclude
  dsimp only
  split
  · split
    · exact afresh_finishTimed ..
    · exact .running ..
  · exact afresh_afterRound ..

theorem Afresh.gathers {t : Thread M} (h : t.Afresh) (rounds : Nat) (minimums : List Time)
    (broken : Prop) : Gathers rounds minimums broken t t.stance := by
  cases h with
  | running work p => exact .running ..
  | entering work p kind => exact .entering ⟨work, p, kind⟩
  | aborting gate e p => exact .failing ..
  | ended result p =>
    cases result with
    | ok stop => exact .ended ..
    | error e => exact .failed ..

theorem Afresh.not_waiting {t : Thread M} (h : t.Afresh) (gate : Gate) :
    t.waitsAt gate = false := by
  cases h <;> rfl

end Thread

/-- The gate `arrive` is open for the next round, and the threads stand as the cohort says. -/
structure Gathering (machine : Machine M) (cohort : Cohort M) (rounds : Nat) : Prop where
  size : machine.threads.length = cohort.length
  slots : machine.shared.minimums.length = cohort.length
  arrive : machine.shared.arrive.Filling cohort.length rounds
    (machine.threads.countP (Thread.waitsAt .arrive))
  exchanged : machine.shared.exchanged.Idle cohort.length rounds
  published : machine.shared.published.Idle cohort.length rounds
  aborted : machine.shared.arrive.aborted = true ∨ machine.shared.exchanged.aborted = true ∨
    machine.shared.published.aborted = true → cohort.Broken
  stands : ∀ (j : Nat) (t : Thread M), machine.threads[j]? = some t →
    ∃ s, cohort[j]? = some s ∧ Gathers rounds machine.shared.minimums cohort.Broken t s
  inboxes : ∀ (j : Nat) (t : Thread M), machine.threads[j]? = some t →
    machine.shared.inboxes[j]? = some (if t.result?.isSome then none else some [])

namespace Gathering

variable {machine : Machine M} {cohort : Cohort M} {rounds i : Nat} {t t' : Thread M}
  {s s' : Stance M}

theorem mono {minimums : List Time} {broken broken' : Prop} (himp : broken → broken')
    (h : Gathers rounds minimums broken t s) : Gathers rounds minimums broken' t s := by
  cases h with
  | running work p => exact .running ..
  | entering q => exact .entering q
  | waiting q => exact .waiting q
  | released q incoming generation hne => exact .released q incoming generation hne
  | reading q incoming slot least => exact .reading q incoming slot least
  | failing gate e p => exact .failing ..
  | turnedAway gate q h => exact .turnedAway gate q (himp h)
  | ended stop p => exact .ended ..
  | failed e p => exact .failed ..
  | left q h => exact .left q (himp h)

theorem update (h : Gathering machine cohort rounds) (ht : machine.threads[i]? = some t)
    (hs : cohort[i]? = some s) (halive : t.result? = none)
    {shared : Shared M.Payload}
    (hkeep : (∀ e p, s ≠ .failed e p) ∨ s' = s)
    (harrive : shared.arrive.Filling cohort.length rounds
      ((machine.threads.set i t').countP (Thread.waitsAt .arrive)))
    (hexchanged : shared.exchanged.Idle cohort.length rounds)
    (hpublished : shared.published.Idle cohort.length rounds)
    (hminimums : shared.minimums = machine.shared.minimums)
    (hinboxes : shared.inboxes = machine.shared.inboxes)
    (haborted : shared.arrive.aborted = true ∨ shared.exchanged.aborted = true ∨
      shared.published.aborted = true → Cohort.Broken (cohort.set i s'))
    (hstand : Gathers rounds machine.shared.minimums (Cohort.Broken (cohort.set i s')) t' s') :
    Gathering (machine.update i shared t') (cohort.set i s') rounds := by
  obtain ⟨harriveUp, hexchangedUp, hpublishedUp⟩ :
      (machine.update i shared t').shared.arrive = shared.arrive ∧
      (machine.update i shared t').shared.exchanged = shared.exchanged ∧
      (machine.update i shared t').shared.published = shared.published :=
    have h := Machine.barrier_update machine i shared t'
    ⟨h .arrive, h .exchanged, h .published⟩
  have hinbox : ∀ j : Nat, (machine.update i shared t').shared.inboxes[j]? =
      if t'.result?.isSome then (machine.shared.inboxes.set i none)[j]?
      else machine.shared.inboxes[j]? := by
    intro j
    rw [Machine.inboxes_update, hinboxes]
    split <;> rfl
  have hlt : i < machine.shared.inboxes.length :=
    (List.getElem?_eq_some_iff.mp (h.inboxes i t ht)).1
  constructor
  case size =>
    show (machine.threads.set i t').length = _
    rw [List.length_set, List.length_set]
    exact h.size
  case slots =>
    rw [Machine.minimums_update, hminimums, List.length_set]
    exact h.slots
  case arrive =>
    rw [harriveUp, List.length_set]
    exact harrive
  case exchanged =>
    rw [hexchangedUp, List.length_set]
    exact hexchanged
  case published =>
    rw [hpublishedUp, List.length_set]
    exact hpublished
  case aborted =>
    rw [harriveUp, hexchangedUp, hpublishedUp]
    exact haborted
  case stands =>
    rw [Machine.minimums_update, hminimums]
    refine forall_set ?_ ⟨s', getElem?_set_of_some hs, hstand⟩
    intro j x hji hx
    obtain ⟨y, hy, hgathers⟩ := h.stands j x hx
    refine ⟨y, ?_, mono (fun hb => hb.set hs hkeep) hgathers⟩
    rw [List.getElem?_set_ne hji.symm]
    exact hy
  case inboxes =>
    refine forall_set ?_ ?_
    · intro j x hji hx
      rw [hinbox, List.getElem?_set_ne hji.symm, ite_self]
      exact h.inboxes j x hx
    · rw [hinbox, h.inboxes i t ht, halive, List.getElem?_set_self hlt]
      split <;> rfl

/-- A thread goes on for which the cohort does not change, and neither do those who wait. -/
theorem lag (h : Gathering machine cohort rounds) (ht : machine.threads[i]? = some t)
    (hs : cohort[i]? = some s) (halive : t.result? = none) (hwaits : t.waitsAt .arrive = false)
    (hwaits' : t'.waitsAt .arrive = false)
    (hstand : Gathers rounds machine.shared.minimums cohort.Broken t' s) :
    Gathering (machine.update i machine.shared t') cohort rounds := by
  have hself := set_self_of_some hs
  have hcount : (machine.threads.set i t').countP (Thread.waitsAt .arrive) =
      machine.threads.countP (Thread.waitsAt .arrive) := by
    rw [countP_set_of_some ht hwaits, hwaits']
    rfl
  have hupdate : Gathering (machine.update i machine.shared t') (cohort.set i s) rounds :=
    h.update ht hs halive (Or.inr rfl) (by rw [hcount]; exact h.arrive) h.exchanged h.published
      rfl rfl (by rw [hself]; exact h.aborted) (by rw [hself]; exact hstand)
  rwa [hself] at hupdate

theorem work {work : Work} {p : Partition M} (h : Gathering machine cohort rounds)
    (ht : machine.threads[i]? = some (.running work p))
    (hs : cohort[i]? = some (.running work p)) :
    Gathering (machine.update i machine.shared (Thread.workOn work p))
      (cohort.set i (Thread.workOn work p).stance) rounds := by
  have hafresh := Thread.afresh_workOn work p
  refine h.update ht hs rfl (Or.inl (by simp)) ?_ h.exchanged h.published rfl rfl ?_
    (hafresh.gathers ..)
  · rw [countP_set_of_some ht rfl, hafresh.not_waiting]
    exact h.arrive
  · intro haborted
    exact (h.aborted haborted).set hs (Or.inl (by simp))

/-- A thread that leaves aborts one barrier after the other. -/
theorem abort {gate : Gate} {e : RunError} {p : Partition M}
    (h : Gathering machine cohort rounds) (ht : machine.threads[i]? = some (.aborting gate e p))
    (hs : cohort[i]? = some s) (hbroken : cohort.Broken)
    (hwaits' : t'.waitsAt .arrive = false)
    (hstand : Gathers rounds machine.shared.minimums cohort.Broken t' s) :
    Gathering (machine.update i (machine.shared.abortAt gate) t') cohort rounds := by
  have hself := set_self_of_some hs
  have hcount : (machine.threads.set i t').countP (Thread.waitsAt .arrive) =
      machine.threads.countP (Thread.waitsAt .arrive) := by
    rw [countP_set_of_some ht rfl, hwaits']
    rfl
  have harrive : (machine.shared.abortAt gate).arrive.Filling cohort.length rounds
      ((machine.threads.set i t').countP (Thread.waitsAt .arrive)) := by
    rw [hcount]
    cases gate with
    | arrive => exact Barrier.filling_abort h.arrive.participants h.arrive.generation _
    | exchanged => exact h.arrive
    | published => exact h.arrive
  have hexchanged : (machine.shared.abortAt gate).exchanged.Idle cohort.length rounds := by
    cases gate with
    | arrive => exact h.exchanged
    | exchanged => exact h.exchanged.abort
    | published => exact h.exchanged
  have hpublished : (machine.shared.abortAt gate).published.Idle cohort.length rounds := by
    cases gate with
    | arrive => exact h.published
    | exchanged => exact h.published
    | published => exact h.published.abort
  have hupdate : Gathering (machine.update i (machine.shared.abortAt gate) t') (cohort.set i s)
      rounds :=
    h.update ht hs rfl (Or.inr rfl) harrive hexchanged hpublished (by cases gate <;> rfl)
      (by cases gate <;> rfl) (by rw [hself]; exact fun _ => hbroken)
      (by rw [hself]; exact hstand)
  rwa [hself] at hupdate

theorem turnAway {q : Party M} {round : Round M.Payload} (h : Gathering machine cohort rounds)
    (ht : machine.threads[i]? = some (.syncing q.work q.partition round))
    (hs : cohort[i]? = some (.ready q)) (haborted : machine.shared.arrive.aborted = true) :
    Gathering (machine.update i machine.shared (Thread.fail (.aborted q.partition.id) q.partition))
      cohort rounds := by
  have hself := set_self_of_some hs
  have hbroken := h.aborted (Or.inl haborted)
  have hupdate : Gathering
      (machine.update i machine.shared (Thread.fail (.aborted q.partition.id) q.partition))
      (cohort.set i (.ready q)) rounds :=
    h.update ht hs rfl (Or.inr rfl) (h.arrive.of_aborted haborted _) h.exchanged h.published
      rfl rfl (by rw [hself]; exact fun _ => hbroken)
      (by rw [hself]; exact .turnedAway .arrive q hbroken)
  rwa [hself] at hupdate

theorem wait {q : Party M} (h : Gathering machine cohort rounds)
    (ht : machine.threads[i]? = some (.syncing q.work q.partition { kind := q.kind }))
    (hs : cohort[i]? = some (.ready q)) {barrier : Barrier}
    (hfilling : barrier.Filling cohort.length rounds
      (machine.threads.countP (Thread.waitsAt .arrive) + 1))
    (hflag : barrier.aborted = machine.shared.arrive.aborted) :
    Gathering (machine.update i (machine.shared.setBarrier .arrive barrier)
      (.syncing q.work q.partition { kind := q.kind, position := .waiting .arrive rounds }))
      cohort rounds := by
  have hself := set_self_of_some hs
  generalize ht' : Thread.syncing q.work q.partition
    { kind := q.kind, position := .waiting .arrive rounds } = t'
  have harrive : barrier.Filling cohort.length rounds
      ((machine.threads.set i t').countP (Thread.waitsAt .arrive)) := by
    rw [← ht', countP_set_of_some ht rfl]
    exact hfilling
  have hupdate : Gathering (machine.update i (machine.shared.setBarrier .arrive barrier) t')
      (cohort.set i (.ready q)) rounds := by
    refine h.update ht hs rfl (Or.inr rfl) harrive h.exchanged h.published rfl rfl ?_
      (by rw [hself, ← ht']; exact .waiting q)
    rw [hself]
    intro haborted
    refine h.aborted (Or.imp_left ?_ haborted)
    intro hbarrier
    exact hflag ▸ hbarrier
  rwa [hself] at hupdate

end Gathering

end Lookahead
