import Lookahead.Proofs.Leaving
import Lookahead.Proofs.Relay

/-!
Nobody gets stuck.

As long as some partition has not returned, some partition can go on. Whoever fails tells the first
gate in its next step, and from then on everyone can go on (`Tracks.step?_ne_none`), so a failure
keeps nobody waiting. Whoever waits for a round that is complete passes the gate, aborted or not.
-/

namespace Lookahead

variable {M : Model}

namespace Machine

variable {machine next later : Machine M} {i j : Nat} {t : Thread M} {e : RunError}
  {schedule : List PartitionId} {trace : List (PartitionId × Dispatch M)}

theorem threads_step_ne (h : machine.step? i = some next) (hij : i ≠ j) :
    next.threads[j]? = machine.threads[j]? := by
  obtain ⟨t, shared, t', _, _, rfl⟩ := step?_eq_some_iff.mp h
  exact List.getElem?_set_ne hij

/-- A thread that makes no step stays where it is. -/
theorem threads_run_of_not_mem (h : (system M).Run machine schedule trace later)
    (hj : j ∉ schedule) : later.threads[j]? = machine.threads[j]? := by
  induction h with
  | refl => rfl
  | @step schedule trace x y i _ hstep ih =>
    rw [List.mem_append, List.mem_singleton, not_or] at hj
    rw [threads_step_ne hstep (Ne.symm hj.2), ih hj.1]

theorem exists_step_of_thread {shared : Shared M.Payload} {t' : Thread M}
    (ht : machine.threads[i]? = some t) (h : t.step? machine.shared = some (shared, t')) :
    ∃ next, machine.step? i = some next ∧ next.threads[i]? = some t' ∧
      ∀ gate, next.shared.barrier gate = shared.barrier gate :=
  ⟨machine.update i shared t', step?_eq_some_iff.mpr ⟨t, shared, t', ht, h, rfl⟩,
    getElem?_set_of_some ht, barrier_update machine i shared t'⟩

/-- A thread can go on if its own next step is possible. -/
theorem step?_ne_none (ht : machine.threads[i]? = some t) (h : t.step? machine.shared ≠ none) :
    machine.step? i ≠ none := by
  obtain ⟨⟨shared, t'⟩, hstep⟩ := Option.ne_none_iff_exists'.mp h
  obtain ⟨next, hnext, _⟩ := exists_step_of_thread ht hstep
  rw [hnext]
  exact Option.some_ne_none _

/-! ## Failures -/

/-- Whoever has failed and gone on has told the first gate. -/
def Told (machine : Machine M) : Prop := ∀ (i : Nat) (t : Thread M),
  machine.threads[i]? = some t → t.told = true → machine.shared.arrive.aborted = true

/-- A step of a thread that has failed is to abort a barrier, the first gate first. -/
theorem told_of_moves {shared' : Shared M.Payload} {t' : Thread M}
    (h : t.Moves machine.shared shared' t') (hold : t.told = true →
      machine.shared.arrive.aborted = true) (ht : t'.told = true) :
    shared'.arrive.aborted = true := by
  cases h with
  | work work p =>
    rw [Thread.told_workOn] at ht
    cases ht
  | arrive work p round gate hposition =>
    exfalso
    revert ht
    cases (machine.shared.barrier gate).arrive.2 <;> exact Bool.false_ne_true
  | look work p round gate generation hposition =>
    exfalso
    revert ht
    cases (machine.shared.barrier gate).look generation <;> exact Bool.false_ne_true
  | goes work p q round next _ hbarriers => cases ht
  | lost work p q round target box batch => rfl
  | conclude work p round slot least _ meeting hposition hafresh hpace hsound =>
    rw [Thread.told_of_error? hsound] at ht
    cases ht
  | abort gate e p _ htarget =>
    cases gate with
    | arrive => rfl
    | exchanged => exact hold rfl
    | published => exact hold rfl

theorem Told.step (h : machine.Told) (hstep : machine.step? i = some next) : next.Told := by
  obtain ⟨t, shared, t', ht, hmoves, rfl⟩ := moves_of_step? hstep
  have harrive : (machine.update i shared t').shared.arrive = shared.arrive :=
    barrier_update machine i shared t' .arrive
  show ∀ (j : Nat) (u : Thread M), (machine.threads.set i t')[j]? = some u → _
  rw [harrive]
  refine forall_set (fun j u _ hu htold => ?_) (told_of_moves hmoves (h i t ht))
  exact (hmoves.later .arrive).aborted (h j u hu htold)

/-- A failure is for good, and whoever makes a step after it tells the first gate. -/
theorem error?_step (ht : machine.threads[i]? = some t) (he : t.error? = some e)
    (hstep : machine.step? j = some next) :
    ∃ t', next.threads[i]? = some t' ∧ t'.error? = some e ∧
      (t.told = true ∨ i = j → t'.told = true) := by
  by_cases hij : i = j
  · subst hij
    obtain ⟨u, shared, t', hu, hmoves, rfl⟩ := moves_of_step? hstep
    rw [ht] at hu
    cases hu
    refine ⟨t', getElem?_set_of_some ht, ?_⟩
    cases hmoves with
    | abort gate e' p _ htarget =>
      cases he
      rw [htarget]
      cases gate <;> exact ⟨rfl, fun _ => rfl⟩
    | _ => cases he
  · refine ⟨t, (threads_step_ne hstep (Ne.symm hij)).trans ht, he, ?_⟩
    rintro (htold | heq)
    · exact htold
    · exact absurd heq hij

theorem error?_run (h : (system M).Run machine schedule trace later)
    (ht : machine.threads[i]? = some t) (he : t.error? = some e) :
    ∃ t', later.threads[i]? = some t' ∧ t'.error? = some e ∧
      (t.told = true ∨ i ∈ schedule → t'.told = true) := by
  induction h with
  | refl => exact ⟨t, ht, he, by simp⟩
  | @step schedule trace x y j _ hstep ih =>
    obtain ⟨u, hu, hue, htold⟩ := ih
    obtain ⟨v, hv, hve, htold'⟩ := error?_step hu hue hstep
    refine ⟨v, hv, hve, fun hcome => htold' ?_⟩
    rw [List.mem_append, List.mem_singleton, ← or_assoc] at hcome
    exact hcome.imp_left htold

end Machine

namespace Tracks

variable {machine : Machine M} {cohort : Cohort M} {i j : Nat} {t : Thread M}

/-- Once the first gate is aborted, everyone can go on who has not returned. -/
theorem step?_ne_none (h : Tracks machine cohort) (haborted : machine.shared.arrive.aborted = true)
    (ht : machine.threads[j]? = some t) (halive : t.result? = none) : machine.step? j ≠ none := by
  refine Machine.step?_ne_none ht ?_
  cases h with
  | handing rounds parties hne hready h =>
    rw [h.sound.1] at haborted
    cases haborted
  | taking rounds parties hne hready h =>
    rw [h.sound.1] at haborted
    cases haborted
  | gathering rounds h =>
    obtain ⟨s, _, hgathers⟩ := h.stands j t ht
    cases hgathers with
    | waiting q =>
      have hlook := Barrier.look_eq_turnedAway_iff.mpr ⟨h.arrive.generation, haborted⟩
      rw [Thread.step?_gathered, hlook]
      exact Option.some_ne_none _
    | released q incoming generation hne =>
      have hlook : (machine.shared.barrier .published).look generation = .passed :=
        h.published.look hne
      rw [Thread.step?_waiting, hlook]
      exact Option.some_ne_none _
    | running work p => exact exists_step rfl fun _ => rfl
    | entering q => exact exists_step rfl fun _ => rfl
    | reading q incoming slot least => exact exists_step rfl fun _ => rfl
    | failing gate e p => exact exists_step rfl fun _ => rfl
    | turnedAway gate q h => exact exists_step rfl fun _ => rfl
    | ended stop p => cases halive
    | failed e p => cases halive
    | left q h => cases halive

/-- Nobody waits for a partition that has returned without a failure. -/
theorem not_ready_of_ended {S : Setting} {m : Moment} (hagrees : cohort.Agrees S m)
    (hdeparts : cohort.Departs S) {stop : StopReason} {p : Partition M} {q : Party M}
    (hi : cohort[i]? = some (.ended stop p)) (hj : cohort[j]? = some (.ready q)) : False := by
  cases hlifecycle : S.lifecycle with
  | true =>
    rcases hdeparts.ends hlifecycle i _ hi rfl j _ hj with hready | hready <;> cases hready
  | false =>
    have hfits := hagrees j _ hj
    cases hagrees i _ hi with
    | gone least stop p hleaves h =>
      rcases hfits.ready_timed with ⟨hstays, _⟩ | ⟨_, stop', p', own, rfl, _⟩
      · exact hstays hleaves
      · have := hdeparts.stages j _ hj rfl
        rw [hlifecycle] at this
        cases this
    | finished stop p h => cases hfits

/-- As long as someone has not returned, someone can go on. -/
theorem exists_step_of_alive {S : Setting} {m : Moment} (h : Tracks machine cohort)
    (htold : machine.Told) (hagrees : cohort.Agrees S m) (hdeparts : cohort.Departs S)
    (ht : machine.threads[j]? = some t) (halive : t.result? = none) :
    ∃ i, machine.step? i ≠ none := by
  refine Classical.byContradiction fun hnone => ?_
  have hhalted : (Machine.system M).Halted machine :=
    fun i => Classical.byContradiction fun hstep => hnone ⟨i, hstep⟩
  have hsound : machine.shared.arrive.aborted = false := by
    rw [← Bool.not_eq_true]
    exact fun haborted => h.step?_ne_none haborted ht halive (hhalted j)
  cases h with
  | handing rounds parties hne hready h => exact not_halted_handing h hhalted
  | taking rounds parties hne hready h => exact not_halted_taking h hhalted
  | gathering rounds h =>
    obtain ⟨s, hs, hgathers⟩ := h.stands j t ht
    rcases lags_on h (waits_of_stuck (hhalted j) ht) hgathers with ⟨q, rfl, _⟩ | hended
    · -- The one that has not returned waits, so someone else is missing at the gate.
      refine not_all_waiting h.size h.arrive hsound fun k u hu => ?_
      obtain ⟨s', hs', hgathers'⟩ := h.stands k u hu
      rcases lags_on h (waits_of_stuck (hhalted k) hu) hgathers' with ⟨_, _, hwaits⟩ | hended
      · exact hwaits
      · exfalso
        have hfailed : u.told = true → False := by
          intro hu'
          rw [htold k u hu hu'] at hsound
          cases hsound
        cases hgathers' with
        | ended stop p => exact not_ready_of_ended hagrees hdeparts hs' hs
        | failed e p => exact hfailed rfl
        | left q h => exact hfailed rfl
        | _ => cases hended
    · rw [halive] at hended
      cases hended

end Tracks

namespace Simulation

variable {b : Builder M} {log : List (Planned M.Payload)} {simulation : Simulation M}
  {trace : List (PartitionId × Dispatch M)} {machine : Machine M}

theorem Reaches.trans {schedule : List PartitionId} {seen : List (PartitionId × Dispatch M)}
    {later : Machine M} (h : simulation.Reaches trace machine)
    (hrun : (Machine.system M).Run machine schedule seen later) :
    simulation.Reaches (trace ++ seen) later := by
  obtain ⟨front, hfront⟩ := h
  exact ⟨front ++ schedule, hfront.trans hrun⟩

theorem Reaches.told (h : simulation.Reaches trace machine) : machine.Told := by
  obtain ⟨schedule, hrun⟩ := h
  refine hrun.invariant (P := Machine.Told) ?_ fun _ _ _ hx hstep => hx.step hstep
  intro i t ht htold
  obtain ⟨p, _, rfl⟩ := exists_thread_start ht
  cases htold

/-- Once the first gate is aborted, everyone can go on who has not returned. -/
theorem Reaches.step?_ne_none (hb : b.Made log) (hbuild : b.build = .ok simulation)
    (h : simulation.Reaches trace machine) (haborted : machine.shared.arrive.aborted = true)
    {j : Nat} {t : Thread M} (ht : machine.threads[j]? = some t) (halive : t.result? = none) :
    machine.step? j ≠ none := by
  obtain ⟨_, _, _, htracks, _⟩ := h.cohort hb hbuild
  exact htracks.step?_ne_none haborted ht halive

/-- Whoever waits for a completed round passes the gate, whatever happens in the meantime. -/
theorem Reaches.passes (hb : b.Made log) (hbuild : b.build = .ok simulation)
    (h : simulation.Reaches trace machine) {i generation : Nat} {work : Work} {p : Partition M}
    {round : Round M.Payload} {gate : Gate}
    (ht : machine.threads[i]? = some (.syncing work p round))
    (hposition : round.position = .waiting gate generation)
    (hcomplete : (machine.shared.barrier gate).generation ≠ generation)
    {schedule : List PartitionId} {seen : List (PartitionId × Dispatch M)} {later : Machine M}
    (hrun : (Machine.system M).Run machine schedule seen later) (hi : i ∉ schedule) :
    ∃ next, later.step? i = some next ∧
      next.threads[i]? = some (.syncing work p (round.moveTo (Round.behind gate))) := by
  have htimely := h.timely hb hbuild i _ ht
  have hgeneration := htimely.waits gate generation (Thread.awaits?_waiting hposition)
  have hlater := (Machine.later_run hrun gate).generation
  have hne : (later.shared.barrier gate).generation ≠ generation := by
    rcases htimely.reach gate with heq | ⟨heq, _⟩ <;> omega
  have hlook := Barrier.look_eq_passed_iff.mpr hne
  have hstep : Thread.step? later.shared (.syncing work p round) =
      some (later.shared, .syncing work p (round.moveTo (Round.behind gate))) := by
    rw [← Thread.moveTo_position round, hposition, Thread.step?_waiting, hlook]
    rfl
  obtain ⟨next, hnext, hthread, _⟩ := Machine.exists_step_of_thread
    ((Machine.threads_run_of_not_mem hrun hi).trans ht) hstep
  exact ⟨next, hnext, hthread⟩

/-- Once a partition has failed, whoever cannot go on at the moment can do so after the next step of
that partition. -/
theorem Reaches.unblocked (hb : b.Made log) (hbuild : b.build = .ok simulation)
    (h : simulation.Reaches trace machine) {i j : Nat} {t u : Thread M} {e : RunError}
    (ht : machine.threads[i]? = some t) (he : t.error? = some e)
    (hu : machine.threads[j]? = some u) (halive : u.result? = none)
    (hstuck : machine.step? j = none) :
    ∃ next, machine.step? i = some next ∧ next.step? j ≠ none := by
  have hsound : machine.shared.arrive.aborted ≠ true :=
    fun haborted => h.step?_ne_none hb hbuild haborted hu halive hstuck
  have htold : t.told ≠ true := fun htold => hsound (h.told i t ht htold)
  obtain ⟨p, rfl⟩ : ∃ p, t = .aborting .arrive e p := by
    cases t with
    | aborting gate e' p =>
      cases he
      cases gate with
      | arrive => exact ⟨p, rfl⟩
      | exchanged => exact absurd rfl htold
      | published => exact absurd rfl htold
    | ended result p =>
      cases result with
      | ok stop => cases he
      | error e' => exact absurd rfl htold
    | _ => cases he
  have hstep : Thread.step? machine.shared (.aborting .arrive e p) =
      some (machine.shared.abortAt .arrive, .aborting .exchanged e p) := rfl
  obtain ⟨next, hnext, _, hbarriers⟩ := Machine.exists_step_of_thread ht hstep
  refine ⟨next, hnext, ?_⟩
  have hij : i ≠ j := by
    rintro rfl
    rw [hnext] at hstuck
    cases hstuck
  refine (h.trans (.step .refl hnext)).step?_ne_none hb hbuild ?_
    ((Machine.threads_step_ne hnext hij).trans hu) halive
  exact congrArg Barrier.aborted (hbarriers .arrive)

/-- No deadlock, with or without failures. As long as some partition has not returned, some
partition can go on. Once a partition has failed, everyone else can go on, after its next step at
the latest, and whoever has failed can always go on. A failure does not hold up those whose round is
complete. -/
theorem no_deadlock (hb : b.Made log) (hbuild : b.build = .ok simulation)
    (h : simulation.Reaches trace machine) :
    ((∃ t ∈ machine.threads, t.result? = none) → ∃ i, machine.step? i ≠ none) ∧
    (∀ (i : Nat) (t : Thread M) (e : RunError), machine.threads[i]? = some t →
      t.error? = some e → ∀ (schedule : List PartitionId) (seen : List (PartitionId × Dispatch M))
        (later : Machine M), (Machine.system M).Run machine schedule seen later →
        ∀ (j : Nat) (u : Thread M), later.threads[j]? = some u → u.result? = none →
          (j = i ∨ t.result?.isSome ∨ i ∈ schedule → later.step? j ≠ none) ∧
          (later.step? j = none →
            ∃ next, later.step? i = some next ∧ next.step? j ≠ none)) ∧
    (∀ (i generation : Nat) (work : Work) (p : Partition M) (round : Round M.Payload) (gate : Gate),
      machine.threads[i]? = some (.syncing work p round) →
      round.position = .waiting gate generation →
      (machine.shared.barrier gate).generation ≠ generation →
      ∀ (schedule : List PartitionId) (seen : List (PartitionId × Dispatch M)) (later : Machine M),
        (Machine.system M).Run machine schedule seen later → i ∉ schedule →
        ∃ next, later.step? i = some next ∧
          next.threads[i]? = some (.syncing work p (round.moveTo (Round.behind gate)))) := by
  refine ⟨?_, ?_, ?_⟩
  · rintro ⟨t, ht, halive⟩
    obtain ⟨j, hj⟩ := List.mem_iff_getElem?.mp ht
    obtain ⟨_, cohort, hrun, htracks, _⟩ := h.cohort hb hbuild
    obtain ⟨_, m, hagrees⟩ := agrees_run hb hbuild hrun
    exact htracks.exists_step_of_alive h.told hagrees
      (departs_run hb hbuild hrun) hj halive
  · intro i t e ht he schedule seen later hrun j u hu halive
    have hlater := h.trans hrun
    obtain ⟨t', ht', he', htold⟩ := Machine.error?_run hrun ht he
    refine ⟨?_, hlater.unblocked hb hbuild ht' he' hu halive⟩
    rintro (rfl | hcome)
    · rw [ht'] at hu
      obtain rfl := Option.some.inj hu
      refine Machine.step?_ne_none ht' ?_
      cases hthread : t' with
      | aborting gate e' p => exact Tracks.exists_step rfl fun _ => rfl
      | ended result p =>
        rw [hthread] at halive
        cases halive
      | _ =>
        rw [hthread] at he'
        cases he'
    · refine hlater.step?_ne_none hb hbuild ?_ hu halive
      refine hlater.told i t' ht' (htold (hcome.imp_left fun hended => ?_))
      cases t with
      | ended result p =>
        cases result with
        | ok stop => cases he
        | error e' => rfl
      | _ => cases hended
  · intro i generation work p round gate ht hposition hcomplete schedule seen later hrun hi
    exact h.passes hb hbuild ht hposition hcomplete hrun hi

/-- In a relay whose second partition cannot receive the token, the first one waits for a round that
never takes place. It can go on as soon as the second one has told the gate of its failure. -/
theorem no_deadlock_relay : ∃ trace machine t u e next,
    (Relay.crewed 1 2 (some Relay.runner) none).Reaches trace machine ∧
    machine.threads[1]? = some t ∧ t.error? = some e ∧
    machine.threads[0]? = some u ∧ u.result? = none ∧ machine.step? 0 = none ∧
    machine.step? 1 = some next ∧ next.step? 0 ≠ none := by
  have h := Relay.reaches_run (Relay.crewed 1 2 (some Relay.runner) none)
    ((Relay.turns 0).take 31 ++ [0])
  obtain ⟨t, ht, he⟩ : ∃ t, (Relay.run (Relay.crewed 1 2 (some Relay.runner) none)
      ((Relay.turns 0).take 31 ++ [0])).2.threads[1]? = some t ∧
        t.error? = some (.unhandled 1 0) := ⟨_, rfl, rfl⟩
  obtain ⟨u, hu, halive⟩ : ∃ u, (Relay.run (Relay.crewed 1 2 (some Relay.runner) none)
      ((Relay.turns 0).take 31 ++ [0])).2.threads[0]? = some u ∧ u.result? = none := ⟨_, rfl, rfl⟩
  have hstuck : (Relay.run (Relay.crewed 1 2 (some Relay.runner) none)
      ((Relay.turns 0).take 31 ++ [0])).2.step? 0 = none := rfl
  obtain ⟨_, hfailed, _⟩ := no_deadlock (Relay.made_crew 1 2 (some Relay.runner) none)
    (Relay.build_crew 1 2 (some Relay.runner) none) h
  obtain ⟨_, hnext⟩ := hfailed 1 t _ ht he _ _ _ .refl 0 u hu halive
  obtain ⟨next, hstep, hfree⟩ := hnext hstuck
  exact ⟨_, _, t, u, _, next, h, ht, he, hu, halive, hstuck, hstep, hfree⟩

end Simulation

end Lookahead
