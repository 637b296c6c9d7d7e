import Lookahead.Proofs.Build
import Lookahead.Proofs.Tracking

/-!
Whole runs: where a machine comes from, where it can come to a halt, and what it has come to then.

A thread can only be stuck at a gate or because it has ended. So if a machine comes to a halt,
either the cohort has come to a halt as well or everyone waits at one gate, and a gate never keeps
everyone waiting.
-/

namespace Lookahead

variable {M : Model}

/-! ## The start -/

namespace Simulation

def cohort (simulation : Simulation M) : Cohort M :=
  simulation.partitions.map fun p => (Thread.start p).stance

def Reaches (simulation : Simulation M) (trace : List (PartitionId × Dispatch M))
    (machine : Machine M) : Prop :=
  ∃ schedule, (Machine.system M).Run simulation.machine schedule trace machine

/-- No step adds a thread or takes one away. -/
theorem Reaches.length_threads {simulation : Simulation M}
    {trace : List (PartitionId × Dispatch M)} {machine : Machine M}
    (h : simulation.Reaches trace machine) :
    machine.threads.length = simulation.partitions.length := by
  obtain ⟨schedule, hrun⟩ := h
  refine hrun.invariant (P := fun machine : Machine M =>
    machine.threads.length = simulation.partitions.length) (List.length_map ..) ?_
  intro x i y hx hstep
  obtain ⟨t, shared, t', _, _, rfl⟩ := Machine.step?_eq_some_iff.mp hstep
  exact (List.length_set ..).trans hx

theorem exists_thread_start {simulation : Simulation M} {i : Nat} {t : Thread M}
    (ht : simulation.machine.threads[i]? = some t) :
    ∃ p, simulation.partitions[i]? = some p ∧ t = Thread.start p := by
  have ht' : (simulation.partitions.map Thread.start)[i]? = some t := ht
  rw [List.getElem?_map] at ht'
  obtain ⟨p, hp, rfl⟩ := Option.map_eq_some_iff.mp ht'
  exact ⟨p, hp, rfl⟩

theorem exists_stance_start {simulation : Simulation M} {i : Nat} {s : Stance M}
    (hs : simulation.cohort[i]? = some s) :
    ∃ p, simulation.partitions[i]? = some p ∧ s = (Thread.start p).stance := by
  unfold cohort at hs
  rw [List.getElem?_map] at hs
  obtain ⟨p, hp, rfl⟩ := Option.map_eq_some_iff.mp hs
  exact ⟨p, hp, rfl⟩

theorem tracks_start {simulation : Simulation M} (hpos : 0 < simulation.partitions.length) :
    Tracks simulation.machine simulation.cohort := by
  have hlength : simulation.cohort.length = simulation.partitions.length := List.length_map ..
  have hmax : max simulation.partitions.length 1 = simulation.partitions.length := by omega
  have hcount : (simulation.partitions.map Thread.start).countP (Thread.waitsAt .arrive) = 0 := by
    rw [List.countP_eq_zero]
    intro t ht
    obtain ⟨p, _, rfl⟩ := List.mem_map.mp ht
    simp [Thread.start, Thread.waitsAt]
  refine .gathering 0 ?_
  constructor
  case size => exact (List.length_map ..).trans hlength.symm
  case slots => exact (List.length_replicate ..).trans hlength.symm
  case arrive =>
    rw [hlength]
    show (Barrier.ofParticipants _).Filling _ _ ((simulation.partitions.map _).countP _)
    rw [hcount]
    exact ⟨hmax, rfl, fun _ => rfl, fun _ => hpos⟩
  case exchanged =>
    rw [hlength]
    exact ⟨hmax, rfl, rfl⟩
  case published =>
    rw [hlength]
    exact ⟨hmax, rfl, rfl⟩
  case aborted =>
    intro haborted
    rcases haborted with h | h | h <;> cases h
  case stands =>
    intro j t hj
    obtain ⟨p, hp, rfl⟩ := exists_thread_start hj
    refine ⟨_, ?_, .running _ _⟩
    simp only [cohort, List.getElem?_map, hp]
    rfl
  case inboxes =>
    intro j t hj
    obtain ⟨p, hp, rfl⟩ := exists_thread_start hj
    have hlt := (List.getElem?_eq_some_iff.mp hp).1
    show (List.replicate _ (some []))[j]? = _
    rw [List.getElem?_replicate, if_pos hlt]
    rfl

theorem placed_start {b : Builder M} {log : List (Planned M.Payload)} {simulation : Simulation M}
    (hb : b.Made log) (hbuild : b.build = .ok simulation) : simulation.cohort.Placed := by
  intro i s hs
  have hlength : simulation.cohort.length = simulation.partitions.length := List.length_map ..
  obtain ⟨p, hp, rfl⟩ := exists_stance_start hs
  obtain ⟨_, hfresh⟩ := (hb.build hbuild).2.2 i p hp
  obtain ⟨profile, hmember⟩ := hfresh.member
  rw [hlength]
  refine ⟨hfresh.id, ?_, ?_⟩
  · exact congrArg Member.id hmember
  · have : (Thread.start p).stance.partition.member = p.member := rfl
    rw [this, hmember]
    exact List.length_replicate ..

end Simulation

/-! ## Runs -/

namespace Tracks

variable {machine next : Machine M} {cohort : Cohort M}

theorem run {schedule : List PartitionId} {trace : List (PartitionId × Dispatch M)}
    (hrun : (Machine.system M).Run machine schedule trace next) (h : Tracks machine cohort)
    (hplaced : cohort.Placed) :
    ∃ labels cohort', (Cohort.system M).Run cohort labels trace cohort' ∧ Tracks next cohort' ∧
      cohort'.Placed := by
  induction hrun with
  | refl => exact ⟨[], cohort, .refl, h, hplaced⟩
  | step _ hstep ih =>
    obtain ⟨labels, middle, hrun, htracks, hmiddle⟩ := ih
    obtain ⟨more, cohort', hmore, hnext⟩ := htracks.step hmiddle hstep
    refine ⟨labels ++ more, cohort', hrun.trans hmore, hnext, ?_⟩
    exact hmore.invariant hmiddle fun _ _ _ hx hxy => hx.step hxy

/-! ## Halting -/

theorem exists_step {shared : Shared M.Payload} {t : Thread M} (halive : t.result? = none)
    (hfree : ∀ gate, t.waitsAt gate = false) : t.step? shared ≠ none := by
  cases t with
  | running work p => simp [Thread.step?]
  | syncing work p round =>
    have hseat : Seat.step? shared ⟨p.member, p.timeline, .going round⟩ ≠ none := by
      unfold Seat.step?
      dsimp only
      split
      · simp
      · rename_i gate generation hposition
        have := hfree gate
        simp [Thread.waitsAt, hposition] at this
      · simp
      · simp
      · simp
      · simp
    simp only [Thread.step?, Thread.syncOn]
    split
    · rename_i hnone
      exact absurd hnone hseat
    · split <;> simp
  | aborting gate e p => cases gate <;> simp [Thread.step?]
  | ended result p => cases halive

theorem waits_of_stuck {j : Nat} {t : Thread M} (hstuck : machine.step? j = none)
    (ht : machine.threads[j]? = some t) : t.step? machine.shared = none := by
  unfold Machine.step? at hstuck
  rw [ht] at hstuck
  cases hstep : t.step? machine.shared with
  | none => rfl
  | some result =>
    simp only [hstep] at hstuck
    cases hstuck

/-- A gate never keeps everyone waiting. -/
theorem not_all_waiting {gate : Gate} {barrier : Barrier} {generation : Nat}
    (hsize : machine.threads.length = n)
    (hfilling : barrier.Filling n generation (machine.threads.countP (Thread.waitsAt gate)))
    (hsound : barrier.aborted = false)
    (hall : ∀ (j : Nat) (t : Thread M), machine.threads[j]? = some t → t.waitsAt gate = true) :
    False := by
  have hcount : machine.threads.countP (Thread.waitsAt gate) = machine.threads.length := by
    rw [List.countP_eq_length]
    intro t hmem
    obtain ⟨j, hj⟩ := List.mem_iff_getElem?.mp hmem
    exact hall j t hj
  have := hfilling.room hsound
  omega

theorem lags_on {rounds : Nat} {t : Thread M} {s : Stance M}
    (h : Gathering machine cohort rounds) (hstuck : t.step? machine.shared = none)
    (hgathers : Gathers rounds machine.shared.minimums cohort.Broken t s) :
    (∃ q, s = .ready q ∧ t.waitsAt .arrive = true) ∨ t.result?.isSome := by
  cases hgathers with
  | waiting q => exact Or.inl ⟨q, rfl, rfl⟩
  | released q incoming generation hne =>
    have hlook : (machine.shared.barrier .published).look generation = .passed :=
      h.published.look hne
    rw [Thread.step?_waiting, hlook] at hstuck
    cases hstuck
  | ended stop p => exact Or.inr rfl
  | failed e p => exact Or.inr rfl
  | left q h => exact Or.inr rfl
  | running work p => exact absurd hstuck (exists_step rfl fun _ => rfl)
  | entering q => exact absurd hstuck (exists_step rfl fun _ => rfl)
  | reading q incoming slot least => exact absurd hstuck (exists_step rfl fun _ => rfl)
  | failing gate e p => exact absurd hstuck (exists_step rfl fun _ => rfl)
  | turnedAway gate q h => exact absurd hstuck (exists_step rfl fun _ => rfl)

/-- Whoever works in the cohort can make a step in the machine. -/
theorem not_running_of_stuck {rounds i : Nat} {work : Work} {p : Partition M}
    (h : Gathering machine cohort rounds) (hstuck : machine.step? i = none) :
    cohort[i]? ≠ some (.running work p) := by
  intro hi
  have hlt : i < machine.threads.length := by
    rw [h.size]
    exact (List.getElem?_eq_some_iff.mp hi).1
  have ht := List.getElem?_eq_getElem hlt
  obtain ⟨s, hs, hgathers⟩ := h.stands i _ ht
  rw [hi] at hs
  cases hs
  rcases lags_on h (waits_of_stuck hstuck ht) hgathers with ⟨q, hq, _⟩ | hended
  · cases hq
  · generalize machine.threads[i] = t at hgathers hended
    generalize hs : Stance.running work p = s at hgathers
    cases hgathers with
    | ended stop p => cases hs
    | failed e p => cases hs
    | left q h => cases hs
    | _ => cases hended

/-- No machine comes to a halt while everyone is ready for a round that has not begun. -/
theorem not_halted_of_ready {rounds : Nat} {parties : List (Party M)}
    (h : Gathering machine (parties.map Stance.ready) rounds) :
    ¬ (Machine.system M).Halted machine := by
  intro hhalted
  have hbroken := Cohort.not_broken_ready parties
  refine not_all_waiting h.size h.arrive ?_ fun j t ht => ?_
  · rw [← Bool.not_eq_true]
    exact fun haborted => hbroken (h.aborted (Or.inl haborted))
  · obtain ⟨s, hs, hgathers⟩ := h.stands j t ht
    rcases lags_on h (waits_of_stuck (hhalted j) ht) hgathers with ⟨_, _, hwaits⟩ | hended
    · exact hwaits
    · rw [List.getElem?_map] at hs
      obtain ⟨q, _, hq⟩ := Option.map_eq_some_iff.mp hs
      cases hgathers with
      | ended stop p => cases hq
      | failed e p => cases hq
      | left q h => exact absurd h hbroken
      | _ => cases hended

/-- Nor while things are handed over. -/
theorem not_halted_handing {rounds : Nat} {parties : List (Party M)}
    (h : Handing machine parties rounds) : ¬ (Machine.system M).Halted machine := by
  intro hhalted
  refine not_all_waiting h.size h.exchanged h.sound.2.1 fun j t ht => ?_
  have hstuck := waits_of_stuck (hhalted j) ht
  obtain ⟨q, _, hhands⟩ := h.stands j t ht
  cases hhands with
  | waiting q => rfl
  | released q generation hne =>
    rw [Thread.step?_gathered, h.arrive.look hne] at hstuck
    cases hstuck
  | handing q d => exact absurd hstuck (exists_step rfl fun _ => rfl)
  | entering q => exact absurd hstuck (exists_step rfl fun _ => rfl)

/-- Nor while they are taken in. -/
theorem not_halted_taking {rounds : Nat} {parties : List (Party M)}
    (h : Taking machine parties rounds) : ¬ (Machine.system M).Halted machine := by
  intro hhalted
  refine not_all_waiting h.size h.published h.sound.2.2 fun j t ht => ?_
  have hstuck := waits_of_stuck (hhalted j) ht
  obtain ⟨q, batches, slot, _, _, _, htakes⟩ := h.stands j t ht
  cases htakes with
  | waiting q => rfl
  | released q batches slot generation hne =>
    have hlook : (machine.shared.barrier .exchanged).look generation = .passed :=
      h.exchanged.look hne
    rw [Thread.step?_waiting, hlook] at hstuck
    cases hstuck
  | collecting q batches slot got => exact absurd hstuck (exists_step rfl fun _ => rfl)
  | publishing q slot => exact absurd hstuck (exists_step rfl fun _ => rfl)
  | entering q => exact absurd hstuck (exists_step rfl fun _ => rfl)

/-- Where a machine comes to a halt, the cohort has come to one, too. -/
theorem halted (h : Tracks machine cohort) (hhalted : (Machine.system M).Halted machine) :
    (Cohort.system M).Halted cohort := by
  intro label
  cases hstep : (Cohort.system M).step? cohort label with
  | none => rfl
  | some next =>
    exfalso
    cases h with
    | gathering rounds h =>
      cases label with
      | some i =>
        obtain ⟨work, p, hi, _⟩ := Cohort.step?_some_iff.mp hstep
        exact not_running_of_stuck h (hhalted i) hi
      | none =>
        obtain ⟨parties, _, rfl, _⟩ := Cohort.exchange?_eq_some_iff.mp hstep
        exact not_halted_of_ready h hhalted
    | handing rounds parties hne hready h => exact not_halted_handing h hhalted
    | taking rounds parties hne hready h => exact not_halted_taking h hhalted

end Tracks

/-- What a run leads to is where the cohort can come to. -/
theorem Simulation.Reaches.cohort {b : Builder M} {log : List (Planned M.Payload)}
    {simulation : Simulation M} {trace : List (PartitionId × Dispatch M)} {machine : Machine M}
    (hb : b.Made log) (hbuild : b.build = .ok simulation)
    (h : simulation.Reaches trace machine) :
    ∃ labels cohort, (Cohort.system M).Run simulation.cohort labels trace cohort ∧
      Tracks machine cohort ∧ cohort.Placed := by
  obtain ⟨schedule, hrun⟩ := h
  exact (tracks_start (hb.build hbuild).1).run hrun (placed_start hb hbuild)

end Lookahead
