import Lookahead.Proofs.Effort
import Lookahead.Proofs.Faults

/-!
Every run of a cohort is that of a machine.

Between two steps of a cohort its machine makes only so many others, as each of them brings some
thread nearer to the end of its round (`Simulation.schedule_le`). So a machine can always be led to
where it makes the next step of the cohort, whichever that is (`Simulation.enact`), and what can be
said of cohorts alone holds of interleavings of threads as well (`Simulation.exists_reaches`).
-/

namespace Lookahead

variable {M : Model}

theorem System.Run.of_singleton {σ ι ω : Type} {sys : System σ ι ω} {s x : σ} {i : ι}
    {trace : List ω} (h : sys.Run s [i] trace x) :
    sys.step? s i = some x ∧ trace = sys.note s i := by
  obtain ⟨y, rest, hstep, hrest, rfl⟩ := h.of_cons
  obtain ⟨rfl, rfl⟩ := hrest.eq_of_nil
  exact ⟨hstep, List.append_nil _⟩

theorem Tracks.rounds_le {machine : Machine M} {cohort : Cohort M} {i : Nat} {t : Thread M}
    (h : Tracks machine cohort) {now : Pace} (hat : cohort.At now)
    (ht : machine.threads[i]? = some t) : t.pace.rounds ≤ now.rounds := by
  rcases h.pace_eq_or_lags hat ht with hpace | ⟨work, p, round, meeting, rfl, _, rfl⟩
  · exact Nat.le_of_eq (congrArg Pace.rounds hpace)
  · rw [Pace.rounds_next]
    exact Nat.le_succ _

/-- Whoever works in the cohort can make a step in the machine. -/
theorem Tracks.step?_ne_none_of_running {machine : Machine M} {cohort : Cohort M} {i : Nat}
    {work : Work} {p : Partition M} (h : Tracks machine cohort)
    (hi : cohort[i]? = some (.running work p)) : machine.step? i ≠ none := by
  have hnotReady : ∀ parties : List (Party M), cohort ≠ parties.map Stance.ready := by
    rintro parties rfl
    rw [List.getElem?_map] at hi
    obtain ⟨_, _, hq⟩ := Option.map_eq_some_iff.mp hi
    cases hq
  cases h with
  | gathering rounds h => exact fun hstuck => Tracks.not_running_of_stuck h hstuck hi
  | handing rounds parties hne hready h => exact absurd hready (hnotReady parties)
  | taking rounds parties hne hready h => exact absurd hready (hnotReady parties)

namespace Simulation

variable {b : Builder M} {log : List (Planned M.Payload)} {simulation : Simulation M}
  {labels : List (Option PartitionId)} {trace seen : List (PartitionId × Dispatch M)}
  {cohort next : Cohort M} {machine : Machine M} {schedule : List PartitionId}

theorem lt_of_mem_schedule {schedule : List PartitionId}
    (hrun : (Machine.system M).Run simulation.machine schedule trace machine) :
    ∀ i ∈ schedule, i < simulation.partitions.length := by
  induction hrun with
  | refl => exact nofun
  | @step schedule seen x y i hfront hstep ih =>
    intro j hj
    rcases List.mem_append.mp hj with hj | hj
    · exact ih j hj
    · obtain rfl := List.mem_singleton.mp hj
      obtain ⟨t, _, _, ht, _⟩ := Machine.step?_eq_some_iff.mp hstep
      rw [← Reaches.length_threads ⟨_, hfront⟩]
      exact (List.getElem?_eq_some_iff.mp ht).1

/-- Where a run of the cohort has dispatched something, it has made a step. -/
theorem length_trace_le (hrun : (Cohort.system M).Run simulation.cohort labels trace cohort) :
    trace.length ≤ labels.length := by
  induction hrun with
  | refl => exact Nat.le_refl _
  | @step schedule seen x y label hfront hstep ih =>
    have hnote : ((Cohort.system M).note x label).length ≤ 1 := by
      cases label with
      | none => exact Nat.zero_le 1
      | some i =>
        show (noteAt i (x[i]?.bind Stance.dispatch?)).length ≤ 1
        cases x[i]?.bind Stance.dispatch? <;> simp [noteAt]
    rw [List.length_append, List.length_append, List.length_singleton]
    omega

/-- The steps of a machine are bounded by the rounds of its cohort and the dispatches. -/
theorem schedule_le (hb : b.Made log) (hbuild : b.build = .ok simulation)
    (hcohort : (Cohort.system M).Run simulation.cohort labels seen cohort)
    (hrun : (Machine.system M).Run simulation.machine schedule trace machine)
    (htracks : Tracks machine cohort) :
    schedule.length ≤ simulation.partitions.length *
      ((labels.count none + 1) * (3 * simulation.partitions.length + 16) + trace.length) := by
  have hthreads : machine.threads.length = simulation.partitions.length :=
    Reaches.length_threads ⟨schedule, hrun⟩
  obtain ⟨now, hat, hnow⟩ :=
    Cohort.At.rounds_run hb hbuild .refl hcohort (onCourse_start hb hbuild).at_now
  have hzero : (⟨0, 0, Time.ofNat simulation.window⟩ : Pace).rounds = 0 := rfl
  rw [hzero, Nat.zero_add] at hnow
  have hcount : ∀ i ∈ List.range simulation.partitions.length, schedule.count i ≤
      (labels.count none + 1) * (3 * simulation.partitions.length + 16) + trace.length := by
    intro i hi
    have hlt := List.mem_range.mp hi
    rw [← hthreads] at hlt
    have ht := List.getElem?_eq_getElem hlt
    have hsteps := steps_le hb hbuild hrun ht
    have hseen : (System.seenOf i trace).length ≤ trace.length := List.length_filterMap_le ..
    have hrounds := htracks.rounds_le hat ht
    rw [hnow] at hrounds
    have hmul := Nat.mul_le_mul_right (3 * simulation.partitions.length + 16)
      (Nat.add_le_add_right hrounds 1)
    omega
  have hlength : schedule.length =
      total (fun i => schedule.count i) (List.range simulation.partitions.length) := by
    rw [length_eq_total, ← total_filter id (fun _ => 1) schedule (lt_of_mem_schedule hrun)]
    refine total_congr fun i _ => ?_
    rw [← length_eq_total, List.count_eq_length_filter]
    rfl
  have htotal := total_le hcount
  rw [List.length_range] at htotal
  rw [hlength]
  exact htotal

/-- A machine can make the next step of its cohort, or another one that nobody sees. -/
theorem exists_step_toward (htracks : Tracks machine cohort) (hplaced : cohort.Placed)
    {label : Option PartitionId} (hnext : cohort.step? label = some next) :
    ∃ i machine', machine.step? i = some machine' ∧
      ((Machine.system M).note machine i = [] ∧ Tracks machine' cohort ∨
        (Machine.system M).note machine i = (Cohort.system M).note cohort label ∧
          Tracks machine' next) := by
  -- Whoever is to work can go on, and before an exchange anyone will do.
  obtain ⟨i, hi, hwork⟩ : ∃ i, machine.step? i ≠ none ∧ ∀ j, label = some j → i = j := by
    cases label with
    | some j =>
      obtain ⟨work, p, hj, _⟩ := Cohort.step?_some_iff.mp hnext
      exact ⟨j, htracks.step?_ne_none_of_running hj, fun _ h => Option.some.inj h⟩
    | none =>
      obtain ⟨i, hi⟩ : ∃ i, machine.step? i ≠ none := by
        refine Classical.byContradiction fun hnone => ?_
        have hhalted : (Machine.system M).Halted machine :=
          fun i => Classical.byContradiction fun hstep => hnone ⟨i, hstep⟩
        have hstuck := htracks.halted hhalted none
        rw [show (Cohort.system M).step? cohort none = some next from hnext] at hstuck
        cases hstuck
      exact ⟨i, hi, nofun⟩
  obtain ⟨machine', hstep⟩ := Option.ne_none_iff_exists'.mp hi
  obtain ⟨t, labels, cohort', ht, hecho, hkeeps⟩ := htracks.echo hplaced hstep
  have hrun := hecho.run ht
  refine ⟨i, machine', hstep, ?_⟩
  cases hecho with
  | nothing hidle => exact Or.inl ⟨hrun.eq_of_nil.2, hkeeps⟩
  | work work p hthread hs =>
    obtain ⟨hcohort, hnote⟩ := hrun.of_singleton
    cases label with
    | some j =>
      obtain rfl := hwork j rfl
      rw [show (Cohort.system M).step? cohort (some i) = some next from hnext] at hcohort
      cases hcohort
      exact Or.inr ⟨hnote, hkeeps⟩
    | none => exact absurd hs (Cohort.not_running_of_exchange hnext)
  | exchange other hidle hother =>
    obtain ⟨hcohort, hnote⟩ := hrun.of_singleton
    cases label with
    | some j =>
      obtain ⟨work, p, hj, _⟩ := Cohort.step?_some_iff.mp hnext
      exact absurd hj (Cohort.not_running_of_exchange hother)
    | none =>
      rw [show (Cohort.system M).step? cohort none = some next from hnext] at hcohort
      cases hcohort
      exact Or.inr ⟨hnote, hkeeps⟩

theorem enact (hb : b.Made log) (hbuild : b.build = .ok simulation)
    (hcohort : (Cohort.system M).Run simulation.cohort labels trace cohort)
    (hrun : (Machine.system M).Run simulation.machine schedule trace machine)
    (htracks : Tracks machine cohort) (hplaced : cohort.Placed) {label : Option PartitionId}
    (hnext : cohort.step? label = some next) :
    ∃ machine', simulation.Reaches (trace ++ (Cohort.system M).note cohort label) machine' ∧
      Tracks machine' next := by
  obtain ⟨bound, hbound⟩ : ∃ bound, bound = simulation.partitions.length *
    ((labels.count none + 1) * (3 * simulation.partitions.length + 16) + trace.length) := ⟨_, rfl⟩
  -- Each step that nobody sees uses up some of the bound.
  have hgo : ∀ (left : Nat) (schedule : List PartitionId) (machine : Machine M),
      (Machine.system M).Run simulation.machine schedule trace machine →
      Tracks machine cohort → bound < schedule.length + left →
        ∃ machine', simulation.Reaches (trace ++ (Cohort.system M).note cohort label) machine' ∧
          Tracks machine' next := by
    intro left
    induction left with
    | zero =>
      intro schedule machine hrun htracks hlt
      have hle := schedule_le hb hbuild hcohort hrun htracks
      omega
    | succ left ih =>
      intro schedule machine hrun htracks hlt
      obtain ⟨i, machine', hstep, ⟨hnote, htracks'⟩ | ⟨hnote, htracks'⟩⟩ :=
        exists_step_toward htracks hplaced hnext
      · have hmore := hrun.step hstep
        rw [hnote, List.append_nil] at hmore
        refine ih _ _ hmore htracks' ?_
        rw [List.length_append, List.length_singleton]
        omega
      · have hmore := hrun.step hstep
        rw [hnote] at hmore
        exact ⟨machine', ⟨_, hmore⟩, htracks'⟩
  exact hgo (bound + 1) schedule machine hrun htracks (by omega)

theorem exists_reaches (hb : b.Made log) (hbuild : b.build = .ok simulation)
    (hcohort : (Cohort.system M).Run simulation.cohort labels trace cohort) :
    ∃ machine, simulation.Reaches trace machine ∧ Tracks machine cohort ∧ cohort.Placed := by
  induction hcohort with
  | refl =>
    exact ⟨_, ⟨_, .refl⟩, tracks_start (hb.build hbuild).1, placed_start hb hbuild⟩
  | @step labels trace x y label hfront hstep ih =>
    obtain ⟨machine, ⟨schedule, hrun⟩, htracks, hplaced⟩ := ih
    obtain ⟨machine', hreaches, htracks'⟩ := enact hb hbuild hfront hrun htracks hplaced hstep
    exact ⟨machine', hreaches, htracks', hplaced.step hstep⟩

end Simulation

end Lookahead
