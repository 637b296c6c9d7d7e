import Lookahead.Proofs.Effort
import Lookahead.Proofs.Faults

/-!
The root cause of a failure.

All partitions that fail by themselves do so after the same number of rounds, in every interleaving,
and each of them gets there whatever the others do. So the failure that a run reports does not
depend on who was faster (`Simulation.root_cause`).
-/

namespace Lookahead

variable {M : Model}

/-! ## The failure that is reported -/

namespace Machine

variable {results : List (Except RunError StopReason)} {e : RunError} {machine : Machine M}
  {window : Nat}

/-- The first failure with a cause of its own is the one that is reported. -/
theorem failure?_eq_of_first {i : Nat} (hi : results[i]? = some (.error e))
    (hown : e.isAbort = false)
    (hfirst : ∀ j < i, ∀ e', results[j]? = some (.error e') → e'.isAbort = true) :
    failure? results = some e := by
  have hfind : (failures results).find? (fun e => !e.isAbort) = some e := by
    induction results generalizing i with
    | nil => simp at hi
    | cons result rest ih =>
      cases i with
      | zero =>
        cases hi
        simp [failures, hown]
      | succ i =>
        have hrest := ih hi fun j hj e' h => hfirst (j + 1) (Nat.succ_lt_succ hj) e' h
        cases result with
        | ok stop => exact hrest
        | error e' =>
          have habort := hfirst 0 (Nat.succ_pos i) e' rfl
          show ((e' :: failures rest).find? fun e => !e.isAbort) = some e
          rw [List.find?_cons_of_neg (by simp [habort])]
          exact hrest
  unfold failure?
  rw [hfind]

/-- As long as one failure has a cause of its own, such a one is reported. -/
theorem isAbort_failure? (h : failure? results = some e) {e' : RunError}
    (hmem : .error e' ∈ results) (hown : e'.isAbort = false) : e.isAbort = false := by
  have hfailures : e' ∈ failures results := List.mem_filterMap.mpr ⟨_, hmem, rfl⟩
  unfold failure? at h
  split at h
  · rename_i found hfind
    cases h
    simpa using List.find?_some hfind
  · rename_i hnone
    have := List.find?_eq_none.mp hnone e' hfailures
    simp [hown] at this

theorem error_mem_of_failure? (h : failure? results = some e) : .error e ∈ results := by
  have hmem : e ∈ failures results := by
    unfold failure? at h
    split at h
    · rename_i found hfind
      cases h
      exact List.mem_of_find?_eq_some hfind
    · exact List.mem_of_head? h
  obtain ⟨result, hresult, heq⟩ := List.mem_filterMap.mp hmem
  cases result with
  | ok stop => cases heq
  | error e' =>
    cases heq
    exact hresult

theorem outcome?_eq_some_iff {outcome : Except RunError RunReport} :
    machine.outcome? window = some outcome ↔
      ∃ results : List (Except RunError StopReason),
        machine.threads.map Thread.result? = results.map some ∧
          outcome = match failure? results with
            | some e => .error e
            | none => .ok ⟨machine.threads.filterMap reportOf?, window⟩ := by
  unfold outcome?
  constructor
  · intro h
    cases hresults : machine.results? with
    | none => simp [hresults] at h
    | some results =>
      refine ⟨results, results?_eq_some_iff.mp hresults, ?_⟩
      simp only [hresults] at h
      split at h <;> cases h <;> simp_all
  · rintro ⟨results, hmap, rfl⟩
    rw [results?_eq_some_iff.mpr hmap]
    dsimp only
    split <;> simp_all

theorem result?_of_results {i : Nat} {t : Thread M}
    (h : machine.threads.map Thread.result? = results.map some)
    (ht : machine.threads[i]? = some t) :
    ∃ result, results[i]? = some result ∧ t.result? = some result := by
  have hget := congrArg (fun l : List _ => l[i]?) h
  simp only [List.getElem?_map, ht, Option.map_some] at hget
  obtain ⟨result, hresult, heq⟩ := Option.map_eq_some_iff.mp hget.symm
  exact ⟨result, hresult, heq.symm⟩

theorem exists_alive (h : machine.outcome? window = none) :
    ∃ t ∈ machine.threads, t.result? = none := by
  refine Classical.byContradiction fun hnone => ?_
  have hended : ∀ t ∈ machine.threads, t.result? ≠ none :=
    fun t ht hresult => hnone ⟨t, ht, hresult⟩
  have hmap : machine.threads.map Thread.result? =
      (machine.threads.filterMap Thread.result?).map some := by
    generalize machine.threads = threads at hended
    induction threads with
    | nil => rfl
    | cons t rest ih =>
      obtain ⟨result, hresult⟩ := Option.ne_none_iff_exists'.mp (hended t (List.mem_cons_self ..))
      rw [List.map_cons, List.filterMap_cons_some hresult, List.map_cons, hresult,
        ih fun u hu => hended u (List.mem_cons_of_mem _ hu)]
  rw [outcome?_eq_some_iff.mpr ⟨_, hmap, rfl⟩] at h
  cases h

end Machine

theorem Thread.error?_of_result? {t : Thread M} {e : RunError}
    (h : t.result? = some (.error e)) : t.error? = some e := by
  cases t with
  | ended result p =>
    cases h
    rfl
  | _ => cases h

theorem Thread.result?_of_error? {t : Thread M} {e : RunError}
    {result : Except RunError StopReason} (he : t.error? = some e) (h : t.result? = some result) :
    result = .error e := by
  cases t with
  | ended own p =>
    cases h
    cases result with
    | ok stop => cases he
    | error e' =>
      cases he
      rfl
  | _ => cases h

/-! ## Failing in one interleaving or another -/

def Simulation.Fails (simulation : Simulation M) (i : PartitionId) (k : Nat) (e : RunError) :
    Prop :=
  ∃ trace machine t, simulation.Reaches trace machine ∧ machine.threads[i]? = some t ∧
    t.error? = some e ∧ e.isAbort = false ∧ t.pace.rounds = k

/-- A machine is where a cohort is from which there is a way to where a partition has failed after
`k` rounds. -/
structure Machine.Ahead (machine : Machine M) (cohort : Cohort M) (now : Pace) (past : List Pace)
    (i : PartitionId) (k : Nat) (e : RunError) : Prop where
  tracks : Tracks machine cohort
  course : machine.OnCourse cohort now past
  placed : cohort.Placed
  blameless : cohort.Blameless
  present : i < machine.threads.length
  way : ∃ more rest final p, (Cohort.system M).Run cohort more rest final ∧
    final[i]? = some (.failed e p) ∧ now.rounds + more.count none = k

theorem Tracks.failed_of_error {machine : Machine M} {cohort : Cohort M} {i : Nat} {t : Thread M}
    {e : RunError} (h : Tracks machine cohort) (ht : machine.threads[i]? = some t)
    (he : t.error? = some e) (hown : e.isAbort = false) :
    cohort[i]? = some (.failed e t.partition) := by
  rcases h.left_cases ht with
    ⟨hnone, _⟩ | ⟨stop, p, rfl, _⟩ | ⟨e', p, he', rfl, hs⟩ | ⟨q, he', _⟩
  · rw [hnone] at he
    cases he
  · cases he
  · rw [he] at he'
    cases he'
    exact hs
  · rw [he] at he'
    cases he'
    cases hown

namespace Simulation

variable {b : Builder M} {log : List (Planned M.Payload)} {simulation : Simulation M}
  {trace : List (PartitionId × Dispatch M)} {machine : Machine M} {i k : Nat} {e : RunError}

theorem blameless_run {labels : List (Option PartitionId)} {cohort : Cohort M}
    (hrun : (Cohort.system M).Run simulation.cohort labels trace cohort) : cohort.Blameless := by
  refine hrun.invariant (P := Cohort.Blameless) ?_ fun _ _ _ hx hstep => hx.step hstep
  intro i e p hs
  obtain ⟨_, _, hfailed⟩ := exists_stance_start hs
  cases hfailed

/-- From wherever a run gets to, there is a way to each failure. -/
theorem Fails.ahead (hb : b.Made log) (hbuild : b.build = .ok simulation)
    (hfails : simulation.Fails i k e) (h : simulation.Reaches trace machine) :
    ∃ cohort now past, machine.Ahead cohort now past i k e := by
  obtain ⟨other, machine', t, h', ht, he, hown, hk⟩ := hfails
  obtain ⟨labels, seen, cohort, now, past, hrun, htracks, hcourse⟩ := h.onCourse hb hbuild
  obtain ⟨labels', seen', cohort', now', past', hrun', htracks', hcourse'⟩ :=
    h'.onCourse hb hbuild
  obtain ⟨final, more, rest, more', rest', hmore, hmore', _⟩ :=
    (Cohort.commuting M).confluent hrun hrun'
  have hfailed := htracks'.failed_of_error ht he hown
  obtain ⟨hfinal, _⟩ := Cohort.settled_run hfailed (Or.inl rfl) hmore'
  obtain ⟨last, hat, hrounds⟩ := hcourse.at_now.rounds_run hb hbuild hrun hmore
  have hpace : t.pace = last := hat i _ hfinal
  refine ⟨cohort, now, past, htracks, hcourse, ?_, blameless_run hrun, ?_, more, rest, final,
    t.partition, hmore, hfinal, by rw [← hrounds, ← hpace, hk]⟩
  · exact hrun.invariant (placed_start hb hbuild) fun _ _ _ hx hstep => hx.step hstep
  · have hlt := (List.getElem?_eq_some_iff.mp ht).1
    rw [h.length_threads, ← h'.length_threads]
    exact hlt

end Simulation

namespace Machine.Ahead

variable {machine : Machine M} {cohort : Cohort M} {now : Pace} {past : List Pace} {i k j : Nat}
  {e : RunError} {s : Stance M} {t : Thread M}

theorem rounds_le (h : machine.Ahead cohort now past i k e) : now.rounds ≤ k := by
  obtain ⟨more, _, _, _, _, _, hrounds⟩ := h.way
  omega

/-- Whoever has failed or ended has done so in the last round that there is. -/
theorem rounds_eq (h : machine.Ahead cohort now past i k e) (hs : cohort[j]? = some s)
    (hsettled : s.isFailed = true ∨ s.isEnded = true) : now.rounds = k := by
  obtain ⟨more, _, _, _, hrun, _, hrounds⟩ := h.way
  obtain ⟨_, hnone⟩ := Cohort.settled_run hs hsettled hrun
  rw [List.count_eq_zero.mpr hnone] at hrounds
  exact hrounds

/-- The partition that will fail has not ended, nor has it failed otherwise. -/
theorem eq_failed (h : machine.Ahead cohort now past i k e) (hs : cohort[i]? = some s)
    (hsettled : s.isFailed = true ∨ s.isEnded = true) : ∃ p, s = .failed e p := by
  obtain ⟨more, _, _, p, hrun, hfinal, _⟩ := h.way
  obtain ⟨hsame, _⟩ := Cohort.settled_run hs hsettled hrun
  rw [hfinal] at hsame
  exact ⟨p, (Option.some.inj hsame).symm⟩

theorem repeat_work_eq (h : machine.Ahead cohort now past i k e) (hs : cohort[i]? = some s)
    (hrounds : now.rounds = k) : ∃ steps p, Nat.repeat Stance.work steps s = .failed e p := by
  obtain ⟨more, _, _, p, hrun, hfinal, hmore⟩ := h.way
  have hnone : none ∉ more := List.count_eq_zero.mp (by omega)
  have hsame := Cohort.getElem?_run hs hrun hnone
  rw [hfinal] at hsame
  exact ⟨_, p, (Option.some.inj hsame).symm⟩

theorem pace_le (h : machine.Ahead cohort now past i k e) (ht : machine.threads[j]? = some t) :
    t.pace.rounds ≤ now.rounds := by
  rcases List.mem_cons.mp (h.course.threads j t ht) with hnow | hpast
  · exact Nat.le_of_eq (congrArg Pace.rounds hnow)
  · exact Nat.le_of_lt (h.course.course.le_now hpast).1

/-- In its last round its own work leads to its failure. -/
theorem fails_alone (h : machine.Ahead cohort now past i k e) (ht : machine.threads[i]? = some t)
    (hrounds : t.pace.rounds = k) :
    ∃ steps p, Nat.repeat Stance.work steps t.stance = .failed e p := by
  have hnow : now.rounds = k := Nat.le_antisymm h.rounds_le (hrounds ▸ h.pace_le ht)
  have hpace : t.pace = now :=
    h.course.course.eq_of_rounds (h.course.threads i t ht) (List.mem_cons_self ..)
      (hrounds.trans hnow.symm)
  have hlt : i < cohort.length := h.tracks.length_threads ▸ h.present
  obtain ⟨s, hs⟩ : ∃ s, cohort[i]? = some s := ⟨_, List.getElem?_eq_getElem hlt⟩
  obtain ⟨steps, p, hwork⟩ := h.repeat_work_eq hs hnow
  cases s with
  | running work q =>
    obtain rfl := h.tracks.thread_of_running h.course.at_now hs ht hpace
    exact ⟨steps, p, hwork⟩
  | failed e' q =>
    obtain ⟨_, hfailed⟩ := h.eq_failed hs (Or.inl rfl)
    cases hfailed
    obtain ⟨u, hu, he⟩ := h.tracks.error?_of_failed hs
    rw [ht] at hu
    cases hu
    exact ⟨0, _, Thread.stance_of_error? he⟩
  | ready q =>
    rw [Stance.repeat_work_of_ne (by simp)] at hwork
    cases hwork
  | ended stop q =>
    rw [Stance.repeat_work_of_ne (by simp)] at hwork
    cases hwork

/-- A partition that will fail by itself has not left otherwise, and in its last round it fails
after so many steps of its own, whatever the others do. -/
theorem thread (h : machine.Ahead cohort now past i k e) :
    ∃ t, machine.threads[i]? = some t ∧ t.pace.rounds ≤ k ∧
      (t.error? = none ∧ t.result? = none ∨ t.error? = some e) ∧
      (t.pace.rounds = k → ∃ steps,
        (∃ seen later, (Machine.system M).Run machine (List.replicate steps i) seen later) ∧
        ∀ (schedule : List PartitionId) (seen : List (PartitionId × Dispatch M))
          (later : Machine M), (Machine.system M).Run machine schedule seen later →
            steps ≤ schedule.count i → ∃ t', later.threads[i]? = some t' ∧ t'.error? = some e) := by
  obtain ⟨t, ht⟩ : ∃ t, machine.threads[i]? = some t := ⟨_, List.getElem?_eq_getElem h.present⟩
  refine ⟨t, ht, Nat.le_trans (h.pace_le ht) h.rounds_le, ?_, fun hrounds => ?_⟩
  · rcases h.tracks.left_cases ht with
      halive | ⟨stop, p, _, hs⟩ | ⟨e', p, he', _, hs⟩ | ⟨q, _, hs, hbroken⟩
    · exact Or.inl halive
    · obtain ⟨_, hfailed⟩ := h.eq_failed hs (Or.inr rfl)
      cases hfailed
    · obtain ⟨_, hfailed⟩ := h.eq_failed hs (Or.inl rfl)
      cases hfailed
      exact Or.inr he'
    · -- A round is only called off once somebody has failed, so there was still this one to come.
      obtain ⟨j, _, _, hj⟩ := hbroken
      obtain ⟨steps, _, hwork⟩ := h.repeat_work_eq hs (h.rounds_eq hj (Or.inl rfl))
      rw [Stance.repeat_work_of_ne (by simp)] at hwork
      cases hwork
  · obtain ⟨_, p, hwork⟩ := h.fails_alone ht hrounds
    obtain ⟨steps, halone, hfailed⟩ := Machine.run_alone ht hwork
    refine ⟨steps, halone, fun schedule seen later hrun hcount => ?_⟩
    obtain ⟨t', ht', hstance⟩ := Machine.stance_run hrun ht hfailed
    obtain ⟨extra, hextra⟩ := Nat.exists_eq_add_of_le hcount
    rw [hextra, Stance.repeat_work_add, hfailed, Stance.repeat_work_of_ne (by simp)] at hstance
    exact ⟨t', ht', Thread.error?_of_stance hstance⟩

/-- Whoever does not fail by itself is turned away, or has finished and needs no other round. -/
theorem other (h : machine.Ahead cohort now past i k e) (ht : machine.threads[j]? = some t)
    (hnot : ∀ e', t.error? = some e' → e'.isAbort = true) :
    t.result? = none ∨ t.result? = some (.error (.aborted j)) ∨
      ∃ stop, t.result? = some (.ok stop) ∧ t.pace.rounds = k := by
  rcases h.tracks.left_cases ht with
    ⟨_, halive⟩ | ⟨stop, p, rfl, hs⟩ | ⟨e', p, he', _, hs⟩ | ⟨q, he', hs, _⟩
  · exact Or.inl halive
  · have hpace : p.pace = now := h.course.at_now j _ hs
    refine Or.inr (Or.inr ⟨stop, rfl, ?_⟩)
    show p.pace.rounds = k
    rw [hpace]
    exact h.rounds_eq hs (Or.inr rfl)
  · have habort := hnot e' he'
    rw [h.blameless j e' p hs] at habort
    cases habort
  · cases hresult : t.result? with
    | none => exact Or.inl rfl
    | some result =>
      have hid : q.partition.id = j := (h.placed j _ hs).id
      rw [Thread.result?_of_error? he' hresult, hid]
      exact Or.inr (Or.inl rfl)

end Machine.Ahead

/-! ## The root cause -/

namespace Simulation

variable {b : Builder M} {log : List (Planned M.Payload)} {simulation : Simulation M}
  {trace : List (PartitionId × Dispatch M)} {machine : Machine M} {i j k l : Nat} {e e' : RunError}

/-- All partitions that fail by themselves do so after as many rounds, and each with one failure. -/
theorem Fails.unique (hb : b.Made log) (hbuild : b.build = .ok simulation)
    (h : simulation.Fails i k e) (h' : simulation.Fails j l e') :
    l = k ∧ (j = i → e' = e) := by
  obtain ⟨other, machine, t, hreaches, ht, he, hown, rfl⟩ := h'
  obtain ⟨cohort, now, past, hahead⟩ := h.ahead hb hbuild hreaches
  have hs := hahead.tracks.failed_of_error ht he hown
  have hpace : t.pace = now := hahead.course.at_now j _ hs
  refine ⟨hpace ▸ hahead.rounds_eq hs (Or.inl rfl), ?_⟩
  rintro rfl
  obtain ⟨_, hfailed⟩ := hahead.eq_failed hs (Or.inl rfl)
  cases hfailed
  rfl

/-- A run that fails reports a failure with a cause of its own. -/
theorem Reaches.own_failure (hb : b.Made log) (hbuild : b.build = .ok simulation)
    (h : simulation.Reaches trace machine) {window : Nat}
    (hfailure : machine.outcome? window = some (.error e)) :
    e.isAbort = false ∧ ∃ i k, simulation.Fails i k e := by
  obtain ⟨_, cohort, hrun, htracks, _⟩ := h.cohort hb hbuild
  obtain ⟨results, hmap, houtcome⟩ := Machine.outcome?_eq_some_iff.mp hfailure
  have hreported : Machine.failure? results = some e := by
    cases hresults : Machine.failure? results with
    | none =>
      rw [hresults] at houtcome
      cases houtcome
    | some e' =>
      rw [hresults] at houtcome
      cases houtcome
      rfl
  have hmem : some (.error e) ∈ machine.threads.map Thread.result? := by
    rw [hmap]
    exact List.mem_map_of_mem (Machine.error_mem_of_failure? hreported)
  obtain ⟨t, ht, hresult⟩ := List.mem_map.mp hmem
  obtain ⟨i, hi⟩ := List.mem_iff_getElem?.mp ht
  have he := Thread.error?_of_result? hresult
  -- Whoever was turned away was so because of someone who was not.
  have hown : e.isAbort = false := by
    rcases htracks.left_cases hi with
      ⟨hnone, _⟩ | ⟨stop, p, rfl, _⟩ | ⟨e', p, he', _, hs⟩ | ⟨q, _, _, j, e', p, hs⟩
    · rw [hnone] at he
      cases he
    · cases he
    · rw [he] at he'
      cases he'
      exact blameless_run hrun i e p hs
    · obtain ⟨u, hu, he'⟩ := htracks.error?_of_failed hs
      obtain ⟨result, hmem', hended⟩ := Machine.result?_of_results hmap hu
      rw [Thread.result?_of_error? he' hended] at hmem'
      exact Machine.isAbort_failure? hreported (List.mem_of_getElem? hmem')
        (blameless_run hrun j e' p hs)
  exact ⟨hown, i, _, trace, machine, t, h, hi, he, hown, rfl⟩

/-- The first partition that fails by itself is the one whose failure is reported. -/
theorem Fails.outcome_eq (hb : b.Made log) (hbuild : b.build = .ok simulation)
    (hfails : simulation.Fails i k e) (h : simulation.Reaches trace machine)
    (hfirst : ∀ j < i, ∀ e', ¬ simulation.Fails j k e') {window : Nat}
    {outcome : Except RunError RunReport} (houtcome : machine.outcome? window = some outcome) :
    outcome = .error e := by
  obtain ⟨cohort, now, past, hahead⟩ := hfails.ahead hb hbuild h
  obtain ⟨results, hmap, rfl⟩ := Machine.outcome?_eq_some_iff.mp houtcome
  have hreported : Machine.failure? results = some e := by
    obtain ⟨t, ht, _, hstands, _⟩ := hahead.thread
    obtain ⟨result, hresult, hended⟩ := Machine.result?_of_results hmap ht
    have he : t.error? = some e := by
      rcases hstands with ⟨_, halive⟩ | he
      · rw [halive] at hended
        cases hended
      · exact he
    rw [Thread.result?_of_error? he hended] at hresult
    have hown : e.isAbort = false := by
      obtain ⟨_, _, _, _, _, _, hown, _⟩ := hfails
      exact hown
    refine Machine.failure?_eq_of_first hresult hown fun j hj e' hother => ?_
    have hlt : j < machine.threads.length := Nat.lt_trans hj (List.getElem?_eq_some_iff.mp ht).1
    have hu := List.getElem?_eq_getElem hlt
    obtain ⟨result', hresult', hended'⟩ := Machine.result?_of_results hmap hu
    rw [hother] at hresult'
    cases hresult'
    cases hown' : e'.isAbort with
    | true => rfl
    | false =>
      have hfails' : simulation.Fails j _ e' :=
        ⟨trace, machine, _, h, hu, Thread.error?_of_result? hended', hown', rfl⟩
      obtain ⟨hk, _⟩ := hfails.unique hb hbuild hfails'
      exact absurd (hk ▸ hfails') (hfirst j hj e')
  rw [hreported]

/-- A run that fails reports one root cause. It never reports that a partition was turned away. All
partitions that fail by themselves do so after as many rounds, in every interleaving, and each with
one failure, which it comes to by its own steps whatever the others do. Everyone else is turned away
or finishes without another round. No run stops before it has an outcome, nor does it make more than
so many steps besides its dispatches, and the outcome is the failure of the first of them. -/
theorem root_cause (hb : b.Made log) (hbuild : b.build = .ok simulation)
    {schedule : List PartitionId}
    (hrun : (Machine.system M).Run simulation.machine schedule trace machine) :
    (∀ e, machine.outcome? simulation.window = some (.error e) →
      e.isAbort = false ∧ ∃ i k, simulation.Fails i k e) ∧
    (∀ i k e, simulation.Fails i k e →
      (∀ j l e', simulation.Fails j l e' → l = k ∧ (j = i → e' = e)) ∧
      (∃ t, machine.threads[i]? = some t ∧ t.pace.rounds ≤ k ∧
        (t.error? = none ∧ t.result? = none ∨ t.error? = some e) ∧
        (t.pace.rounds = k → ∃ steps,
          (∃ seen later, (Machine.system M).Run machine (List.replicate steps i) seen later) ∧
          ∀ (more : List PartitionId) (seen : List (PartitionId × Dispatch M)) (later : Machine M),
            (Machine.system M).Run machine more seen later → steps ≤ more.count i →
              ∃ t', later.threads[i]? = some t' ∧ t'.error? = some e)) ∧
      (∀ (j : Nat) (t : Thread M), machine.threads[j]? = some t →
        (∀ e', ¬ simulation.Fails j k e') →
          t.result? = none ∨ t.result? = some (.error (.aborted j)) ∨
            ∃ stop, t.result? = some (.ok stop) ∧ t.pace.rounds = k) ∧
      (machine.outcome? simulation.window = none → ∃ j, machine.step? j ≠ none) ∧
      (∀ j < simulation.partitions.length, schedule.count j ≤
        (k + 1) * (3 * simulation.partitions.length + 16) + (System.seenOf j trace).length) ∧
      ((∀ j < i, ∀ e', ¬ simulation.Fails j k e') →
        ∀ outcome, machine.outcome? simulation.window = some outcome → outcome = .error e)) := by
  have h : simulation.Reaches trace machine := ⟨schedule, hrun⟩
  refine ⟨fun e => h.own_failure hb hbuild, fun i k e hfails => ?_⟩
  obtain ⟨cohort, now, past, hahead⟩ := hfails.ahead hb hbuild h
  refine ⟨fun j l e' => hfails.unique hb hbuild, hahead.thread, ?_, ?_, ?_,
    fun hfirst outcome => hfails.outcome_eq hb hbuild h hfirst⟩
  · intro j t ht hnot
    refine hahead.other ht fun e' he' => ?_
    cases hown : e'.isAbort with
    | true => rfl
    | false =>
      have hfails' : simulation.Fails j _ e' := ⟨trace, machine, t, h, ht, he', hown, rfl⟩
      obtain ⟨hk, _⟩ := hfails.unique hb hbuild hfails'
      exact absurd (hk ▸ hfails') (hnot e')
  · intro houtcome
    obtain ⟨t, ht, halive⟩ := Machine.exists_alive houtcome
    obtain ⟨j, hj⟩ := List.mem_iff_getElem?.mp ht
    obtain ⟨_, cohort', hcohort, htracks, _⟩ := h.cohort hb hbuild
    obtain ⟨_, m, hagrees⟩ := agrees_run hb hbuild hcohort
    exact htracks.exists_step_of_alive h.told hagrees (departs_run hb hbuild hcohort) hj halive
  · intro j hj
    have ht := List.getElem?_eq_getElem (h.length_threads ▸ hj)
    have hsteps := steps_le hb hbuild hrun ht
    have hround := Nat.mul_le_mul_right (3 * simulation.partitions.length + 16)
      (Nat.add_le_add_right (Nat.le_trans (hahead.pace_le ht) hahead.rounds_le) 1)
    omega

/-- In a relay whose second partition cannot receive the token the run reports just that, and the
first partition is turned away from the second meeting. -/
theorem root_cause_relay : ∃ schedule trace machine,
    (Machine.system _).Run (Relay.crewed 1 2 (some Relay.runner) none).machine schedule trace
      machine ∧
    (Relay.crewed 1 2 (some Relay.runner) none).Fails 1 1 (.unhandled 1 0) ∧
    (∀ e, ¬ (Relay.crewed 1 2 (some Relay.runner) none).Fails 0 1 e) ∧
    machine.outcome? 2 = some (.error (.unhandled 1 0)) ∧
    ∃ t, machine.threads[0]? = some t ∧ t.result? = some (.error (.aborted 0)) := by
  obtain ⟨schedule, hrun⟩ := (Machine.system _).run_follow
    (Relay.crewed 1 2 (some Relay.runner) none).machine (Relay.turns 0)
  obtain ⟨t, ht, he, hk⟩ : ∃ t, ((Machine.system _).follow
      (Relay.crewed 1 2 (some Relay.runner) none).machine (Relay.turns 0)).2.threads[1]? = some t ∧
        t.error? = some (.unhandled 1 0) ∧ t.pace.rounds = 1 := ⟨_, rfl, rfl, rfl⟩
  obtain ⟨u, hu, he', hended⟩ : ∃ t, ((Machine.system _).follow
      (Relay.crewed 1 2 (some Relay.runner) none).machine (Relay.turns 0)).2.threads[0]? = some t ∧
        t.error? = some (.aborted 0) ∧ t.result? ≠ none := ⟨_, rfl, rfl, by simp [Thread.result?]⟩
  obtain ⟨outcome, houtcome⟩ : ∃ outcome, ((Machine.system _).follow
      (Relay.crewed 1 2 (some Relay.runner) none).machine (Relay.turns 0)).2.outcome? 2 =
        some outcome := ⟨_, rfl⟩
  obtain ⟨_, hall⟩ := root_cause (Relay.made_crew 1 2 (some Relay.runner) none)
    (Relay.build_crew 1 2 (some Relay.runner) none) hrun
  have hfails : (Relay.crewed 1 2 (some Relay.runner) none).Fails 1 1 (.unhandled 1 0) :=
    ⟨_, _, t, ⟨schedule, hrun⟩, ht, he, rfl, hk⟩
  have hnot : ∀ e, ¬ (Relay.crewed 1 2 (some Relay.runner) none).Fails 0 1 e := by
    intro e hother
    obtain ⟨_, ⟨u', hu', _, hstands, _⟩, _⟩ := hall 0 1 e hother
    obtain ⟨_, _, _, _, _, _, hown, _⟩ := hother
    rw [hu] at hu'
    cases hu'
    rcases hstands with ⟨hnone, _⟩ | hsome
    · rw [he'] at hnone
      cases hnone
    · rw [he'] at hsome
      cases hsome
      cases hown
  obtain ⟨_, _, hothers, _, _, hfirst⟩ := hall 1 1 _ hfails
  have hresult := hfirst (fun j hj => Nat.lt_one_iff.mp hj ▸ hnot) outcome houtcome
  refine ⟨schedule, _, _, hrun, hfails, hnot, hresult ▸ houtcome, u, hu, ?_⟩
  rcases hothers 0 u hu hnot with halive | haborted | ⟨stop, hok, _⟩
  · exact absurd halive hended
  · exact haborted
  · cases Thread.result?_of_error? he' hok

end Simulation

end Lookahead
