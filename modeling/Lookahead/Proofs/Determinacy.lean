import Lookahead.Proofs.Relay

/-!
Schedule independence.

Whatever the interleaving, every partition makes the same dispatches: of any two runs, what one
shows of a partition is the beginning of what the other shows of it, and if both have come to a halt
they show the same. If one of them has succeeded, the other has ended with the same report.
-/

namespace Lookahead

variable {M : Model}

/-! ## Machines that have succeeded -/

namespace Machine

def Succeeded (machine : Machine M) : Prop := ∀ t ∈ machine.threads,
  ∃ stop p, t = Thread.ended (.ok stop) p

theorem results?_eq_some_iff {machine : Machine M}
    {results : List (Except RunError StopReason)} :
    machine.results? = some results ↔
      machine.threads.map Thread.result? = results.map some := by
  unfold results?
  generalize machine.threads = threads
  induction threads generalizing results with
  | nil => cases results <;> simp [List.mapM_nil]
  | cons t rest ih =>
    rw [List.mapM_cons]
    cases ht : t.result? with
    | none => cases results <;> simp [ht]
    | some result =>
      cases hrest : rest.mapM Thread.result? with
      | none =>
        have hnone : ∀ others : List (Except RunError StopReason),
            rest.map Thread.result? ≠ others.map some := by
          intro others heq
          have := ih.mpr heq
          rw [hrest] at this
          cases this
        cases results with
        | nil => simp
        | cons first others => simp [ht, hnone others]
      | some others =>
        have hothers := ih.mp hrest
        simp only [List.map_cons, ht, hothers, Option.bind_eq_bind, Option.bind_some, pure,
          Option.some.injEq]
        rw [← List.map_cons, List.map_inj_right (fun _ _ h => Option.some.inj h)]

/-- A run comes to a report if and only if all threads have stopped without a failure. -/
theorem outcome?_eq_ok_iff {machine : Machine M} {window : Nat} {report : RunReport} :
    machine.outcome? window = some (.ok report) ↔
      machine.Succeeded ∧ report = ⟨machine.threads.filterMap reportOf?, window⟩ := by
  have hfailures : ∀ results : List (Except RunError StopReason),
      failure? results = none ↔ ∀ result ∈ results, ∃ stop, result = .ok stop := by
    intro results
    have hnil : failure? results = none ↔ failures results = [] := by
      unfold failure?
      cases failures results with
      | nil => simp
      | cons e rest => cases ((e :: rest).find? fun e => !e.isAbort) <;> simp
    rw [hnil, failures, List.filterMap_eq_nil_iff]
    refine forall_congr' fun result => imp_congr_right fun _ => ?_
    cases result <;> simp
  unfold outcome?
  constructor
  · intro h
    cases hresults : machine.results? with
    | none => simp [hresults] at h
    | some results =>
      have hmap := results?_eq_some_iff.mp hresults
      cases hfailure : failure? results with
      | some e => simp [hresults, hfailure] at h
      | none =>
        simp only [hresults, hfailure, Option.some.injEq, Except.ok.injEq] at h
        refine ⟨?_, h.symm⟩
        intro t ht
        have hmem : t.result? ∈ results.map some := hmap ▸ List.mem_map_of_mem ht
        obtain ⟨result, hresult, heq⟩ := List.mem_map.mp hmem
        obtain ⟨stop, rfl⟩ := (hfailures results).mp hfailure result hresult
        cases t with
        | ended result p =>
          simp only [Thread.result?, Option.some.injEq] at heq
          exact ⟨stop, p, by rw [heq]⟩
        | _ => cases heq
  · rintro ⟨hsucceeded, rfl⟩
    have hexists : ∀ threads : List (Thread M),
        (∀ t ∈ threads, ∃ stop p, t = Thread.ended (.ok stop) p) →
          ∃ results : List (Except RunError StopReason),
            threads.map Thread.result? = results.map some ∧
              ∀ result ∈ results, ∃ stop, result = .ok stop := by
      intro threads
      induction threads with
      | nil => exact fun _ => ⟨[], rfl, by simp⟩
      | cons t rest ih =>
        intro h
        obtain ⟨stop, p, rfl⟩ := h t (List.mem_cons_self ..)
        obtain ⟨results, hmap, hok⟩ := ih fun t ht => h t (List.mem_cons_of_mem _ ht)
        refine ⟨.ok stop :: results, by simp [hmap, Thread.result?], ?_⟩
        intro result hresult
        rcases List.mem_cons.mp hresult with rfl | hresult
        · exact ⟨stop, rfl⟩
        · exact hok result hresult
    obtain ⟨results, hmap, hok⟩ := hexists machine.threads hsucceeded
    rw [results?_eq_some_iff.mpr hmap]
    simp only [(hfailures results).mpr hok]

theorem Succeeded.map_reportOf? {machine : Machine M} (h : machine.Succeeded) :
    machine.threads.map reportOf? = (machine.threads.filterMap reportOf?).map some := by
  unfold Succeeded at h
  generalize machine.threads = threads at h
  induction threads with
  | nil => rfl
  | cons t rest ih =>
    obtain ⟨stop, p, rfl⟩ := h t (List.mem_cons_self ..)
    have hreport : reportOf? (.ended (.ok stop) p) = some (p.report stop) := rfl
    rw [List.filterMap_cons_some hreport, List.map_cons, List.map_cons, hreport,
      ih fun t ht => h t (List.mem_cons_of_mem _ ht)]

theorem Succeeded.length_reports {machine : Machine M} (h : machine.Succeeded) :
    (machine.threads.filterMap reportOf?).length = machine.threads.length := by
  have hlength := congrArg List.length h.map_reportOf?
  rw [List.length_map, List.length_map] at hlength
  exact hlength.symm

theorem Succeeded.exists_of_report {machine : Machine M} (h : machine.Succeeded) {j : Nat}
    {r : PartitionReport} (hr : (machine.threads.filterMap reportOf?)[j]? = some r) :
    ∃ stop p, machine.threads[j]? = some (.ended (.ok stop) p) ∧ r = p.report stop := by
  have hmap : (machine.threads.map reportOf?)[j]? = some (some r) := by
    rw [h.map_reportOf?, List.getElem?_map, hr]
    rfl
  rw [List.getElem?_map] at hmap
  obtain ⟨t, ht, hreport⟩ := Option.map_eq_some_iff.mp hmap
  obtain ⟨stop, p, rfl⟩ := h t (List.mem_of_getElem? ht)
  cases hreport
  exact ⟨stop, p, ht, rfl⟩

theorem Succeeded.halted {machine : Machine M} (h : machine.Succeeded) :
    (system M).Halted machine := by
  intro i
  show machine.step? i = none
  unfold step?
  cases ht : machine.threads[i]? with
  | none => rfl
  | some t =>
    obtain ⟨stop, p, rfl⟩ := h t (List.mem_of_getElem? ht)
    rfl

end Machine

namespace Tracks

variable {machine final : Machine M} {cohort : Cohort M}

/-- Where a machine has succeeded, the cohort has the same partitions at their end. -/
theorem cohort_of_succeeded (h : Tracks machine cohort) (hsucceeded : machine.Succeeded) :
    cohort = machine.threads.map Thread.stance := by
  cases h with
  | gathering rounds h =>
    apply List.ext_getElem?
    intro j
    rw [List.getElem?_map]
    cases ht : machine.threads[j]? with
    | none =>
      have hlength := List.getElem?_eq_none_iff.mp ht
      rw [h.size] at hlength
      exact List.getElem?_eq_none hlength
    | some t =>
      obtain ⟨stop, p, rfl⟩ := hsucceeded t (List.mem_of_getElem? ht)
      obtain ⟨s, hs, hgathers⟩ := h.stands j _ ht
      cases hgathers
      exact hs
  | handing rounds parties hne hready h =>
    exfalso
    have hlt : 0 < machine.threads.length := by
      rw [h.size]
      exact List.length_pos_iff.mpr hne
    have ht := List.getElem?_eq_getElem hlt
    obtain ⟨stop, p, hended⟩ := hsucceeded _ (List.mem_of_getElem? ht)
    obtain ⟨q, _, hhands⟩ := h.stands 0 _ ht
    rw [hended] at hhands
    cases hhands
  | taking rounds parties hne hready h =>
    exfalso
    have hlt : 0 < machine.threads.length := by
      rw [h.size]
      exact List.length_pos_iff.mpr hne
    have ht := List.getElem?_eq_getElem hlt
    obtain ⟨stop, p, hended⟩ := hsucceeded _ (List.mem_of_getElem? ht)
    obtain ⟨q, _, _, _, _, _, htakes⟩ := h.stands 0 _ ht
    rw [hended] at htakes
    cases htakes

/-- A machine that has come to a halt where all partitions are at their end has succeeded. -/
theorem succeeded_of_ended (h : Tracks machine cohort)
    (hended : ∀ s ∈ cohort, ∃ stop p, s = Stance.ended stop p)
    (hhalted : (Machine.system M).Halted machine) : machine.Succeeded := by
  have hnotready : ∀ {parties : List (Party M)}, parties ≠ [] →
      cohort ≠ parties.map Stance.ready := by
    rintro parties hne rfl
    obtain ⟨q, hq⟩ := List.exists_mem_of_ne_nil _ hne
    obtain ⟨stop, p, heq⟩ := hended (.ready q) (List.mem_map_of_mem hq)
    cases heq
  cases h with
  | gathering rounds h =>
    intro t ht
    obtain ⟨j, hj⟩ := List.mem_iff_getElem?.mp ht
    obtain ⟨s, hs, hgathers⟩ := h.stands j t hj
    obtain ⟨stop, p, rfl⟩ := hended s (List.mem_of_getElem? hs)
    rcases lags_on h (waits_of_stuck (hhalted j) hj) hgathers with ⟨q, hq, _⟩ | hresult
    · cases hq
    · generalize hs' : Stance.ended stop p = s' at hgathers
      cases hgathers with
      | ended stop' p' => exact ⟨stop', p', rfl⟩
      | failed e p' => cases hs'
      | left q _ => cases hs'
      | _ => cases hresult
  | handing rounds parties hne hready _ => exact absurd hready (hnotready hne)
  | taking rounds parties hne hready _ => exact absurd hready (hnotready hne)

/-- A machine that has come to a halt where another one has succeeded has the same threads. -/
theorem threads_eq (h : Tracks machine cohort) (hsucceeded : machine.Succeeded)
    (h' : Tracks final cohort) (hhalted : (Machine.system M).Halted final) :
    final.threads = machine.threads := by
  have hcohort := h.cohort_of_succeeded hsucceeded
  have hended : ∀ s ∈ cohort, ∃ stop p, s = Stance.ended stop p := by
    intro s hs
    rw [hcohort] at hs
    obtain ⟨t, ht, rfl⟩ := List.mem_map.mp hs
    obtain ⟨stop, p, rfl⟩ := hsucceeded t ht
    exact ⟨stop, p, rfl⟩
  have hsucceeded' := h'.succeeded_of_ended hended hhalted
  have hstances := (h'.cohort_of_succeeded hsucceeded').symm.trans hcohort
  apply List.ext_getElem?
  intro j
  have hj := congrArg (fun stances => stances[j]?) hstances
  simp only [List.getElem?_map] at hj
  cases ht : machine.threads[j]? with
  | none =>
    rw [ht] at hj
    exact Option.map_eq_none_iff.mp hj
  | some t =>
    rw [ht] at hj
    obtain ⟨t', ht', hstance⟩ := Option.map_eq_some_iff.mp hj
    obtain ⟨stop, p, rfl⟩ := hsucceeded t (List.mem_of_getElem? ht)
    obtain ⟨stop', p', rfl⟩ := hsucceeded' t' (List.mem_of_getElem? ht')
    cases hstance
    exact ht'

end Tracks

/-! ## Schedule independence -/

namespace Simulation

variable {b : Builder M} {log : List (Planned M.Payload)} {simulation : Simulation M}
  {trace other : List (PartitionId × Dispatch M)} {machine final : Machine M}

/-- Two runs that have come this far can be continued to show the same of every partition. -/
theorem alike_continuations (hb : b.Made log) (hbuild : b.build = .ok simulation)
    (h : simulation.Reaches trace machine) (h' : simulation.Reaches other final) :
    ∃ cohort cohort' meeting labels rest labels' rest',
      Tracks machine cohort ∧ Tracks final cohort' ∧
      (Cohort.system M).Run cohort labels rest meeting ∧
      (Cohort.system M).Run cohort' labels' rest' meeting ∧
      System.Alike (trace ++ rest) (other ++ rest') := by
  obtain ⟨_, cohort, hrun, htracks, _⟩ := h.cohort hb hbuild
  obtain ⟨_, cohort', hrun', htracks', _⟩ := h'.cohort hb hbuild
  obtain ⟨meeting, labels, rest, labels', rest', hmeet, hmeet', halike, _⟩ :=
    (Cohort.commuting M).confluent hrun hrun'
  exact ⟨cohort, cohort', meeting, labels, rest, labels', rest', htracks, htracks', hmeet, hmeet',
    halike⟩

/-- Of two runs one has dispatched the beginning of what the other one has. -/
theorem seenOf_comparable (hb : b.Made log) (hbuild : b.build = .ok simulation)
    (h : simulation.Reaches trace machine) (h' : simulation.Reaches other final)
    (j : PartitionId) : System.seenOf j trace <+: System.seenOf j other ∨
      System.seenOf j other <+: System.seenOf j trace := by
  obtain ⟨_, _, _, _, rest, _, rest', _, _, _, _, halike⟩ := alike_continuations hb hbuild h h'
  have heq := halike j
  rw [System.seenOf_append, System.seenOf_append] at heq
  have hfront := List.prefix_append (System.seenOf j trace) (System.seenOf j rest)
  rw [heq] at hfront
  exact List.prefix_or_prefix_of_prefix hfront (List.prefix_append ..)

/-- A run that has come to a halt has dispatched all that any other one has. -/
theorem seenOf_prefix_of_halted (hb : b.Made log) (hbuild : b.build = .ok simulation)
    (h : simulation.Reaches trace machine) (h' : simulation.Reaches other final)
    (hhalted : (Machine.system M).Halted machine) (j : PartitionId) :
    System.seenOf j other <+: System.seenOf j trace := by
  obtain ⟨_, _, _, _, rest, _, rest', htracks, _, hmeet, _, halike⟩ :=
    alike_continuations hb hbuild h h'
  obtain ⟨_, _, rfl⟩ := hmeet.eq_of_halted (htracks.halted hhalted)
  have heq := halike j
  rw [System.seenOf_append, System.seenOf_append, System.seenOf_nil, List.append_nil] at heq
  rw [heq]
  exact List.prefix_append ..

/-- Every partition makes the same dispatches in any two interleavings, and a run that succeeds
comes to the same report. -/
theorem schedule_independent (hb : b.Made log) (hbuild : b.build = .ok simulation)
    (h : simulation.Reaches trace machine) (h' : simulation.Reaches other final) :
    (∀ j, System.seenOf j trace <+: System.seenOf j other ∨
      System.seenOf j other <+: System.seenOf j trace) ∧
    ((Machine.system M).Halted machine →
      (∀ j, System.seenOf j other <+: System.seenOf j trace) ∧
      ((Machine.system M).Halted final →
        (∀ j, System.seenOf j trace = System.seenOf j other) ∧
        ∀ report, machine.outcome? simulation.window = some (.ok report) →
          final.outcome? simulation.window = some (.ok report))) := by
  obtain ⟨cohort, cohort', meeting, labels, rest, labels', rest', htracks, htracks', hmeet, hmeet',
    halike⟩ := alike_continuations hb hbuild h h'
  have heq : ∀ j, System.seenOf j trace ++ System.seenOf j rest =
      System.seenOf j other ++ System.seenOf j rest' := by
    intro j
    have := halike j
    rwa [System.seenOf_append, System.seenOf_append] at this
  refine ⟨?_, ?_⟩
  · intro j
    have hfront := List.prefix_append (System.seenOf j trace) (System.seenOf j rest)
    rw [heq j] at hfront
    exact List.prefix_or_prefix_of_prefix hfront (List.prefix_append ..)
  · intro hhalted
    obtain ⟨hsame, _, rfl⟩ := hmeet.eq_of_halted (htracks.halted hhalted)
    refine ⟨?_, ?_⟩
    · intro j
      have := heq j
      rw [System.seenOf_nil, List.append_nil] at this
      rw [this]
      exact List.prefix_append ..
    · intro hhalted'
      obtain ⟨hsame', _, rfl⟩ := hmeet'.eq_of_halted (htracks'.halted hhalted')
      refine ⟨?_, ?_⟩
      · intro j
        have := heq j
        rwa [System.seenOf_nil, List.append_nil, List.append_nil] at this
      · intro report hreport
        rw [Machine.outcome?_eq_ok_iff] at hreport ⊢
        obtain ⟨hsucceeded, rfl⟩ := hreport
        rw [← hsame', hsame] at htracks'
        have hthreads := htracks.threads_eq hsucceeded htracks' hhalted'
        refine ⟨?_, by rw [hthreads]⟩
        intro t ht
        exact hsucceeded t (hthreads ▸ ht)

/-- A relay comes to the same report whichever partition goes first, though both of them are in a
different order. -/
theorem schedule_independent_relay : ∃ trace machine other final report,
    (Relay.simulation 1 2 2).Reaches trace machine ∧ (Relay.simulation 1 2 2).Reaches other final ∧
    trace.map (fun entry => entry.1) ≠ other.map (fun entry => entry.1) ∧
    (Machine.system _).Halted machine ∧ (Machine.system _).Halted final ∧
    (∀ j, System.seenOf j trace = System.seenOf j other) ∧
    machine.outcome? 2 = some (.ok report) ∧ final.outcome? 2 = some (.ok report) := by
  have h := Relay.reaches_run (Relay.simulation 1 2 2) (Relay.turns 0)
  have h' := Relay.reaches_run (Relay.simulation 1 2 2) (Relay.turns 1)
  obtain ⟨report, hreport⟩ : ∃ report,
      (Relay.run (Relay.simulation 1 2 2) (Relay.turns 0)).2.outcome? 2 = some (.ok report) :=
    ⟨_, rfl⟩
  obtain ⟨_, hreport'⟩ : ∃ report,
      (Relay.run (Relay.simulation 1 2 2) (Relay.turns 1)).2.outcome? 2 = some (.ok report) :=
    ⟨_, rfl⟩
  have hhalted := (Machine.outcome?_eq_ok_iff.mp hreport).1.halted
  have hhalted' := (Machine.outcome?_eq_ok_iff.mp hreport').1.halted
  obtain ⟨_, hall⟩ := schedule_independent (Relay.made 1 2) (Relay.build_eq 1 2) h h'
  obtain ⟨hsame, hok⟩ := (hall hhalted).2 hhalted'
  exact ⟨_, _, _, _, report, h, h', by decide +kernel, hhalted, hhalted', hsame, hreport,
    hok report hreport⟩

end Simulation

end Lookahead
