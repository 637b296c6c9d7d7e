import Lookahead.Proofs.Determinacy
import Lookahead.Proofs.Leaving
import Lookahead.Proofs.Visits

/-!
Lock-step.

Every partition decides alone when it meets the others, whether it stops and whether it goes through
another round, and yet all of them take part in the same rounds in the same order
(`Simulation.lockstep`).
-/

namespace Lookahead

variable {M : Model}

/-! ## One round at a gate -/

/-- The rounds of a course are those before its end. -/
theorem Pace.Ticks.lt_now {now : Pace} {past : List Pace} {rounds index : Nat} {epoch : Bool}
    (h : Ticks (now :: past) rounds epoch index) (hcourse : Course (now :: past)) :
    rounds < now.rounds := by
  obtain ⟨pace, meeting, _, hnext, hrounds, _⟩ := h
  rcases List.mem_cons.mp hnext with heq | hpast
  · rw [← heq, Pace.rounds_next]
    omega
  · have hlt := (hcourse.le_now hpast).1
    rw [Pace.rounds_next] at hlt
    omega

/-- Where a gate is ahead of the rounds that a thread has concluded, the thread has come to it. -/
theorem Thread.Timely.came {shared : Shared M.Payload} {t : Thread M} {gate : Gate}
    (h : t.Timely shared) (hahead : t.pace.rounds < (shared.barrier gate).generation) :
    (shared.barrier gate).generation = t.pace.rounds + 1 ∧
      ∃ work p round, t = .syncing work p round ∧ gate.place < round.position.came := by
  have hpassed : t.passed gate = t.pace.rounds + if gate.place < t.gates then 1 else 0 := rfl
  rcases h.reach gate with hsame | ⟨hnext, hawaits⟩
  · rw [hsame, hpassed] at hahead ⊢
    split at hahead
    · rename_i hlt
      refine ⟨by rw [if_pos hlt], ?_⟩
      cases t with
      | syncing work p round =>
        exact ⟨work, p, round, rfl, Nat.lt_of_lt_of_le hlt round.position.gates_le_came⟩
      | _ => cases hlt
    · omega
  · cases t with
    | syncing work p round =>
      cases hposition : round.position with
      | waiting gate' generation =>
        rw [awaits?_waiting hposition] at hawaits
        cases hawaits
        refine ⟨by rw [hnext, passed_waiting hposition]; rfl, work, p, round, rfl, ?_⟩
        rw [hposition]
        exact Nat.lt_succ_self _
      | _ => simp [awaits?, Round.Position.awaits?, hposition] at hawaits
    | _ => cases hawaits

/-- Whoever has taken everything in has yet to come to where the cohort is. -/
theorem Party.pace_taken_ne {q : Party M} {incoming : List (Scheduled M.Payload)} {least : Time}
    {now : Pace} (h : (q.conclude incoming least).stance.partition.pace = now) :
    (q.taken incoming).pace ≠ now := by
  obtain ⟨meeting, hnext⟩ := q.next_of_conclude h
  intro hnow
  have hrounds := congrArg Pace.rounds (hnow.trans hnext)
  rw [Pace.rounds_next] at hrounds
  omega

/-- Between two exchanges no gate was passed in the open round. -/
theorem Gathering.generation_eq {machine : Machine M} {cohort : Cohort M} {rounds i : Nat}
    {now : Pace} {t : Thread M} (h : Gathering machine cohort rounds) (hat : cohort.At now)
    (ht : machine.threads[i]? = some t) (htimely : t.Timely machine.shared) (hnow : t.pace = now)
    (gate : Gate) : (machine.shared.barrier gate).generation = now.rounds := by
  have hfree : t.gates = 0 ∧ ∀ gate generation, t.awaits? = some (gate, generation) →
      gate = .arrive ∧ generation = rounds := by
    obtain ⟨s, hs, hgathers⟩ := h.stands i t ht
    have hpace := hat i s hs
    cases hgathers with
    | released q incoming generation hne => exact absurd hnow (Party.pace_taken_ne hpace)
    | reading q incoming slot least => exact absurd hnow (Party.pace_taken_ne hpace)
    | waiting q =>
      refine ⟨rfl, fun gate generation hawaits => ?_⟩
      cases hawaits
      exact ⟨rfl, rfl⟩
    | _ => exact ⟨rfl, fun gate generation hawaits => by cases hawaits⟩
  rcases htimely.reach gate with hsame | ⟨hahead, hawaits⟩
  · rw [hsame, Thread.passed_of_gates hfree.1, hnow]
  · obtain ⟨rfl, hrounds⟩ := hfree.2 _ _ hawaits
    have hgeneration : (machine.shared.barrier .arrive).generation = rounds := h.arrive.generation
    omega

namespace Tracks

variable {machine : Machine M} {cohort : Cohort M} {now : Pace} {past : List Pace} {gate : Gate}

/-- Where a gate was passed in the open round, all threads in that round are in one of the same
kind. -/
theorem exists_kind_of_passed {S : Setting} {m : Moment} (h : Tracks machine cohort)
    (htimely : machine.Timely) (hat : cohort.At now) (hagrees : cohort.Agrees S m)
    (hpassed : now.rounds < (machine.shared.barrier gate).generation) :
    ∃ epoch, ∀ (i : Nat) (work : Work) (p : Partition M) (round : Round M.Payload),
      machine.threads[i]? = some (.syncing work p round) → p.pace = now →
        round.kind.isEpoch = epoch := by
  cases h with
  | gathering rounds h =>
    refine ⟨true, fun i work p round ht hnow => ?_⟩
    rw [h.generation_eq hat ht (htimely i _ ht) hnow gate] at hpassed
    exact absurd hpassed (Nat.lt_irrefl _)
  | handing rounds parties hne hready h =>
    subst hready
    obtain ⟨epoch, hepoch⟩ := (hagrees.convened hne).isEpoch_eq
    refine ⟨epoch, fun i work p round ht _ => ?_⟩
    obtain ⟨q, hq, hhands⟩ := h.stands i _ ht
    rw [← hepoch q (List.mem_of_getElem? hq)]
    cases hhands <;> rfl
  | taking rounds parties hne hready h =>
    subst hready
    obtain ⟨epoch, hepoch⟩ := (hagrees.convened hne).isEpoch_eq
    refine ⟨epoch, fun i work p round ht _ => ?_⟩
    obtain ⟨q, _, _, hq, _, _, htakes⟩ := h.stands i _ ht
    rw [← hepoch q (List.mem_of_getElem? hq)]
    cases htakes <;> first | rfl | exact congrArg _ (q.kind_roundTaken _)

/-- For a round that is complete at a gate, a partition has come there once. That was in a round
that the cohort has concluded, or the partition is still in it. -/
theorem arrival_of_complete {visits : List (PartitionId × Visit)} {i generation : Nat}
    {t : Thread M} (h : Tracks machine cohort) (htimely : machine.Timely)
    (hcourse : machine.OnCourse cohort now past) (hvisited : machine.Visited (now :: past) visits)
    (ht : machine.threads[i]? = some t)
    (hcomplete : generation < (machine.shared.barrier gate).generation) :
    ∃ epoch index, (System.seenOf i visits).filter (Visit.comesTo gate generation) =
        [.comes gate generation epoch index] ∧
      (Pace.Ticks (now :: past) generation epoch index ∨
        ∃ work p round, t = .syncing work p round ∧ p.pace = now ∧ now.rounds = generation ∧
          epoch = round.kind.isEpoch ∧ index = now.index epoch) := by
  have hthread := hvisited i t ht
  by_cases hold : generation < t.pace.rounds
  · obtain ⟨epoch, index, hticks, hfilter⟩ := hthread.concluded gate generation hold
    exact ⟨epoch, index, hfilter, Or.inl hticks⟩
  · have hahead : t.pace.rounds < (machine.shared.barrier gate).generation := by omega
    obtain ⟨hgeneration, work, p, round, rfl, hcame⟩ := (htimely i t ht).came hahead
    obtain rfl : generation = p.pace.rounds := by
      have hrounds : (Thread.syncing work p round).pace.rounds = p.pace.rounds := rfl
      omega
    have hfilter : (System.seenOf i visits).filter (Visit.comesTo gate p.pace.rounds) =
        Thread.came (.syncing work p round) gate := hthread.current rfl gate
    rw [Thread.came, if_pos hcame] at hfilter
    refine ⟨_, _, hfilter, ?_⟩
    rcases h.pace_eq_or_lags hcourse.at_now ht with hnow | ⟨_, _, _, meeting, heq, _, hnow⟩
    · have hnow' : p.pace = now := hnow
      exact Or.inr ⟨work, p, round, rfl, hnow', by rw [hnow'], rfl, by rw [hnow']⟩
    · cases heq
      exact Or.inl ⟨p.pace, meeting, hcourse.threads i _ ht,
        hnow ▸ List.mem_cons_self .., rfl, rfl⟩

/-- For a round that is complete at a gate everyone has come there once, in the same round. -/
theorem arrivals_of_complete {S : Setting} {m : Moment} {visits : List (PartitionId × Visit)}
    {generation : Nat} (h : Tracks machine cohort) (htimely : machine.Timely)
    (hcourse : machine.OnCourse cohort now past) (hagrees : cohort.Agrees S m)
    (hvisited : machine.Visited (now :: past) visits)
    (hcomplete : generation < (machine.shared.barrier gate).generation) :
    ∃ epoch index, ∀ (i : Nat) (t : Thread M), machine.threads[i]? = some t →
      (System.seenOf i visits).filter (Visit.comesTo gate generation) =
        [.comes gate generation epoch index] := by
  have hone := fun {i : Nat} {t : Thread M} (ht : machine.threads[i]? = some t) =>
    h.arrival_of_complete htimely hcourse hvisited ht hcomplete
  by_cases hopen : now.rounds = generation
  · obtain ⟨epoch, hepoch⟩ :=
      h.exists_kind_of_passed htimely hcourse.at_now hagrees (hopen ▸ hcomplete)
    refine ⟨epoch, now.index epoch, fun i t ht => ?_⟩
    obtain ⟨epoch', index, hfilter, hticks | ⟨work, p, round, rfl, hnow, _, rfl, rfl⟩⟩ := hone ht
    · have := hticks.lt_now hcourse.course
      omega
    · rw [hfilter, hepoch i work p round ht hnow]
  · have hticks : ∀ {i : Nat} {t : Thread M}, machine.threads[i]? = some t →
        ∃ epoch index, (System.seenOf i visits).filter (Visit.comesTo gate generation) =
          [.comes gate generation epoch index] ∧
            Pace.Ticks (now :: past) generation epoch index := by
      intro i t ht
      obtain ⟨epoch, index, hfilter, hticks | ⟨_, _, _, _, _, hnow, _⟩⟩ := hone ht
      · exact ⟨epoch, index, hfilter, hticks⟩
      · exact absurd hnow hopen
    cases hfirst : machine.threads[0]? with
    | none =>
      refine ⟨true, 0, fun i t ht => ?_⟩
      have hlength := List.getElem?_eq_none_iff.mp hfirst
      have hlt := (List.getElem?_eq_some_iff.mp ht).1
      omega
    | some t =>
      obtain ⟨epoch, index, _, hfirstTicks⟩ := hticks hfirst
      refine ⟨epoch, index, fun i u hu => ?_⟩
      obtain ⟨epoch', index', hfilter, hticks'⟩ := hticks hu
      obtain ⟨rfl, rfl⟩ := hfirstTicks.unique hticks' hcourse.course
      exact hfilter

end Tracks

/-! ## The same end for everyone -/

namespace Cohort

variable {cohort : Cohort M} {S : Setting}

/-- Partitions that are not alone leave the timed run for the same reason and at the same
instant. -/
theorem Departs.exit_unique (h : cohort.Departs S) (hmany : 1 < S.partitions) {i j : Nat}
    {s s' : Stance M} {stop stop' : StopReason} {time time' : Time} (hi : cohort[i]? = some s)
    (hj : cohort[j]? = some s') (hexit : s.exit? = some (stop, time))
    (hexit' : s'.exit? = some (stop', time')) :
    stop = stop' ∧ time = time' ∧ stop ≠ .exhausted := by
  have hnotfailed : ∀ {s : Stance M} {exit : StopReason × Time}, s.exit? = some exit →
      s.isFailed ≠ true := by
    intro s exit hs hfailed
    rw [Stance.exit?_of_isFailed hfailed] at hs
    cases hs
  -- Whoever leaves because nothing is left leaves together with everyone else.
  have hall : ∀ {k : Nat} {u : Stance M} {time : Time}, cohort[k]? = some u →
      (u.exit? = some (.drained, time) ∨ u.isFailed = true) → ∀ {exit : StopReason × Time},
        u.exit? = some exit → exit = (.drained, time) := by
    rintro k u time hk (hdrained | hfailed) exit hexit
    · exact Option.some.inj (hexit.symm.trans hdrained)
    · exact absurd hfailed (hnotfailed hexit)
  rcases h.exits hmany i s stop time hi hexit with ⟨rfl, hstop⟩ | ⟨rfl, hdrained⟩
  · rcases h.exits hmany j s' stop' time' hj hexit' with ⟨rfl, hstop'⟩ | ⟨rfl, hdrained'⟩
    · rw [hstop] at hstop'
      cases hstop'
      exact ⟨rfl, rfl, by decide⟩
    · cases hall hi (hdrained' i s hi) hexit
  · cases hall hj (hdrained j s' hj) hexit'
    exact ⟨rfl, rfl, by decide⟩

end Cohort

namespace Tracks

variable {machine : Machine M} {cohort : Cohort M} {now : Pace} {past : List Pace}

theorem onTime_running {S : Setting} {m : Moment} {i : Nat} {p : Partition M}
    (h : Tracks machine cohort) (hagrees : cohort.Agrees S m)
    (ht : machine.threads[i]? = some (.running .timed p)) : ∃ least, p.OnTime S least := by
  cases h with
  | handing rounds parties hne hready h =>
    obtain ⟨q, _, hhands⟩ := h.stands i _ ht
    cases hhands
  | taking rounds parties hne hready h =>
    obtain ⟨q, _, _, _, _, _, htakes⟩ := h.stands i _ ht
    cases htakes
  | gathering rounds h =>
    obtain ⟨s, hs, hgathers⟩ := h.stands i _ ht
    cases hgathers
    cases hagrees i _ hs with
    | running least p hontime hbuffers => exact ⟨least, hontime⟩

/-- In a run that succeeds everyone has ended in the cohort as well. -/
theorem ended_of_succeeded (h : Tracks machine cohort) (hsucceeded : machine.Succeeded)
    {t : Thread M} (ht : t ∈ machine.threads) : ∃ (j : Nat) (stop : StopReason) (p : Partition M),
      t = .ended (.ok stop) p ∧ cohort[j]? = some (.ended stop p) := by
  obtain ⟨stop, p, rfl⟩ := hsucceeded t ht
  obtain ⟨j, hj⟩ := List.mem_iff_getElem?.mp ht
  refine ⟨j, stop, p, rfl, ?_⟩
  rw [h.cohort_of_succeeded hsucceeded, List.getElem?_map, hj]
  rfl

/-- In a run that succeeds all partitions report the same end. -/
theorem reports_agree {S : Setting} (h : Tracks machine cohort)
    (hcourse : machine.OnCourse cohort now past) (hdeparts : cohort.Departs S)
    (hmany : 1 < S.partitions) {window : Nat} {report : RunReport}
    (hreport : machine.outcome? window = some (.ok report)) :
    ∃ stop time, stop ≠ .exhausted ∧ ∀ r ∈ report.partitions,
      r.stop = stop ∧ r.epochs = now.epochs ∧ r.untimedRounds = now.untimedRounds ∧
        r.finalTime = time := by
  obtain ⟨hsucceeded, rfl⟩ := Machine.outcome?_eq_ok_iff.mp hreport
  have hended := fun {t : Thread M} => h.ended_of_succeeded hsucceeded (t := t)
  cases hthreads : machine.threads with
  | nil => exact ⟨.stopAt, Time.zero, by decide, by simp⟩
  | cons t rest =>
    rw [hthreads] at hended
    obtain ⟨i, stop, p, rfl, hi⟩ := hended (List.mem_cons_self ..)
    refine ⟨stop, p.timeline.now, (hdeparts.exit_unique hmany hi hi rfl rfl).2.2, ?_⟩
    intro r hr
    obtain ⟨u, hu, hr⟩ := List.mem_filterMap.mp hr
    obtain ⟨j, stop', q, rfl, hj⟩ := hended hu
    have hpace : q.pace = now := hcourse.at_now j _ hj
    obtain ⟨rfl, htime, _⟩ := hdeparts.exit_unique hmany hi hj rfl rfl
    cases hr
    exact ⟨rfl, congrArg Pace.epochs hpace, congrArg Pace.untimedRounds hpace, htime.symm⟩

end Tracks

/-! ## Lock-step -/

namespace Simulation

variable {b : Builder M} {log : List (Planned M.Payload)} {simulation : Simulation M}
  {machine : Machine M}

/-- Partitions that are not alone go in lock-step. After as many epochs they have the same next
meeting, which is the one synchronization that is pending in a partition at work. Everyone comes
once to each gate in each round, and in the same round of the same kind, so that nobody is ahead of
the others by more than one round at any gate. A run that succeeds ends for all of them in the same
way. -/
theorem lockstep (hb : b.Made log) (hbuild : b.build = .ok simulation)
    (hmany : 1 < simulation.partitions.length) {schedule : List PartitionId}
    {visits : List (PartitionId × Visit)}
    (hrun : (Machine.gates M).Run simulation.machine schedule visits machine) :
    (∀ t ∈ machine.threads, ∀ u ∈ machine.threads, t.pace.epochs = u.pace.epochs →
      t.pace.nextSync = u.pace.nextSync) ∧
    (∀ p, .running .timed p ∈ machine.threads →
      p.timeline.agenda.filter Activity.isSync = [.ofMeeting p.member.nextSync]) ∧
    (∀ gate generation, generation < (machine.shared.barrier gate).generation →
      ∃ epoch index, ∀ i < simulation.partitions.length,
        (System.seenOf i visits).filter (Visit.comesTo gate generation) =
          [.comes gate generation epoch index]) ∧
    (∀ gate, ∀ i < simulation.partitions.length, ∀ j < simulation.partitions.length,
      (System.seenOf i visits).count (.passes gate) ≤
        (System.seenOf j visits).count (.passes gate) + 1) ∧
    (∀ report, machine.outcome? simulation.window = some (.ok report) →
      report.partitions.length = simulation.partitions.length ∧
      ∃ stop epochs untimedRounds time, stop ≠ .exhausted ∧ ∀ r ∈ report.partitions,
        r.stop = stop ∧ r.epochs = epochs ∧ r.untimedRounds = untimedRounds ∧
          r.finalTime = time) := by
  obtain ⟨labels, trace, cohort, now, past, hcohort, htracks, htimely, hcourse, hvisited⟩ :=
    visited hb hbuild hrun
  obtain ⟨hconforms, m, hagrees⟩ := agrees_run hb hbuild hcohort
  have hlength : machine.threads.length = simulation.partitions.length :=
    htracks.length_threads.trans hconforms.length
  have hthread : ∀ i < simulation.partitions.length, ∃ t, machine.threads[i]? = some t :=
    fun i hi => ⟨_, List.getElem?_eq_getElem (hlength ▸ hi)⟩
  refine ⟨?_, ?_, ?_, ?_, ?_⟩
  · intro t ht u hu hepochs
    obtain ⟨i, hi⟩ := List.mem_iff_getElem?.mp ht
    obtain ⟨j, hj⟩ := List.mem_iff_getElem?.mp hu
    exact hcourse.course.nextSync_eq (hcourse.threads i t hi) (hcourse.threads j u hj) hepochs
  · intro p hp
    obtain ⟨i, hi⟩ := List.mem_iff_getElem?.mp hp
    obtain ⟨least, hontime⟩ := htracks.onTime_running hagrees hi
    rw [hontime.syncs, hontime.nextSync]
    exact if_pos hmany
  · intro gate generation hcomplete
    obtain ⟨epoch, index, harrivals⟩ :=
      htracks.arrivals_of_complete htimely hcourse hagrees hvisited hcomplete
    refine ⟨epoch, index, fun i hi => ?_⟩
    obtain ⟨t, ht⟩ := hthread i hi
    exact harrivals i t ht
  · intro gate i hi j hj
    obtain ⟨t, ht⟩ := hthread i hi
    obtain ⟨u, hu⟩ := hthread j hj
    rw [(hvisited i t ht).passes, (hvisited j u hu).passes]
    -- Both have passed the gate as often as it was opened, or once less.
    have hfirst := (htimely i t ht).reach gate
    have hsecond := (htimely j u hu).reach gate
    omega
  · intro report hreport
    refine ⟨?_, ?_⟩
    · obtain ⟨hsucceeded, rfl⟩ := Machine.outcome?_eq_ok_iff.mp hreport
      rw [← hlength, List.filterMap_length_eq_length]
      intro t ht
      obtain ⟨stop, p, rfl⟩ := hsucceeded t ht
      rfl
    · obtain ⟨stop, time, hne, hreports⟩ :=
        htracks.reports_agree hcourse (departs_run hb hbuild hcohort) hmany hreport
      exact ⟨stop, _, _, time, hne, hreports⟩

/-- In a relay whose token makes two hops both partitions meet three times and end alike. -/
theorem lockstep_relay : ∃ schedule visits machine report,
    (Machine.gates _).Run (Relay.simulation 1 2 2).machine schedule visits machine ∧
    1 < (Relay.simulation 1 2 2).partitions.length ∧
    (machine.shared.barrier .arrive).generation = 3 ∧
    (∃ epoch index, ∀ i < 2, (System.seenOf i visits).filter (Visit.comesTo .arrive 2) =
      [.comes .arrive 2 epoch index]) ∧
    machine.outcome? 2 = some (.ok report) ∧
    ∃ stop time, stop ≠ .exhausted ∧
      ∀ r ∈ report.partitions, r.stop = stop ∧ r.finalTime = time := by
  obtain ⟨schedule, hrun⟩ :=
    (Machine.gates _).run_follow (Relay.simulation 1 2 2).machine (Relay.turns 0)
  obtain ⟨report, hreport⟩ : ∃ report, ((Machine.gates _).follow
      (Relay.simulation 1 2 2).machine (Relay.turns 0)).2.outcome? 2 = some (.ok report) := ⟨_, rfl⟩
  have hmany : 1 < (Relay.simulation 1 2 2).partitions.length := by decide
  have hgeneration : (((Machine.gates _).follow (Relay.simulation 1 2 2).machine
      (Relay.turns 0)).2.shared.barrier .arrive).generation = 3 := rfl
  obtain ⟨_, _, harrivals, _, hreports⟩ :=
    lockstep (Relay.made 1 2) (Relay.build_eq 1 2) hmany hrun
  obtain ⟨_, stop, _, _, time, hne, hsame⟩ := hreports report hreport
  refine ⟨schedule, _, _, report, hrun, hmany, hgeneration,
    harrivals .arrive 2 (by rw [hgeneration]; decide), hreport, stop, time, hne, fun r hr => ?_⟩
  obtain ⟨hstop, _, _, htime⟩ := hsame r hr
  exact ⟨hstop, htime⟩

end Simulation

end Lookahead
