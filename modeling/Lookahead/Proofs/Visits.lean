import Lookahead.Proofs.Pace

/-!
What is to be seen of a run at its gates.

A partition comes to each gate once in a round, unless it fails, and while just as many rounds are
complete there as it has concluded. So who came to a gate for a certain round of it came in the same
round of its own, and how often a gate was passed is known from where a thread is
(`Simulation.visited`).
-/

namespace Lookahead

variable {M : Model}

/-! ## Visits -/

/-- What is to be seen of a partition at a gate: it comes, in a round of this kind and number and
while so many rounds are complete at the gate, or it passes. -/
inductive Visit where
  | comes (gate : Gate) (generation : Nat) (epoch : Bool) (index : Nat)
  | passes (gate : Gate)
deriving DecidableEq

/-- Does someone come to this gate while so many rounds are complete there? -/
def Visit.comesTo (gate : Gate) (generation : Nat) : Visit → Bool
  | .comes gate' generation' _ _ => gate' = gate ∧ generation' = generation
  | .passes _ => false

theorem Visit.count_passes (gate other : Gate) :
    [passes gate].count (passes other) = if other = gate then 1 else 0 := by
  by_cases h : gate = other
  · subst h
    simp
  · simp [h, eq_comm]

def Round.arrival (round : Round M.Payload) (p : Partition M) (gate : Gate) (generation : Nat) :
    Visit :=
  .comes gate generation round.kind.isEpoch (p.pace.index round.kind.isEpoch)

/-- What is to be seen at the gates when a thread makes a step. Whoever is turned away has not come.
-/
def Thread.visits (shared : Shared M.Payload) : Thread M → List Visit
  | .syncing _ p round =>
    match round.position with
    | .entering gate =>
      let arrival := round.arrival p gate (shared.barrier gate).generation
      match (shared.barrier gate).arrive.2 with
      | .passed => [arrival, .passes gate]
      | .turnedAway => []
      | .waiting _ => [arrival]
    | .waiting gate generation =>
      match (shared.barrier gate).look generation with
      | .passed => [.passes gate]
      | _ => []
    | _ => []
  | _ => []

def Machine.gates (M : Model) : System (Machine M) PartitionId (PartitionId × Visit) where
  step? := step?
  note machine position :=
    match machine.threads[position]? with
    | none => []
    | some t => (t.visits machine.shared).map fun visit => (position, visit)

/-- How many gates of its round a partition has come to that stands here. -/
def Round.Position.came {π : Type} : Round.Position π → Nat
  | .entering gate => gate.place
  | .waiting gate _ => gate.place + 1
  | .handingOver _ => 1
  | .collecting _ => 2
  | .publishing => 2
  | .reading _ _ => 3

theorem Round.came_behind {π : Type} (gate : Gate) :
    (Round.behind gate : Position π).came = gate.place + 1 := by
  cases gate <;> rfl

theorem Round.Position.gates_le_came {π : Type} (position : Round.Position π) :
    position.gates ≤ position.came := by
  cases position <;> simp [gates, came]

theorem Round.Goes.came_eq {shared : Shared M.Payload} {p : Partition M}
    {position next : Round.Position M.Payload} (h : Round.Goes shared p position next) :
    next.came = position.came := by
  cases h <;> rfl

namespace Thread

def came (t : Thread M) (gate : Gate) : List Visit :=
  match t with
  | .syncing _ p round =>
    if gate.place < round.position.came then [round.arrival p gate p.pace.rounds] else []
  | _ => []

variable {shared : Shared M.Payload} {t : Thread M} {work : Work} {p : Partition M}
  {round : Round M.Payload} {gate : Gate}

theorem Afresh.came_eq (h : t.Afresh) : t.came = fun _ => [] := by
  funext gate
  cases h <;> simp [came, Round.Position.came, Gate.place]

theorem visits_goes {position : Round.Position M.Payload}
    (h : Round.Goes shared p round.position position) :
    visits shared (.syncing work p round) = [] := by
  generalize hposition : round.position = here at h
  cases h <;> simp [visits, hposition]

theorem came_eq_of_goes {q : Partition M} {next : Round M.Payload} (hpace : q.pace = p.pace)
    (hkind : next.kind = round.kind) (h : next.position.came = round.position.came) :
    came (.syncing work q next) = came (.syncing work p round) := by
  funext gate
  simp only [came, Round.arrival, h, hkind, hpace]

theorem came_moveTo (work : Work) {position : Round.Position M.Payload}
    (h : round.position.came = gate.place) (hnext : position.came = gate.place + 1)
    (other : Gate) :
    came (.syncing work p (round.moveTo position)) other =
      came (.syncing work p round) other ++
        [round.arrival p gate p.pace.rounds].filter (Visit.comesTo other p.pace.rounds) := by
  simp only [came, Round.moveTo, h, hnext]
  by_cases hother : gate = other
  · subst hother
    simp [Round.arrival, Visit.comesTo]
  · have hne : other.place ≠ gate.place := fun heq => hother (Gate.place_inj.mp heq).symm
    have hiff : other.place < gate.place + 1 ↔ other.place < gate.place := by omega
    simp [Round.arrival, Visit.comesTo, hother, hiff]

end Thread

/-! ## Rounds of a course -/

/-- After so many rounds of a course there was a round of this kind and number. -/
def Pace.Ticks (course : List Pace) (rounds : Nat) (epoch : Bool) (index : Nat) : Prop :=
  ∃ pace meeting, pace ∈ course ∧ pace.next epoch meeting ∈ course ∧ pace.rounds = rounds ∧
    index = pace.index epoch

theorem Pace.Ticks.unique {course : List Pace} {rounds index index' : Nat} {epoch epoch' : Bool}
    (h : Ticks course rounds epoch index) (h' : Ticks course rounds epoch' index')
    (hcourse : Course course) : epoch = epoch' ∧ index = index' := by
  obtain ⟨pace, meeting, hpace, hnext, hrounds, rfl⟩ := h
  obtain ⟨pace', meeting', hpace', hnext', hrounds', rfl⟩ := h'
  obtain rfl := hcourse.eq_of_rounds hpace hpace' (hrounds.trans hrounds'.symm)
  have hsame := hcourse.eq_of_rounds hnext hnext' (by simp)
  have hepochs := congrArg Pace.epochs hsame
  have hepoch : epoch = epoch' := by
    cases epoch <;> cases epoch' <;> simp [Pace.next] at hepochs ⊢
  exact ⟨hepoch, by rw [hepoch]⟩

/-! ## What was to be seen of a thread -/

/-- A partition on a course has come to each gate in every round of the course that it has
concluded, and as often has it passed. -/
structure Thread.Visited (course : List Pace) (visits : List Visit) (t : Thread M) : Prop where
  passes : ∀ gate, visits.count (.passes gate) = t.passed gate
  concluded : ∀ gate k, k < t.pace.rounds → ∃ epoch index, Pace.Ticks course k epoch index ∧
    visits.filter (Visit.comesTo gate k) = [.comes gate k epoch index]
  current : t.error? = none → ∀ gate,
    visits.filter (Visit.comesTo gate t.pace.rounds) = t.came gate
  ahead : ∀ gate k, t.pace.rounds < k → visits.filter (Visit.comesTo gate k) = []

namespace Thread.Visited

variable {shared : Shared M.Payload} {t t' : Thread M} {course later : List Pace}
  {visits more : List Visit}

theorem mono (h : t.Visited course visits) (hsub : course ⊆ later) : t.Visited later visits := by
  refine ⟨h.passes, fun gate k hk => ?_, h.current, h.ahead⟩
  obtain ⟨epoch, index, ⟨pace, meeting, hpace, hnext, hrounds⟩, hfilter⟩ := h.concluded gate k hk
  exact ⟨epoch, index, ⟨pace, meeting, hsub hpace, hsub hnext, hrounds⟩, hfilter⟩

theorem append (h : t.Visited course visits) (hpace : t'.pace = t.pace)
    (hpasses : ∀ gate, t'.passed gate = t.passed gate + more.count (.passes gate))
    (hcomes : ∀ gate k, k ≠ t.pace.rounds → more.filter (Visit.comesTo gate k) = [])
    (hcurrent : t'.error? = none → t.error? = none ∧ ∀ gate,
      t'.came gate = t.came gate ++ more.filter (Visit.comesTo gate t.pace.rounds)) :
    t'.Visited course (visits ++ more) := by
  constructor
  case passes =>
    intro gate
    rw [List.count_append, h.passes, hpasses]
  case concluded =>
    intro gate k hk
    rw [hpace] at hk
    rw [List.filter_append, hcomes gate k (by omega), List.append_nil]
    exact h.concluded gate k hk
  case current =>
    intro hsound gate
    obtain ⟨hsound', hcame⟩ := hcurrent hsound
    rw [hpace, List.filter_append, h.current hsound', hcame]
  case ahead =>
    intro gate k hk
    rw [hpace] at hk
    rw [List.filter_append, hcomes gate k (by omega), h.ahead gate k hk]
    rfl

/-- A thread goes on without coming to a gate or passing one. -/
theorem quiet (h : t.Visited course visits) (hpace : t'.pace = t.pace)
    (hgates : t'.gates = t.gates)
    (hcurrent : t'.error? = none → t.error? = none ∧ t'.came = t.came) :
    t'.Visited course visits := by
  rw [← List.append_nil visits]
  exact h.append hpace (fun gate => by simp [passed, hpace, hgates]) (fun _ _ _ => rfl)
    fun hsound => ⟨(hcurrent hsound).1, by simp [(hcurrent hsound).2]⟩

theorem conclude {work : Work} {p : Partition M} {round : Round M.Payload} {slot : Nat}
    {least meeting : Time} (h : (Thread.syncing work p round).Visited course visits)
    (hposition : round.position = .reading slot least) (hafresh : t'.Afresh)
    (hpace : t'.pace = p.pace.next round.kind.isEpoch meeting) (hp : p.pace ∈ course)
    (hnext : t'.pace ∈ course) : t'.Visited course visits := by
  have hrounds : t'.pace.rounds = p.pace.rounds + 1 := by rw [hpace, Pace.rounds_next]
  have hlt : ∀ gate : Gate, gate.place < 3 := by
    intro gate
    cases gate <;> decide
  constructor
  case passes =>
    intro gate
    rw [h.passes, passed_of_gates hafresh.gates_eq, hrounds, passed_syncing, hposition]
    simp [Round.Position.gates, hlt]
  case concluded =>
    intro gate k hk
    by_cases hold : k < p.pace.rounds
    · exact h.concluded gate k hold
    · obtain rfl : k = p.pace.rounds := by omega
      refine ⟨_, _, ⟨p.pace, meeting, hp, hpace ▸ hnext, rfl, rfl⟩, ?_⟩
      have hcame : visits.filter (Visit.comesTo gate p.pace.rounds) =
        came (.syncing work p round) gate := h.current rfl gate
      rw [hcame]
      simp [came, hposition, Round.Position.came, hlt, Round.arrival]
  case current =>
    intro _ gate
    rw [hafresh.came_eq]
    exact h.ahead gate _ (by rw [hrounds]; exact Nat.lt_succ_self _)
  case ahead =>
    intro gate k hk
    exact h.ahead gate k (by show p.pace.rounds < k; omega)

end Thread.Visited

/-! ## Steps -/

namespace Tracks

variable {machine next : Machine M} {cohort : Cohort M} {i j : Nat} {t t' : Thread M} {work : Work}
  {p : Partition M} {round : Round M.Payload} {gate : Gate} {shared' : Shared M.Payload}
  {course : List Pace} {visits : List Visit}

theorem visited_arrive (h : Tracks machine cohort)
    (ht : machine.threads[i]? = some (.syncing work p round))
    (hposition : round.position = .entering gate)
    (htimely : (Thread.syncing work p round).Timely machine.shared)
    (hvisited : (Thread.syncing work p round).Visited course visits) :
    (Thread.stand work p round gate (machine.shared.barrier gate).arrive.2).Visited course
      (visits ++ Thread.visits machine.shared (.syncing work p round)) := by
  have hgates : round.position.gates = gate.place := by rw [hposition]; rfl
  have hplace : round.position.came = gate.place := by rw [hposition]; rfl
  have hgeneration : (machine.shared.barrier gate).generation = p.pace.rounds := by
    rw [htimely.generation_eq (Thread.awaits?_entering hposition),
      Thread.passed_entering hposition]
  have hcomes : ∀ other k, k ≠ p.pace.rounds →
      [round.arrival p gate p.pace.rounds].filter (Visit.comesTo other k) = [] := by
    intro other k hk
    simp [Round.arrival, Visit.comesTo, hk.symm]
  cases hstanding : (machine.shared.barrier gate).arrive.2 with
  | passed =>
    have hvisits : Thread.visits machine.shared (.syncing work p round) =
        [round.arrival p gate p.pace.rounds, .passes gate] := by
      simp [Thread.visits, hposition, hstanding, hgeneration]
    rw [hvisits]
    refine hvisited.append rfl (fun other => ?_) (fun other k hk => ?_)
      fun _ => ⟨rfl, fun other => ?_⟩
    · show Thread.passed (.syncing work p (round.moveTo (Round.behind gate))) other = _
      rw [Thread.passed_behind other hgates, List.count_cons_of_ne (by simp [Round.arrival]),
        Visit.count_passes]
    · exact hcomes other k hk
    · exact Thread.came_moveTo work hplace (Round.came_behind gate) other
  | waiting generation =>
    have hvisits : Thread.visits machine.shared (.syncing work p round) =
        [round.arrival p gate p.pace.rounds] := by
      simp [Thread.visits, hposition, hstanding, hgeneration]
    rw [hvisits]
    refine hvisited.append rfl (fun other => ?_) hcomes fun _ => ⟨rfl, fun other => ?_⟩
    · show Thread.passed (.syncing work p (round.moveTo (.waiting gate generation))) other = _
      rw [List.count_cons_of_ne (by simp [Round.arrival]), List.count_nil, Nat.add_zero,
        Thread.passed_syncing, Thread.passed_syncing, hgates]
      rfl
    · exact Thread.came_moveTo work hplace rfl other
  | turnedAway =>
    have hvisits : Thread.visits machine.shared (.syncing work p round) = [] := by
      simp [Thread.visits, hposition, hstanding]
    obtain rfl := h.not_turnedAway_entering ht hposition hstanding
    rw [hvisits, List.append_nil]
    exact hvisited.quiet rfl hgates.symm fun hsound => by cases hsound

theorem visited_look (h : Tracks machine cohort) {generation : Nat}
    (ht : machine.threads[i]? = some (.syncing work p round))
    (hposition : round.position = .waiting gate generation)
    (hlook : ∀ g, (machine.shared.barrier gate).look generation ≠ .waiting g)
    (hvisited : (Thread.syncing work p round).Visited course visits) :
    (Thread.stand work p round gate ((machine.shared.barrier gate).look generation)).Visited course
      (visits ++ Thread.visits machine.shared (.syncing work p round)) := by
  have hgates : round.position.gates = gate.place := by rw [hposition]; rfl
  cases hstanding : (machine.shared.barrier gate).look generation with
  | waiting g => exact absurd hstanding (hlook g)
  | passed =>
    have hvisits : Thread.visits machine.shared (.syncing work p round) = [.passes gate] := by
      simp [Thread.visits, hposition, hstanding]
    rw [hvisits]
    refine hvisited.append rfl (fun other => ?_) (fun _ _ _ => rfl) fun _ => ⟨rfl, fun other => ?_⟩
    · show Thread.passed (.syncing work p (round.moveTo (Round.behind gate))) other = _
      rw [Thread.passed_behind other hgates, Visit.count_passes]
    · have hsame : Thread.came (.syncing work p (round.moveTo (Round.behind gate))) =
          Thread.came (.syncing work p round) := by
        refine Thread.came_eq_of_goes rfl rfl ?_
        rw [hposition]
        exact Round.came_behind gate
      exact (congrFun hsame other).trans (List.append_nil _).symm
  | turnedAway =>
    have hvisits : Thread.visits machine.shared (.syncing work p round) = [] := by
      simp [Thread.visits, hposition, hstanding]
    obtain rfl := h.not_turnedAway_waiting ht hposition hstanding
    rw [hvisits, List.append_nil]
    exact hvisited.quiet rfl hgates.symm fun hsound => by cases hsound

/-- A thread that makes a step and stays on the course. -/
theorem visited_mover (h : Tracks machine cohort) (ht : machine.threads[i]? = some t)
    (htimely : t.Timely machine.shared) (hvisited : t.Visited course visits)
    (hmoves : t.Moves machine.shared shared' t') (hcourse : t.pace ∈ course)
    (hcourse' : t'.pace ∈ course) : t'.Visited course (visits ++ t.visits machine.shared) := by
  cases hmoves with
  | arrive work p round gate hposition => exact h.visited_arrive ht hposition htimely hvisited
  | look work p round gate generation hposition hlook =>
    exact h.visited_look ht hposition hlook hvisited
  | lost work p q round target box batch hpace hposition hbox hpost =>
    exact absurd hpost (h.post?_ne_none ht hposition hbox batch)
  | work work p =>
    have hafresh := Thread.afresh_workOn work p
    rw [show Thread.visits machine.shared (.running work p) = [] from rfl, List.append_nil]
    exact hvisited.quiet (Thread.pace_workOn work p) hafresh.gates_eq fun _ =>
      ⟨rfl, hafresh.came_eq⟩
  | goes work p q round next _ hbarriers hpace hkind hgoes =>
    rw [Thread.visits_goes hgoes, List.append_nil]
    exact hvisited.quiet hpace hgoes.gates_eq.1 fun _ =>
      ⟨rfl, Thread.came_eq_of_goes hpace hkind hgoes.came_eq⟩
  | conclude work p round slot least _ meeting hposition hafresh hpace =>
    have hvisits : Thread.visits machine.shared (.syncing work p round) = [] := by
      simp [Thread.visits, hposition]
    rw [hvisits, List.append_nil]
    exact hvisited.conclude hposition hafresh hpace hcourse hcourse'
  | abort gate e p t htarget =>
    subst htarget
    rw [show Thread.visits machine.shared (.aborting gate e p) = [] from rfl, List.append_nil]
    cases gate <;> exact hvisited.quiet rfl rfl fun hsound => by cases hsound

end Tracks

/-! ## Runs -/

def Machine.Visited (machine : Machine M) (course : List Pace)
    (visits : List (PartitionId × Visit)) : Prop := ∀ (i : Nat) (t : Thread M),
  machine.threads[i]? = some t → t.Visited course (System.seenOf i visits)

theorem Machine.seenOf_gates {machine : Machine M} {i : Nat} {t : Thread M}
    (ht : machine.threads[i]? = some t) (j : Nat) :
    System.seenOf j ((gates M).note machine i) =
      if i = j then t.visits machine.shared else [] := by
  have hnote : (gates M).note machine i =
      (t.visits machine.shared).map fun visit => (i, visit) := by
    simp [gates, ht]
  rw [hnote, System.seenOf, List.filterMap_map]
  show List.filterMap (fun visit => if i = j then some visit else none) _ = _
  by_cases hij : i = j
  · simp [hij]
  · simp [hij]

theorem Tracks.visited_step {machine next : Machine M} {cohort : Cohort M} {i : Nat}
    {course later : List Pace} {visits : List (PartitionId × Visit)} (h : Tracks machine cohort)
    (htimely : machine.Timely) (hvisited : machine.Visited course visits)
    (hstep : machine.step? i = some next) (hsub : course ⊆ later)
    (hcourse : ∀ (j : Nat) (t : Thread M), machine.threads[j]? = some t → t.pace ∈ course)
    (hlater : ∀ (j : Nat) (t : Thread M), next.threads[j]? = some t → t.pace ∈ later) :
    next.Visited later (visits ++ (Machine.gates M).note machine i) := by
  obtain ⟨t, shared, t', ht, hmoves, rfl⟩ := Machine.moves_of_step? hstep
  have hkept : ∀ (j : Nat) (u : Thread M), (machine.threads.set i t')[j]? = some u →
      u.Visited later (System.seenOf j (visits ++ (Machine.gates M).note machine i)) := by
    refine forall_set (fun j u hji hu => ?_) ?_
    · rw [System.seenOf_append, Machine.seenOf_gates ht, if_neg hji.symm, List.append_nil]
      exact (hvisited j u hu).mono hsub
    · rw [System.seenOf_append, Machine.seenOf_gates ht, if_pos rfl]
      exact h.visited_mover ht (htimely i t ht) ((hvisited i t ht).mono hsub) hmoves
        (hsub (hcourse i t ht)) (hlater i t' (getElem?_set_of_some ht))
  exact hkept

namespace Simulation

variable {b : Builder M} {log : List (Planned M.Payload)} {simulation : Simulation M}
  {machine : Machine M}

/-- A thread that has not begun has not visited any gate. -/
theorem visited_start (hb : b.Made log) (hbuild : b.build = .ok simulation) :
    simulation.machine.Visited [⟨0, 0, Time.ofNat simulation.window⟩] [] := by
  intro i t ht
  obtain ⟨hafresh, hpace⟩ := pace_start hb hbuild ht
  constructor
  case passes =>
    intro gate
    rw [Thread.passed_of_gates hafresh.gates_eq, hpace]
    rfl
  case concluded =>
    intro gate k hk
    rw [hpace] at hk
    exact absurd hk (Nat.not_lt_zero k)
  case current =>
    intro _ gate
    rw [hafresh.came_eq]
    rfl
  case ahead => exact fun _ _ _ => rfl

/-- Wherever a run gets to, all partitions have visited the gates as their course says. -/
theorem visited (hb : b.Made log) (hbuild : b.build = .ok simulation)
    {schedule : List PartitionId} {visits : List (PartitionId × Visit)}
    (hrun : (Machine.gates M).Run simulation.machine schedule visits machine) :
    ∃ labels trace cohort now past,
      (Cohort.system M).Run simulation.cohort labels trace cohort ∧ Tracks machine cohort ∧
        machine.Timely ∧ machine.OnCourse cohort now past ∧
          machine.Visited (now :: past) visits := by
  obtain ⟨labels, trace, cohort, hcohort, htracks, _, htimely, now, past, hcourse, hvisited⟩ :=
    follow (P := fun visits x cohort => x.Timely ∧
      ∃ now past, x.OnCourse cohort now past ∧ x.Visited (now :: past) visits) rfl hb hbuild
      ⟨timely_start hb hbuild, _, _, onCourse_start hb hbuild, visited_start hb hbuild⟩ (by
        rintro visits x y cohort next labels more trace seen i hrun htracks
          ⟨htimely, now, past, hx, hvisited⟩ hstep hmore hnext
        obtain ⟨now', past', hy, hsuffix⟩ := onCourse_step hb hbuild hrun hx hstep hmore hnext
        exact ⟨htracks.timely_step htimely hstep, now', past', hy,
          htracks.visited_step htimely hvisited hstep hsuffix.subset hx.threads hy.threads⟩) hrun
  exact ⟨labels, trace, cohort, now, past, hcohort, htracks, htimely, hcourse, hvisited⟩

end Simulation

end Lookahead
