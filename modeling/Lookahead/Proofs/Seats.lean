import Lookahead.Proofs.Effort
import Lookahead.Proofs.Ties
import Lookahead.Sync.Assembly

/-!
Meetings on their own, as machines whose partitions do nothing else.

A seat is a thread in a round whose partition has neither handlers nor clocks, so what is known of
the rounds of a machine holds of a meeting. Whatever the interleaving, an epoch takes a bounded
number of steps, it never gets stuck, and when it is over every seat is where its party concludes
(`Meeting.Held.seat_eq`).
-/

namespace Lookahead

variable {π : Type}

/-! ## Seats in an epoch -/

def Member.Cleared (member : Member π) : Prop :=
  member.outbound = member.outbound.map fun _ => {}

namespace Seat

/-- In an epoch every round is timed, and whoever has concluded it has nothing left to hand over and
is told the next meeting. -/
def Sound (seat : Seat π) : Prop :=
  match seat.progress with
  | .going round => round.kind = .epoch
  | .over (.ok (.resume next)) => seat.member.nextSync = next ∧ seat.member.Cleared
  | .over (.ok .drained) => seat.member.Cleared
  | .over (.ok (.untimed _ _)) => False
  | .over (.error _) => True

theorem sound_conclude {seat : Seat π} {round : Round π} (hkind : round.kind = .epoch)
    (hcleared : seat.member.Cleared) (least : Time) : (seat.conclude round least).Sound := by
  simp only [conclude, hkind, Sound]
  by_cases hleast : least = Time.never
  · simp only [hleast, ↓reduceIte]
    exact hcleared
  · simp only [hleast, ↓reduceIte]
    exact ⟨trivial, hcleared⟩

end Seat

variable [DataSize π]

/-! ## Partitions that do nothing -/

/-- A model without handlers of any kind. -/
abbrev Model.bare (π : Type) [DataSize π] : Model where
  Payload := π
  State := Unit
  initial := ()
  Receiver := Empty
  Ticker := Empty
  Participant := Empty
  receive := fun receiver => nomatch receiver
  tick := fun handler => nomatch handler
  phase := fun participant => nomatch participant

/-- A partition that only has its side of the exchange and a timeline. Its thread does not end with
the timed run, so that its inbox stays. -/
def Member.bare (member : Member π) (timeline : Timeline π) (id : PartitionId) :
    Partition (Model.bare π) where
  id := id
  timeline := timeline
  routes := ⟨id, []⟩
  receivers := []
  clocks := {}
  requests := {}
  participants := []
  member := member
  lifecycle := true
  synchronized := true
  stopAt := none

namespace Seat

def thread (seat : Seat π) (id : PartitionId) : Thread (Model.bare π) :=
  let p := seat.member.bare seat.timeline id
  match seat.progress with
  | .going round => .syncing .timed p round
  | .over (.ok outcome) => Thread.afterRound .timed p .epoch outcome
  | .over (.error e) => Thread.fail (.ofSync id e) p

def party (member : Member π) (timeline : Timeline π) (id : PartitionId) :
    Party (Model.bare π) :=
  ⟨.timed, member.startEpoch.bare timeline id, .epoch⟩

variable {shared shared' : Shared π} {seat seat' : Seat π} {round : Round π}

/-! ## Steps -/

def GoesOn (round : Round π) (seat seat' : Seat π) : Prop :=
  (∃ next, seat'.progress = .going next ∧ next.kind = round.kind ∧
      seat'.member.pace = seat.member.pace) ∨
    ∃ e, seat'.progress = .over (.error e)

omit [DataSize π] in
theorem goesOn_stand (seat : Seat π) (round : Round π) (gate : Gate) (standing : Standing) :
    GoesOn round seat (seat.stand round gate standing) := by
  cases standing with
  | passed => exact Or.inl ⟨_, rfl, rfl, rfl⟩
  | turnedAway => exact Or.inr ⟨_, rfl⟩
  | waiting generation => exact Or.inl ⟨_, rfl, rfl, rfl⟩

theorem goesOn_handOver (shared : Shared π) (seat : Seat π) (round : Round π)
    (target : PartitionId) : GoesOn round seat (seat.handOver shared round target).2 := by
  unfold handOver
  split
  · refine Or.inl ⟨_, rfl, rfl, ?_⟩
    simp only [handedOver]
    cases round.kind <;> rfl
  · split
    · exact Or.inl ⟨_, rfl, rfl, rfl⟩
    · dsimp only
      split
      · exact Or.inr ⟨_, rfl⟩
      · exact Or.inl ⟨_, rfl, rfl, rfl⟩

omit [DataSize π] in
theorem goesOn_collect (shared : Shared π) (seat : Seat π) (round : Round π)
    (got : List (Batch π)) : GoesOn round seat (seat.collect shared round got).2 := by
  unfold collect
  split
  · exact Or.inl ⟨_, rfl, rfl, rfl⟩
  · refine Or.inl ?_
    cases hkind : round.kind with
    | epoch =>
      simp only [collected, hkind]
      exact ⟨_, rfl, hkind, trivial⟩
    | untimed own =>
      simp only [collected, hkind]
      exact ⟨_, rfl, rfl, rfl⟩

/-- A step of a seat goes on with the round, or the round fails, or it is concluded behind the last
of the minimums. -/
theorem step?_cases (h : seat.step? shared = some (shared', seat')) :
    ∃ round, seat.progress = .going round ∧ (GoesOn round seat seat' ∨
      ∃ slot least, round.position = .reading slot least ∧ seat' = seat.conclude round least) := by
  unfold step? at h
  split at h
  · cases h
  rename_i round hround
  refine ⟨round, hround, ?_⟩
  split at h
  case _ gate hposition =>
    cases h
    exact Or.inl (goesOn_stand seat round gate _)
  case _ gate generation hposition =>
    split at h
    · cases h
    · cases h
      exact Or.inl (goesOn_stand seat round gate _)
  case _ target hposition =>
    have hafter := goesOn_handOver shared seat round target
    rw [Option.some.inj h] at hafter
    exact Or.inl hafter
  case _ got hposition =>
    have hafter := goesOn_collect shared seat round got
    rw [Option.some.inj h] at hafter
    exact Or.inl hafter
  case _ hposition =>
    cases h
    exact Or.inl (Or.inl ⟨_, rfl, rfl, rfl⟩)
  case _ slot least hposition =>
    unfold read at h
    split at h
    · cases h
      exact Or.inl (Or.inl ⟨_, rfl, rfl, rfl⟩)
    · cases h
      exact Or.inr ⟨slot, least, hposition, rfl⟩

theorem step?_thread (shared : Shared π) (hround : seat.progress = .going round)
    (hkind : round.kind = .epoch) (id : PartitionId) :
    Thread.step? shared (seat.thread id) =
      (seat.step? shared).map fun next => (next.1, next.2.thread id) := by
  have hthread : seat.thread id = .syncing .timed (seat.member.bare seat.timeline id) round := by
    simp only [thread, hround]
  have hseat : (⟨seat.member, seat.timeline, .going round⟩ : Seat π) = seat := by rw [← hround]
  rw [hthread]
  simp only [Thread.step?, Thread.syncOn, Member.bare, hseat]
  cases hstep : seat.step? shared with
  | none => rfl
  | some next =>
    obtain ⟨shared', seat'⟩ := next
    simp only [Option.map_some, thread]
    cases seat'.progress with
    | going next => rfl
    | «over» result =>
      cases result with
      | ok outcome => simp only [hkind]; rfl
      | error e => rfl

/-- No thread of an epoch comes to its end. -/
theorem result?_thread (seat : Seat π) (id : PartitionId) : (seat.thread id).result? = none := by
  unfold thread
  split
  · rfl
  · rename_i outcome _
    cases outcome <;> rfl
  · rfl

theorem going_of_syncing {id : PartitionId} {work : Work} {p : Partition (Model.bare π)}
    (h : seat.thread id = .syncing work p round) : seat.progress = .going round := by
  unfold thread at h
  split at h
  · rename_i next hnext
    rw [hnext]
    cases h
    rfl
  · rename_i outcome _
    cases outcome <;> cases h
  · cases h

end Seat

/-! ## Rounds of a machine -/

section

variable {M : Model} {machine : Machine M} {cohort : Cohort M} {parties : List (Party M)} {i : Nat}
  {t : Thread M} {work : Work} {p : Partition M} {round : Round M.Payload}

/-- Whoever reads the minimums has handed everything over. -/
theorem Tracks.cleared_of_reading (h : Tracks machine cohort)
    (ht : machine.threads[i]? = some (.syncing work p round)) {slot : Nat} {least : Time}
    (hposition : round.position = .reading slot least) :
    p.member.outbound = p.member.outbound.map fun _ => {} := by
  cases h with
  | gathering rounds h =>
    obtain ⟨s, _, hgathers⟩ := h.stands i _ ht
    cases hgathers with
    | reading q incoming slot least =>
      rw [Party.outbound_taken, List.map_map]
      rfl
    | _ => cases hposition
  | handing rounds parties hne hready h =>
    obtain ⟨q, _, hhands⟩ := h.stands i _ ht
    cases hhands <;> cases hposition
  | taking rounds parties hne hready h =>
    obtain ⟨q, _, _, _, _, _, htakes⟩ := h.stands i _ ht
    cases htakes <;> cases hposition

theorem Tracks.syncing_of_ready (h : Tracks machine (parties.map Stance.ready))
    (ht : machine.threads[i]? = some t) : ∃ work p round, t = .syncing work p round := by
  cases h with
  | gathering rounds h =>
    obtain ⟨s, hs, hgathers⟩ := h.stands i _ ht
    rw [List.getElem?_map] at hs
    obtain ⟨q, _, rfl⟩ := Option.map_eq_some_iff.mp hs
    generalize hready : Stance.ready q = s at hgathers
    cases hgathers with
    | entering q => exact ⟨_, _, _, rfl⟩
    | waiting q => exact ⟨_, _, _, rfl⟩
    | released q incoming generation hne => exact ⟨_, _, _, rfl⟩
    | reading q incoming slot least => exact ⟨_, _, _, rfl⟩
    | turnedAway gate q hbroken => exact absurd hbroken (Cohort.not_broken_ready parties)
    | left q hbroken => exact absurd hbroken (Cohort.not_broken_ready parties)
    | running work p => cases hready
    | failing gate e p => cases hready
    | ended stop p => cases hready
    | failed e p => cases hready
  | handing rounds parties hne hready h =>
    obtain ⟨q, _, hhands⟩ := h.stands i _ ht
    cases hhands <;> exact ⟨_, _, _, rfl⟩
  | taking rounds parties hne hready h =>
    obtain ⟨q, _, _, _, _, _, htakes⟩ := h.stands i _ ht
    cases htakes <;> exact ⟨_, _, _, rfl⟩

theorem Tracks.not_halted_in_round (h : Tracks machine (parties.map Stance.ready)) :
    ¬ (Machine.system M).Halted machine := by
  cases h with
  | gathering rounds h => exact not_halted_of_ready h
  | handing rounds parties hne hready h => exact not_halted_handing h
  | taking rounds parties hne hready h => exact not_halted_taking h

end

theorem Gathers.eq_running {rounds : Nat} {minimums : List Time} {broken : Prop}
    (h : Gathers rounds minimums broken t (.running work p))
    (hidle : ∀ work p round, t ≠ .syncing work p round) : t = .running work p := by
  generalize hs : Stance.running work p = s at h
  cases h with
  | running work p =>
    cases hs
    rfl
  | entering q => exact absurd rfl (hidle _ _ _)
  | waiting q => exact absurd rfl (hidle _ _ _)
  | released q incoming generation hne => exact absurd rfl (hidle _ _ _)
  | reading q incoming slot least => exact absurd rfl (hidle _ _ _)
  | failing gate e p => cases hs
  | turnedAway gate q hbroken => cases hs
  | ended stop p => cases hs
  | failed e p => cases hs
  | left q hbroken => cases hs

/-! ## Meetings -/

/-- Partitions that are about to begin an epoch together. -/
structure Party.Seated (parties : List (Party (Model.bare π))) : Prop where
  ne_nil : parties ≠ []
  placed : Party.Placed parties
  begins : ∀ q ∈ parties, ∃ member timeline id, q = Seat.party member timeline id

theorem Seat.conclude_party (member : Member π) (timeline : Timeline π) (id : PartitionId)
    (incoming : List (Scheduled π)) (least : Time) :
    ∃ work p, (Seat.party member timeline id).conclude incoming least = .running work p := by
  unfold Party.conclude Seat.party
  by_cases hleast : least = Time.never
  · simp only [hleast, ↓reduceIte]
    exact ⟨_, _, rfl⟩
  · simp only [hleast, ↓reduceIte]
    exact ⟨_, _, rfl⟩

def Member.spent (member : Member π) : Member π :=
  { member.startEpoch with outbound := member.outbound.map fun _ => {} }.addExchanged
    (total Outbox.size member.outbound) (total Outbox.dataSize member.outbound)

theorem Member.cleared_spent (member : Member π) : member.spent.Cleared := by
  show List.map _ _ = List.map _ (List.map _ _)
  rw [List.map_map]
  rfl

namespace Seat

/-- Where an epoch leaves a partition: it has handed everything over, `incoming` is on its timeline,
and `least` is the least pending time of all partitions. -/
def after (member : Member π) (timeline : Timeline π) (incoming : List (Scheduled π))
    (least : Time) : Seat π :=
  let round : Round π := { kind := .epoch }
  conclude ⟨member.spent, timeline.addAll incoming, .going round⟩ round least

variable {member : Member π} {timeline : Timeline π} {incoming : List (Scheduled π)} {least : Time}
  {id : PartitionId} {seat : Seat π}

theorem member_prepareComplete (h : member.Cleared) :
    (member.bare timeline id).prepareComplete.member = member := by
  show { member with outbound := member.outbound.map fun _ => {} } = member
  rw [← h]

/-- A seat whose thread has concluded an epoch is where the epoch leaves it. -/
theorem eq_after_of_thread (hsound : seat.Sound)
    (h : seat.thread id = (party member timeline id).conclude incoming least) :
    seat = after member timeline incoming least := by
  obtain ⟨m, t, progress⟩ := seat
  unfold after conclude
  by_cases hleast : least = Time.never
  · have hdrained : (party member timeline id).conclude incoming least =
        .running (.complete 0 .drained)
          (member.spent.finishEpoch.bare (timeline.addAll incoming) id).prepareComplete := by
      simp only [Party.conclude, hleast]
      rfl
    rw [hdrained] at h
    cases progress with
    | going round => cases h
    | «over» result =>
      cases result with
      | error e => cases h
      | ok outcome =>
        cases outcome with
        | resume nextSync => cases h
        | untimed received more => cases hsound
        | drained =>
          have hspent : member.spent.finishEpoch.Cleared := member.cleared_spent
          have hm := congrArg (fun t => t.partition.member) h
          have ht : t = timeline.addAll incoming := congrArg (fun t => t.partition.timeline) h
          have hm' : m = member.spent.finishEpoch :=
            (member_prepareComplete hsound).symm.trans (hm.trans (member_prepareComplete hspent))
          rw [hm', ht, hleast]
          rfl
  · simp only [Party.conclude, party, hleast, ↓reduceIte] at h ⊢
    cases progress with
    | going round => cases h
    | «over» result =>
      cases result with
      | error e => cases h
      | ok outcome =>
        cases outcome with
        | drained => cases h
        | untimed received more => cases hsound
        | resume next =>
          have hm : m = _ := congrArg (fun t => t.partition.member) h
          have ht : t = _ := congrArg (fun t => t.partition.timeline) h
          rw [← hsound.1, hm, ht]
          rfl

end Seat

namespace Meeting

def machine (meeting : Meeting π) : Machine (Model.bare π) :=
  ⟨meeting.shared, meeting.seats.mapIdx fun id seat => seat.thread id⟩

def system (π : Type) [DataSize π] : System (Meeting π) Nat Unit where
  step? := Meeting.step?
  note := fun _ _ => []

variable {meeting next : Meeting π} {i j : Nat} {seat : Seat π}

theorem step?_eq_some_iff : meeting.step? i = some next ↔
    ∃ seat shared seat', meeting.seats[i]? = some seat ∧
      seat.step? meeting.shared = some (shared, seat') ∧
      next = ⟨shared, meeting.seats.set i seat'⟩ := by
  unfold step?
  constructor
  · intro h
    split at h
    · cases h
    · rename_i seat hseat
      split at h
      · cases h
      · rename_i shared seat' hstep
        cases h
        exact ⟨seat, shared, seat', hseat, hstep, rfl⟩
  · rintro ⟨seat, shared, seat', hseat, hstep, rfl⟩
    simp only [hseat, hstep]

theorem getElem?_machine (hseat : meeting.seats[j]? = some seat) :
    meeting.machine.threads[j]? = some (seat.thread j) := by
  simp only [machine, List.getElem?_mapIdx, hseat, Option.map_some]

theorem machine_step {round : Round π} (hseat : meeting.seats[i]? = some seat)
    (hround : seat.progress = .going round) (hkind : round.kind = .epoch) :
    meeting.machine.step? i = (meeting.step? i).map machine := by
  have ht := getElem?_machine hseat
  have hstep := Seat.step?_thread meeting.shared hround hkind i
  unfold Machine.step? step?
  rw [ht, hseat]
  simp only
  have hshared : meeting.machine.shared = meeting.shared := rfl
  rw [hshared, hstep]
  cases seat.step? meeting.shared with
  | none => rfl
  | some result =>
    obtain ⟨shared, seat'⟩ := result
    simp only [Option.map_some, Seat.result?_thread, machine, List.mapIdx_set]
    rfl

/-- A meeting is on the way from the start of an epoch to its end: the machine is where everyone is
ready, or where everyone has exchanged. -/
structure Held (meeting : Meeting π) (parties : List (Party (Model.bare π))) : Prop where
  size : meeting.seats.length = parties.length
  tracks : Tracks meeting.machine (parties.map Stance.ready) ∨
    Tracks meeting.machine (Cohort.exchanged parties)
  sound : ∀ (j : Nat) (seat : Seat π), meeting.seats[j]? = some seat → seat.Sound

namespace Held

variable {parties : List (Party (Model.bare π))}

theorem tracks_placed (hseated : Party.Seated parties) (h : meeting.Held parties) :
    ∃ cohort : Cohort (Model.bare π),
      (cohort = parties.map Stance.ready ∨ cohort = Cohort.exchanged parties) ∧
        cohort.Placed ∧ Tracks meeting.machine cohort := by
  have hready : Cohort.Placed (parties.map Stance.ready) := by
    intro j s hs
    rw [List.getElem?_map] at hs
    obtain ⟨q, hq, rfl⟩ := Option.map_eq_some_iff.mp hs
    rw [List.length_map]
    exact hseated.placed j q hq
  rcases h.tracks with htracks | htracks
  · exact ⟨_, Or.inl rfl, hready, htracks⟩
  · have hexchange : Cohort.step? (parties.map Stance.ready) none =
        some (Cohort.exchanged parties) :=
      Cohort.exchange?_eq_some_iff.mpr ⟨parties, hseated.ne_nil, rfl, rfl⟩
    exact ⟨_, Or.inr rfl, hready.step hexchange, htracks⟩

/-- After the exchange nobody is ready for another. -/
theorem exchanged_not_ready (hseated : Party.Seated parties)
    {others : List (Party (Model.bare π))} :
    Cohort.exchanged parties ≠ others.map Stance.ready := by
  intro heq
  obtain ⟨q, rest, hparties⟩ := List.exists_cons_of_ne_nil hseated.ne_nil
  obtain ⟨member, timeline, id, rfl⟩ := hseated.begins q (by rw [hparties]; exact .head _)
  have hfirst : (Cohort.exchanged parties)[0]? = some
      ((Seat.party member timeline id).conclude (Party.incoming parties 0)
        (Party.least parties)).stance := by
    simp only [Cohort.exchanged, List.getElem?_mapIdx, hparties, List.getElem?_cons_zero,
      Option.map_some]
  obtain ⟨work, p, hconclude⟩ := Seat.conclude_party member timeline id
    (Party.incoming parties 0) (Party.least parties)
  rw [heq, List.getElem?_map, hconclude] at hfirst
  obtain ⟨r, _, hr⟩ := Option.map_eq_some_iff.mp hfirst
  cases hr

theorem step (hseated : Party.Seated parties) (h : meeting.Held parties)
    (hstep : meeting.step? i = some next) : next.Held parties := by
  obtain ⟨seat, shared, seat', hseat, hmoves, rfl⟩ := step?_eq_some_iff.mp hstep
  obtain ⟨round, hround, hcases⟩ := Seat.step?_cases hmoves
  have hsound := h.sound i seat hseat
  have hkind : round.kind = .epoch := by
    simp only [Seat.Sound, hround] at hsound
    exact hsound
  have hthread : seat.thread i = .syncing .timed (seat.member.bare seat.timeline i) round := by
    simp only [Seat.thread, hround]
  have ht := getElem?_machine hseat
  have hmachine := machine_step hseat hround hkind
  rw [hstep] at hmachine
  obtain ⟨cohort, hcohort, hplaced, htracks⟩ := h.tracks_placed hseated
  refine ⟨(List.length_set ..).trans h.size, ?_, ?_⟩
  · obtain ⟨t, labels, cohort', ht', hecho, htracks'⟩ := htracks.echo hplaced hmachine
    rw [ht, hthread] at ht'
    cases ht'
    cases hecho with
    | nothing hidle =>
      rcases hcohort with rfl | rfl
      · exact Or.inl htracks'
      · exact Or.inr htracks'
    | work work p ht' hs => cases ht'
    | exchange next hidle hnext =>
      obtain ⟨others, _, hothers, rfl⟩ := Cohort.exchange?_eq_some_iff.mp hnext
      rcases hcohort with rfl | rfl
      · have hsame := congrArg (List.filterMap Stance.party?) hothers
        rw [Cohort.filterMap_party?_ready, Cohort.filterMap_party?_ready] at hsame
        rw [← hsame] at htracks'
        exact Or.inr htracks'
      · exact absurd hothers (exchanged_not_ready hseated)
  · refine forall_set (fun j other _ hj => h.sound j other hj) ?_
    rcases hcases with (⟨round', hround', hkind', _⟩ | ⟨e, he⟩) | ⟨slot, least, hposition, rfl⟩
    · simp only [Seat.Sound, hround']
      exact hkind'.trans hkind
    · simp only [Seat.Sound, he]
    · refine Seat.sound_conclude hkind ?_ least
      rw [hthread] at ht
      exact htracks.cleared_of_reading ht hposition

/-! ## How long an epoch takes -/

end Held

end Meeting

/-- How far a seat is from the end of its round among `n`. -/
def Seat.rank (n : Nat) (seat : Seat π) : Nat :=
  match seat.progress with
  | .going round => round.position.rank n
  | .over _ => 0

namespace Meeting

variable {meeting next : Meeting π} {i j : Nat} {seat : Seat π}
  {parties : List (Party (Model.bare π))}

/-- Every step brings its seat nearer to the end of the round. -/
theorem Held.rank_step (hseated : Party.Seated parties) (h : meeting.Held parties)
    (hstep : meeting.step? i = some next) :
    ∃ seat seat', meeting.seats[i]? = some seat ∧ next.seats = meeting.seats.set i seat' ∧
      seat'.rank parties.length + 1 ≤ seat.rank parties.length := by
  obtain ⟨_, _, _, htracks'⟩ := (h.step hseated hstep).tracks_placed hseated
  obtain ⟨_, _, _, htracks⟩ := h.tracks_placed hseated
  obtain ⟨seat, shared, seat', hseat, hmoves, rfl⟩ := step?_eq_some_iff.mp hstep
  refine ⟨seat, seat', hseat, rfl, ?_⟩
  obtain ⟨round, hround, hcases⟩ := Seat.step?_cases hmoves
  have hkind : round.kind = .epoch := by
    have hsound := h.sound i seat hseat
    simp only [Seat.Sound, hround] at hsound
    exact hsound
  have hrank : seat.rank parties.length = round.position.rank parties.length := by
    simp only [Seat.rank, hround]
  have hbounds := round.position.rank_bounds parties.length
  cases hnext : seat'.progress with
  | «over» result =>
    have : seat'.rank parties.length = 0 := by simp only [Seat.rank, hnext]
    omega
  | going round' =>
    have hpace : seat'.member.pace = seat.member.pace := by
      rcases hcases with (⟨_, _, _, hpace⟩ | ⟨e, he⟩) | ⟨slot, least, _, rfl⟩
      · exact hpace
      · rw [hnext] at he
        cases he
      · have hover : ∀ r, (seat.conclude round least).progress ≠ .going r := by
          intro r
          simp only [Seat.conclude, hkind]
          intro hgoing
          split at hgoing <;> cases hgoing
        exact absurd hnext (hover round')
    have hmachine := machine_step hseat hround hkind
    rw [hstep] at hmachine
    obtain ⟨t', ht', hrank'⟩ := htracks.rank_step (getElem?_machine hseat) hmachine htracks'
    rw [getElem?_machine (getElem?_set_of_some hseat)] at ht'
    cases ht'
    have hlength : meeting.machine.threads.length = parties.length :=
      (List.length_mapIdx).trans h.size
    rw [hlength] at hrank'
    simp only [Seat.thread, hround, hnext] at hrank'
    rcases hrank' with ⟨_, hlt⟩ | hrounds
    · simp only [Seat.rank, hnext, hround]
      exact hlt
    · have hsame : seat'.member.pace.rounds = seat.member.pace.rounds + 1 := hrounds
      rw [hpace] at hsame
      omega

theorem Held.run_length (hseated : Party.Seated parties) (h : meeting.Held parties)
    {schedule : List Nat} {trace : List Unit}
    (hrun : (system π).Run meeting schedule trace next) :
    next.Held parties ∧
      schedule.length + total (Seat.rank parties.length) next.seats ≤
        total (Seat.rank parties.length) meeting.seats := by
  induction hrun with
  | refl => exact ⟨h, by simp⟩
  | step hrun hstep ih =>
    obtain ⟨hheld, hle⟩ := ih
    obtain ⟨seat, seat', hseat, hseats, hrank⟩ := hheld.rank_step hseated hstep
    have hset := total_set_add (Seat.rank parties.length) hseat seat'
    refine ⟨hheld.step hseated hstep, ?_⟩
    rw [hseats, List.length_append, List.length_singleton]
    omega

/-! ## The end of an epoch -/

/-- A seat whose meeting cannot go on has concluded its round. -/
theorem Held.thread_of_halted (hseated : Party.Seated parties) (h : meeting.Held parties)
    (hhalted : (system π).Halted meeting) {q : Party (Model.bare π)} (hq : parties[j]? = some q) :
    ∃ seat, meeting.seats[j]? = some seat ∧
      seat.thread j = q.conclude (Party.incoming parties j) (Party.least parties) := by
  have hstuck : ∀ (k : Nat) (seat : Seat π) (round : Round π), meeting.seats[k]? = some seat →
      seat.progress = .going round → meeting.machine.step? k = none := by
    intro k seat round hseat hround
    have hsound := h.sound k seat hseat
    simp only [Seat.Sound, hround] at hsound
    have hnone : meeting.step? k = none := hhalted k
    rw [machine_step hseat hround hsound, hnone]
    rfl
  have hlt : j < meeting.seats.length := by
    rw [h.size]
    exact (List.getElem?_eq_some_iff.mp hq).1
  have hseat := List.getElem?_eq_getElem hlt
  refine ⟨_, hseat, ?_⟩
  have ht := getElem?_machine hseat
  generalize meeting.seats[j] = seat at hseat ht
  rcases h.tracks with htracks | htracks
  · -- Someone could go on if the round were not over.
    refine absurd (fun k => ?_) htracks.not_halted_in_round
    show meeting.machine.step? k = none
    cases hk : meeting.seats[k]? with
    | none =>
      have hthread : meeting.machine.threads[k]? = none := by
        simp only [machine, List.getElem?_mapIdx, hk, Option.map_none]
      simp only [Machine.step?, hthread]
    | some other =>
      obtain ⟨work, p, round, hthread⟩ := htracks.syncing_of_ready (getElem?_machine hk)
      exact hstuck k other round hk (Seat.going_of_syncing hthread)
  · obtain ⟨member, timeline, id, rfl⟩ := hseated.begins q (List.mem_of_getElem? hq)
    obtain ⟨work, p, hconclude⟩ := Seat.conclude_party member timeline id
      (Party.incoming parties j) (Party.least parties)
    have hstance : (Cohort.exchanged parties)[j]? = some (.running work p) := by
      simp only [Cohort.exchanged, List.getElem?_mapIdx, hq, Option.map_some, hconclude,
        Thread.stance]
    rw [hconclude]
    cases htracks with
    | handing rounds others hne hready _ => exact absurd hready (Held.exchanged_not_ready hseated)
    | taking rounds others hne hready _ => exact absurd hready (Held.exchanged_not_ready hseated)
    | gathering rounds hgathering =>
      obtain ⟨s, hs, hgathers⟩ := hgathering.stands j _ ht
      rw [hstance] at hs
      obtain rfl := Option.some.inj hs
      refine Gathers.eq_running hgathers fun work' p' round hthread => ?_
      have hnone := Tracks.waits_of_stuck
        (hstuck j seat round hseat (Seat.going_of_syncing hthread)) ht
      rcases Tracks.lags_on hgathering hnone hgathers with ⟨_, hready, _⟩ | hended
      · cases hready
      · rw [Seat.result?_thread] at hended
        cases hended

/-- When a meeting cannot go on, every seat is where an epoch leaves it. -/
theorem Held.seat_eq (hseated : Party.Seated parties) (h : meeting.Held parties)
    (hhalted : (system π).Halted meeting) {member : Member π} {timeline : Timeline π}
    (hq : parties[j]? = some (Seat.party member timeline j)) :
    meeting.seats[j]? = some
      (Seat.after member timeline (Party.incoming parties j) (Party.least parties)) := by
  obtain ⟨seat, hseat, hthread⟩ := h.thread_of_halted hseated hhalted hq
  rw [hseat, Seat.eq_after_of_thread (h.sound j seat hseat) hthread]

end Meeting

end Lookahead
