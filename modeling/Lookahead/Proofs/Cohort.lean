import Lookahead.Machine
import Lookahead.Proofs.System

/-!
Machines seen from outside, and cohorts: what a machine comes to if a round of the exchange is one
step.

What is to be seen of a run are its dispatches, each with the partition that it finds. In a cohort a
partition works on its own until it is ready for a round, and once all are ready they exchange
everything at once. Nothing in a cohort depends on an order, so its steps commute
(`Cohort.commuting`).
-/

namespace Lookahead

variable {M : Model}

/-! ## Dispatches -/

/-- An activity that has come due, and the partition that has moved to its instant. -/
structure Dispatch (M : Model) where
  activity : Scheduled M.Payload
  partition : Partition M

def Partition.next? (p : Partition M) : Option (Dispatch M) :=
  match p.timeline.advance with
  | .ok (activity, timeline) => some ⟨activity, { p with timeline }⟩
  | .error _ => none

def Work.dispatch? (work : Work) (p : Partition M) : Option (Dispatch M) :=
  match work with
  | .timed => p.next?
  | _ => none

def noteAt (position : PartitionId) (dispatch : Option (Dispatch M)) :
    List (PartitionId × Dispatch M) :=
  (dispatch.map fun d => (position, d)).toList

theorem mem_noteAt {position : PartitionId} {dispatch : Option (Dispatch M)}
    {entry : PartitionId × Dispatch M} :
    entry ∈ noteAt position dispatch ↔ entry.1 = position ∧ dispatch = some entry.2 := by
  obtain ⟨i, d⟩ := entry
  cases dispatch with
  | none => simp [noteAt]
  | some e =>
    simp only [noteAt, Option.map_some, Option.toList_some, List.mem_singleton, Prod.mk.injEq,
      Option.some.injEq]
    constructor
    · rintro ⟨rfl, rfl⟩
      exact ⟨rfl, rfl⟩
    · rintro ⟨rfl, rfl⟩
      exact ⟨rfl, rfl⟩

theorem seenOf_noteAt_self (position : PartitionId) (dispatch : Option (Dispatch M)) :
    System.seenOf position (noteAt position dispatch) = dispatch.toList := by
  cases dispatch <;> simp [noteAt, System.seenOf]

theorem seenOf_noteAt_of_ne {position j : PartitionId} (h : position ≠ j)
    (dispatch : Option (Dispatch M)) : System.seenOf j (noteAt position dispatch) = [] := by
  cases dispatch <;> simp [noteAt, System.seenOf, h]

def Thread.dispatch? : Thread M → Option (Dispatch M)
  | .running work p => work.dispatch? p
  | _ => none

def Machine.system (M : Model) : System (Machine M) PartitionId (PartitionId × Dispatch M) where
  step? := Machine.step?
  note machine position := noteAt position (machine.threads[position]?.bind Thread.dispatch?)

/-! ## Parties -/

structure Party (M : Model) where
  work : Work
  partition : Partition M
  kind : Round.Kind

namespace Party

/-- Nothing is handed over for an instant before this one. -/
def horizon (q : Party M) : Time :=
  match q.kind with
  | .epoch => q.partition.timeline.now
  | .untimed _ => Time.zero

def outbox (q : Party M) (j : PartitionId) : List (Scheduled M.Payload) :=
  (q.partition.member.outbound[j]?.getD {}).activities

def outgoing (q : Party M) (j : PartitionId) : List (Scheduled M.Payload) :=
  (q.outbox j).map fun a => a.notBefore q.horizon

/-- What all of them hand over to a destination, in the order of the senders. -/
def incoming (parties : List (Party M)) (j : PartitionId) : List (Scheduled M.Payload) :=
  parties.flatMap fun q => q.outgoing j

/-- The round when the outboxes before `t` have been handed over. -/
def roundAt (q : Party M) (t : Nat) : Round M.Payload where
  kind := q.kind
  sent := total Outbox.size (q.partition.member.outbound.take t)
  sentBytes := total Outbox.dataSize (q.partition.member.outbound.take t)

def handing (q : Party M) (t : Nat) : Partition M :=
  { q.partition with
    member :=
      { q.partition.member with
        outbound := q.partition.member.outbound.mapIdx fun j box => if j < t then {} else box } }

def roundHanded (q : Party M) : Round M.Payload where
  kind := q.kind
  sent := total Outbox.size q.partition.member.outbound
  sentBytes := total Outbox.dataSize q.partition.member.outbound

def handed (q : Party M) : Partition M :=
  let member := { q.partition.member with
    outbound := q.partition.member.outbound.map fun _ => {} }
  { q.partition with
    member :=
      match q.kind with
      | .epoch => member.addExchanged q.roundHanded.sent q.roundHanded.sentBytes
      | .untimed _ => member }

def roundTaken (q : Party M) (incoming : List (Scheduled M.Payload)) : Round M.Payload :=
  match q.kind with
  | .epoch => q.roundHanded
  | .untimed _ =>
    { q.roundHanded with received := incoming.filterMap fun a => a.payload.event? }

def taken (q : Party M) (incoming : List (Scheduled M.Payload)) : Partition M :=
  match q.kind with
  | .epoch => { q.handed with timeline := q.handed.timeline.addAll incoming }
  | .untimed _ => q.handed

def minimum (q : Party M) (incoming : List (Scheduled M.Payload)) : Time :=
  (q.roundTaken incoming).minimum (q.taken incoming).timeline

def least (parties : List (Party M)) : Time :=
  (parties.mapIdx fun j q => q.minimum (incoming parties j)).foldl min Time.never

/-- What it does next, given the least of all that was published. -/
def conclude (q : Party M) (incoming : List (Scheduled M.Payload)) (least : Time) : Thread M :=
  let p := q.taken incoming
  match q.kind with
  | .epoch =>
    if least = Time.never then
      Thread.finishTimed .drained { p with member := p.member.finishEpoch }
    else
      let nextSync := Seat.nextMeeting least p.member.window
      .running q.work { p with
        member := { p.member.finishEpoch with nextSync }
        timeline := p.timeline.insert nextSync Priority.threadSync .sync }
  | .untimed own =>
    Thread.afterRound q.work { p with member := p.member.finishUntimed } (.untimed own)
      (.untimed (q.roundTaken incoming).received (least ≠ Time.never))

end Party

/-! ## Cohorts -/

inductive Stance (M : Model) where
  | running (work : Work) (p : Partition M)
  | ready (q : Party M)
  | failed (e : RunError) (p : Partition M)
  | ended (stop : StopReason) (p : Partition M)

namespace Stance

def partition : Stance M → Partition M
  | .running _ p => p
  | .ready q => q.partition
  | .failed _ p => p
  | .ended _ p => p

def party? : Stance M → Option (Party M)
  | .ready q => some q
  | _ => none

def dispatch? : Stance M → Option (Dispatch M)
  | .running work p => work.dispatch? p
  | _ => none

end Stance

/-- Where a thread stands that is at work, at the beginning of a round, or on its way out. -/
def Thread.stance : Thread M → Stance M
  | .running work p => .running work p
  | .syncing work p round => .ready ⟨work, p, round.kind⟩
  | .aborting _ e p => .failed e p
  | .ended (.ok stop) p => .ended stop p
  | .ended (.error e) p => .failed e p

/-- All partitions of a run, each where it stands. -/
abbrev Cohort (M : Model) := List (Stance M)

namespace Cohort

/-- Everyone hands over, takes in and concludes. -/
def exchanged (parties : List (Party M)) : Cohort M :=
  parties.mapIdx fun j q => (q.conclude (Party.incoming parties j) (Party.least parties)).stance

def exchange? (cohort : Cohort M) : Option (Cohort M) :=
  let parties := cohort.filterMap Stance.party?
  if parties ≠ [] ∧ parties.length = cohort.length then some (exchanged parties) else none

def step? (cohort : Cohort M) : Option PartitionId → Option (Cohort M)
  | some i =>
    match cohort[i]? with
    | some (.running work p) => some (cohort.set i (Thread.workOn work p).stance)
    | _ => none
  | none => cohort.exchange?

def system (M : Model) : System (Cohort M) (Option PartitionId) (PartitionId × Dispatch M) where
  step? := step?
  note cohort
    | some i => noteAt i (cohort[i]?.bind Stance.dispatch?)
    | none => []

theorem length_filterMap_party?_le (cohort : Cohort M) :
    (cohort.filterMap Stance.party?).length ≤ cohort.length :=
  List.length_filterMap_le ..

theorem eq_map_ready {cohort : Cohort M}
    (h : (cohort.filterMap Stance.party?).length = cohort.length) :
    cohort = (cohort.filterMap Stance.party?).map Stance.ready := by
  induction cohort with
  | nil => rfl
  | cons s rest ih =>
    cases hs : s.party? with
    | none =>
      rw [List.filterMap_cons_none hs] at h
      have := length_filterMap_party?_le rest
      simp only [List.length_cons] at h
      omega
    | some q =>
      rw [List.filterMap_cons_some hs] at h ⊢
      have hready : s = .ready q := by
        cases s <;> simp_all [Stance.party?]
      rw [List.map_cons, ← ih (by simpa using h), hready]

theorem exists_parties {cohort : Cohort M} (h : ∀ s ∈ cohort, ∃ q, s = .ready q) :
    ∃ parties : List (Party M), cohort = parties.map Stance.ready := by
  refine ⟨cohort.filterMap Stance.party?, eq_map_ready ?_⟩
  rw [List.length_filterMap_eq_countP, List.countP_eq_length]
  intro s hs
  obtain ⟨q, rfl⟩ := h s hs
  rfl

theorem filterMap_party?_ready (parties : List (Party M)) :
    (parties.map Stance.ready).filterMap Stance.party? = parties := by
  induction parties with
  | nil => rfl
  | cons q rest ih => simpa [Stance.party?] using ih

theorem getElem?_ready {parties : List (Party M)} {j : Nat} {q : Party M}
    (h : parties[j]? = some q) : (parties.map Stance.ready)[j]? = some (.ready q) := by
  rw [List.getElem?_map, h]
  rfl

theorem getElem?_exchanged {parties : List (Party M)} {j : Nat} {s : Stance M}
    (hs : (exchanged parties)[j]? = some s) :
    ∃ q, parties[j]? = some q ∧
      s = (q.conclude (Party.incoming parties j) (Party.least parties)).stance := by
  unfold exchanged at hs
  rw [List.getElem?_mapIdx] at hs
  obtain ⟨q, hq, rfl⟩ := Option.map_eq_some_iff.mp hs
  exact ⟨q, hq, rfl⟩

theorem length_exchanged (parties : List (Party M)) :
    (exchanged parties).length = (parties.map Stance.ready).length := by
  unfold exchanged
  rw [List.length_mapIdx, List.length_map]

theorem exchange?_eq_some_iff {cohort next : Cohort M} :
    cohort.exchange? = some next ↔
      ∃ parties, parties ≠ [] ∧ cohort = parties.map Stance.ready ∧ next = exchanged parties := by
  unfold exchange?
  constructor
  · intro h
    simp only at h
    split at h
    · rename_i hparties
      cases h
      exact ⟨_, hparties.1, eq_map_ready hparties.2, rfl⟩
    · cases h
  · rintro ⟨parties, hne, rfl, rfl⟩
    rw [filterMap_party?_ready]
    simp [hne]

theorem step?_some_iff {cohort next : Cohort M} {i : PartitionId} :
    cohort.step? (some i) = some next ↔
      ∃ work p, cohort[i]? = some (.running work p) ∧
        next = cohort.set i (Thread.workOn work p).stance := by
  simp only [step?]
  constructor
  · intro h
    split at h
    · rename_i work p hi
      cases h
      exact ⟨work, p, hi, rfl⟩
    · cases h
  · rintro ⟨work, p, hi, rfl⟩
    simp [hi]

/-- While everyone is ready, nobody works. -/
theorem not_running_of_exchange {cohort next : Cohort M} {i : PartitionId} {work : Work}
    {p : Partition M} (h : cohort.exchange? = some next) :
    cohort[i]? ≠ some (.running work p) := by
  obtain ⟨parties, _, rfl, _⟩ := exchange?_eq_some_iff.mp h
  rw [List.getElem?_map]
  cases parties[i]? <;> simp

theorem note_of_running {cohort : Cohort M} {i : PartitionId} {work : Work} {p : Partition M}
    (hi : cohort[i]? = some (.running work p)) :
    (system M).note cohort (some i) = noteAt i (work.dispatch? p) := by
  show noteAt i (cohort[i]?.bind Stance.dispatch?) = _
  rw [hi]
  rfl

theorem note_eq_of_ne (cohort : Cohort M) {i j : PartitionId} (hij : i ≠ j) (s : Stance M) :
    (system M).note (cohort.set i s) (some j) = (system M).note cohort (some j) := by
  show noteAt j ((cohort.set i s)[j]?.bind Stance.dispatch?) = _
  rw [List.getElem?_set_ne hij]
  rfl

/-- Partitions that work do not get in each other's way, and the exchange waits for all of them. -/
theorem commuting (M : Model) : (system M).Commuting := by
  intro cohort i j a b hij ha hb
  match i, j with
  | none, none => exact absurd rfl hij
  | none, some j =>
    obtain ⟨work, p, hj, _⟩ := step?_some_iff.mp hb
    exact absurd hj (not_running_of_exchange ha)
  | some i, none =>
    obtain ⟨work, p, hi, _⟩ := step?_some_iff.mp ha
    exact absurd hi (not_running_of_exchange hb)
  | some i, some j =>
    have hne : i ≠ j := fun h => hij (congrArg some h)
    obtain ⟨work, p, hi, rfl⟩ := step?_some_iff.mp ha
    obtain ⟨work', p', hj, rfl⟩ := step?_some_iff.mp hb
    refine ⟨⟨(cohort.set i (Thread.workOn work p).stance).set j
      (Thread.workOn work' p').stance, ?_, ?_⟩,
      note_eq_of_ne _ hne _, note_eq_of_ne _ hne.symm _, ?_⟩
    · refine step?_some_iff.mpr ⟨work', p', ?_, rfl⟩
      rw [List.getElem?_set_ne hne]
      exact hj
    · refine step?_some_iff.mpr ⟨work, p, ?_, List.set_comm _ _ hne⟩
      rw [List.getElem?_set_ne hne.symm]
      exact hi
    · refine System.Alike.swap hne ?_ ?_
      · intro entry hentry
        exact (mem_noteAt.mp hentry).1
      · intro entry hentry
        exact (mem_noteAt.mp hentry).1

end Cohort

end Lookahead
