import Lookahead.Proofs.Attendance
import Lookahead.Proofs.Seats
import Lookahead.Workload.Ring

/-!
One epoch from its start to its end.

Members with any outboxes and any timelines meet, in any interleaving. What the epoch comes to does
not depend on it: everything that was in the outboxes is on the timelines of its destinations, and
everyone is told the same next meeting, which is one window after the least time that is then
pending anywhere, or that nothing is left to do (`Meeting.epoch_end_to_end`).
-/

namespace Lookahead

variable {π : Type}

/-! ## The least pending time -/

def Timeline.leastPending (timelines : List (Timeline π)) : Time :=
  ((timelines.flatMap Timeline.pending).map fun a => a.time).foldl min Time.never

theorem Timeline.leastPending_eq {timelines : List (Timeline π)}
    (horder : ∀ timeline ∈ timelines, timeline.InOrder) :
    leastPending timelines = (timelines.map Timeline.nextTime).foldl min Time.never := by
  have hleft := Time.foldl_min_le ((timelines.flatMap Timeline.pending).map fun a => a.time)
    Time.never
  have hright := Time.foldl_min_le (timelines.map Timeline.nextTime) Time.never
  refine Time.le_antisymm (Time.le_foldl_min (Time.le_never _) fun u hu => ?_)
    (Time.le_foldl_min (Time.le_never _) fun u hu => ?_)
  · obtain ⟨timeline, htimeline, rfl⟩ := List.mem_map.mp hu
    cases hagenda : timeline.agenda with
    | nil =>
      rw [nextTime_of_agenda_nil hagenda]
      exact hleft.1
    | cons a rest =>
      rw [nextTime_of_agenda_cons hagenda]
      obtain ⟨b, hb, rfl⟩ := List.mem_map.mp (hagenda ▸ List.mem_cons_self : a ∈ timeline.agenda)
      exact hleft.2 _ (List.mem_map.mpr ⟨b, List.mem_flatMap.mpr ⟨timeline, htimeline, hb⟩, rfl⟩)
  · obtain ⟨a, ha, rfl⟩ := List.mem_map.mp hu
    obtain ⟨timeline, htimeline, ha⟩ := List.mem_flatMap.mp ha
    exact Time.le_trans (hright.2 _ (List.mem_map_of_mem htimeline))
      ((horder timeline htimeline).nextTime_le a.unnumbered (List.mem_map_of_mem ha))

/-! ## The start of an epoch -/

/-- What everyone hands to a destination, in the order of the senders and of sending. Nothing is
handed over for an instant before `now`. -/
def Place.arrivals (now : Time) (places : List (Member π × Timeline π)) (j : PartitionId) :
    List (Scheduled π) :=
  places.flatMap fun place =>
    (place.1.outbound[j]?.getD {}).activities.map fun a => a.notBefore now

def Place.timelines (now : Time) (places : List (Member π × Timeline π)) : List (Timeline π) :=
  places.mapIdx fun j place => place.2.addAll (arrivals now places j)

/-- Members of one exchange at the same instant: each is at its place, with an outbox for everyone
and a timeline in order. -/
structure Place.Convened (window : Nat) (now : Time) (places : List (Member π × Timeline π)) :
    Prop where
  ne_nil : places ≠ []
  id : ∀ (j : Nat) (place : Member π × Timeline π), places[j]? = some place → place.1.id = j
  outboxes : ∀ place ∈ places, place.1.outbound.length = places.length
  window : ∀ place ∈ places, place.1.window = window
  now : ∀ place ∈ places, place.2.now = now
  order : ∀ place ∈ places, place.2.InOrder

def Place.fresh (window : Nat) (profile : Option SyncProfile)
    (stock : List (List (Outbox π) × Timeline π)) : List (Member π × Timeline π) :=
  stock.mapIdx fun id place =>
    ({ (Member.fresh id stock.length window profile : Member π) with outbound := place.1 }, place.2)

theorem Place.Convened.fresh {window : Nat} {now : Time} (profile : Option SyncProfile)
    {stock : List (List (Outbox π) × Timeline π)}
    (hne : stock ≠ []) (houtboxes : ∀ place ∈ stock, place.1.length = stock.length)
    (hnow : ∀ place ∈ stock, place.2.now = now) (horder : ∀ place ∈ stock, place.2.InOrder) :
    Convened window now (Place.fresh window profile stock) where
  ne_nil := List.mapIdx_ne_nil_iff.mpr hne
  id := by
    intro j place hplace
    rw [Place.fresh, List.getElem?_mapIdx] at hplace
    obtain ⟨_, _, rfl⟩ := Option.map_eq_some_iff.mp hplace
    rfl
  outboxes := by
    intro place hplace
    obtain ⟨j, hj, rfl⟩ := List.mem_mapIdx.mp hplace
    rw [Place.fresh, List.length_mapIdx]
    exact houtboxes _ (List.getElem_mem hj)
  window := by
    intro place hplace
    obtain ⟨j, hj, rfl⟩ := List.mem_mapIdx.mp hplace
    rfl
  now := by
    intro place hplace
    obtain ⟨j, hj, rfl⟩ := List.mem_mapIdx.mp hplace
    exact hnow _ (List.getElem_mem hj)
  order := by
    intro place hplace
    obtain ⟨j, hj, rfl⟩ := List.mem_mapIdx.mp hplace
    exact horder _ (List.getElem_mem hj)

variable [DataSize π]

/-- Everyone begins an epoch, and nobody has met before. -/
def Meeting.opening (places : List (Member π × Timeline π)) : Meeting π where
  shared := Shared.ofParties places.length places.length
  seats := places.map fun place => Seat.begin place.1 place.2 .epoch

def Place.parties (places : List (Member π × Timeline π)) : List (Party (Model.bare π)) :=
  places.mapIdx fun id place => Seat.party place.1 place.2 id

namespace Place.Convened

variable {window : Nat} {now : Time} {places : List (Member π × Timeline π)} {j : PartitionId}
  {place : Member π × Timeline π}

theorem getElem?_parties (hplace : places[j]? = some place) :
    (parties places)[j]? = some (Seat.party place.1 place.2 j) := by
  simp only [parties, List.getElem?_mapIdx, hplace, Option.map_some]

theorem seated (h : Convened window now places) : Party.Seated (parties places) where
  ne_nil := List.mapIdx_ne_nil_iff.mpr h.ne_nil
  placed := by
    intro j q hq
    rw [parties, List.getElem?_mapIdx] at hq
    obtain ⟨place, hplace, rfl⟩ := Option.map_eq_some_iff.mp hq
    refine ⟨rfl, h.id j place hplace, ?_⟩
    rw [parties, List.length_mapIdx]
    exact h.outboxes place (List.mem_of_getElem? hplace)
  begins := by
    intro q hq
    obtain ⟨j, hj, rfl⟩ := List.mem_mapIdx.mp hq
    exact ⟨_, _, _, rfl⟩

theorem gathering (h : Convened window now places) :
    Gathering (Meeting.opening places).machine ((parties places).map Stance.ready) 0 := by
  have hpos : 0 < places.length := List.length_pos_iff.mpr h.ne_nil
  have hlength : ((parties places).map Stance.ready).length = places.length := by
    rw [List.length_map, parties, List.length_mapIdx]
  have hthreads : ∀ {j : Nat} {t : Thread (Model.bare π)},
      (Meeting.opening places).machine.threads[j]? = some t → ∃ place, places[j]? = some place ∧
        t = .syncing .timed (place.1.startEpoch.bare place.2 j) { kind := .epoch } := by
    intro j t ht
    simp only [Meeting.machine, Meeting.opening, List.getElem?_mapIdx, List.getElem?_map] at ht
    obtain ⟨seat, hseat, rfl⟩ := Option.map_eq_some_iff.mp ht
    obtain ⟨place, hplace, rfl⟩ := Option.map_eq_some_iff.mp hseat
    exact ⟨place, hplace, rfl⟩
  have hmax : max places.length 1 = places.length := by omega
  have hcount : (Meeting.opening places).machine.threads.countP (Thread.waitsAt .arrive) = 0 := by
    refine countP_eq_zero_of_getElem? fun j t ht => ?_
    obtain ⟨_, _, rfl⟩ := hthreads ht
    rfl
  constructor
  case size =>
    rw [hlength]
    exact (List.length_mapIdx).trans (List.length_map ..)
  case slots =>
    rw [hlength]
    exact List.length_replicate ..
  case arrive =>
    rw [hlength, hcount]
    exact ⟨hmax, rfl, fun _ => rfl, fun _ => hpos⟩
  case exchanged =>
    rw [hlength]
    exact ⟨hmax, rfl, rfl⟩
  case published =>
    rw [hlength]
    exact ⟨hmax, rfl, rfl⟩
  case aborted =>
    intro haborted
    rcases haborted with h | h | h <;> cases h
  case stands =>
    intro j t ht
    obtain ⟨place, hplace, rfl⟩ := hthreads ht
    refine ⟨_, ?_, .entering (Seat.party place.1 place.2 j)⟩
    rw [List.getElem?_map, getElem?_parties hplace]
    rfl
  case inboxes =>
    intro j t ht
    obtain ⟨place, hplace, rfl⟩ := hthreads ht
    have hlt := (List.getElem?_eq_some_iff.mp hplace).1
    show (List.replicate _ (some []))[j]? = _
    rw [List.getElem?_replicate, if_pos hlt]
    rfl

theorem held (h : Convened window now places) :
    (Meeting.opening places).Held (parties places) where
  size := by
    rw [parties, List.length_mapIdx]
    exact List.length_map ..
  tracks := Or.inl (.gathering 0 h.gathering)
  sound := by
    intro j seat hseat
    obtain ⟨place, _, rfl⟩ := List.mem_map.mp (List.mem_of_getElem? hseat)
    rfl

theorem incoming_eq (h : Convened window now places) (j : PartitionId) :
    Party.incoming (parties places) j = arrivals now places j := by
  have hall : ∀ p ∈ places.zipIdx, (Seat.party p.1.1 p.1.2 p.2).outgoing j =
      (p.1.1.outbound[j]?.getD {}).activities.map fun a => a.notBefore now := by
    intro p hp
    have hnow := h.now p.1 (List.fst_mem_of_mem_zipIdx hp)
    rw [← hnow]
    rfl
  calc Party.incoming (parties places) j
    _ = places.zipIdx.flatMap fun p => (Seat.party p.1.1 p.1.2 p.2).outgoing j := by
      unfold Party.incoming parties
      rw [List.mapIdx_eq_zipIdx_map, List.flatMap_map]
    _ = places.zipIdx.flatMap fun p =>
          (p.1.1.outbound[j]?.getD {}).activities.map fun a => a.notBefore now := by
      rw [List.flatMap_def, List.map_congr_left hall, ← List.flatMap_def]
    _ = arrivals now (places.zipIdx.map Prod.fst) j := by
      unfold arrivals
      rw [List.flatMap_map]
    _ = arrivals now places j := by rw [List.zipIdx_map_fst]

theorem least_eq (h : Convened window now places) :
    Party.least (parties places) = Timeline.leastPending (timelines now places) := by
  have horder : ∀ timeline ∈ timelines now places, timeline.InOrder := by
    intro timeline htimeline
    obtain ⟨j, hj, rfl⟩ := List.mem_mapIdx.mp htimeline
    exact (h.order _ (List.getElem_mem hj)).addAll _
  rw [Timeline.leastPending_eq horder]
  unfold Party.least
  congr 1
  refine List.ext_getElem? fun j => ?_
  rw [List.getElem?_mapIdx, List.getElem?_map, parties, timelines, List.getElem?_mapIdx,
    List.getElem?_mapIdx]
  cases places[j]? with
  | none => rfl
  | some place =>
    have hincoming := h.incoming_eq j
    rw [parties] at hincoming
    simp only [Option.map_some, hincoming]
    rfl

end Place.Convened

/-! ## The end of an epoch -/

/-- What a member is like when an epoch is over: nothing waits in its outboxes, and what waited
there is counted. -/
def Member.relieved (member : Member π) : Member π :=
  { member.startEpoch with
    outbound := List.replicate member.outbound.length {}
    epochs := member.epochs + 1
    exchanged := member.exchanged + total Outbox.size member.outbound
    bytes := member.bytes + total Outbox.dataSize member.outbound }

theorem Member.finishEpoch_spent (member : Member π) :
    member.spent.finishEpoch = member.relieved := by
  simp only [spent, relieved, finishEpoch, addExchanged, startEpoch, List.map_const']

/-- How everyone stands after an epoch in which `incoming` has arrived, depending on the least time
that is pending anywhere. -/
theorem Seat.after_eq {member : Member π} (timeline : Timeline π) (incoming : List (Scheduled π))
    (least : Time) :
    Seat.after member timeline incoming least =
      if least = Time.never then ⟨member.relieved, timeline.addAll incoming, .over (.ok .drained)⟩
      else
        ⟨{ member.relieved with nextSync := least.after member.window },
          (timeline.addAll incoming).insert (least.after member.window) Priority.threadSync .sync,
          .over (.ok (.resume (least.after member.window)))⟩ := by
  have hwindow : member.spent.window = member.window := rfl
  simp only [after, conclude, nextMeeting_eq, hwindow, Member.finishEpoch_spent]

/-- An epoch of any members with any outboxes and timelines at the same instant, in any
interleaving: it takes a bounded number of steps, and when nobody can go on, everyone has handed
over what it had, the timelines have got just that behind what ties with it, and everyone is told
that nothing is left to do, or to meet one window after the least pending time, which is what the
timelines have got last. -/
theorem Meeting.epoch_end_to_end {window : Nat} {now : Time}
    {places : List (Member π × Timeline π)} (h : Place.Convened window now places)
    {schedule : List Nat} {trace : List Unit} {meeting : Meeting π}
    (hrun : (Meeting.system π).Run (Meeting.opening places) schedule trace meeting) :
    schedule.length ≤ places.length * (3 * places.length + 13) ∧
    ((Meeting.system π).Halted meeting →
      meeting.seats.length = places.length ∧
      ∀ (j : Nat) (member : Member π) (timeline : Timeline π),
        places[j]? = some (member, timeline) →
        let arrivals := Place.arrivals now places j
        let gained := timeline.addAll arrivals
        let least := Timeline.leastPending (Place.timelines now places)
        let nextSync := least.after window
        (∀ x : Scheduled π, gained.agenda.filter x.ties =
          timeline.agenda.filter x.ties ++ (arrivals.map Activity.unnumbered).filter x.ties) ∧
        (least = Time.never →
          meeting.seats[j]? = some ⟨member.relieved, gained, .over (.ok .drained)⟩) ∧
        (least ≠ Time.never →
          meeting.seats[j]? = some
            ⟨{ member.relieved with nextSync }, gained.insert nextSync Priority.threadSync .sync,
              .over (.ok (.resume nextSync))⟩ ∧
          ∀ x : Scheduled π,
            (gained.insert nextSync Priority.threadSync .sync).agenda.filter x.ties =
              gained.agenda.filter x.ties ++ [Activity.ofMeeting nextSync].filter x.ties)) := by
  obtain ⟨hheld, hlength⟩ := h.held.run_length h.seated hrun
  have hparties : (Place.parties places).length = places.length := List.length_mapIdx
  rw [hparties] at hlength
  refine ⟨?_, fun hhalted => ⟨hheld.size.trans hparties, ?_⟩⟩
  · have hrank : total (Seat.rank places.length) (Meeting.opening places).seats ≤
        (Meeting.opening places).seats.length * (3 * places.length + 13) := by
      refine total_le fun seat hseat => ?_
      obtain ⟨place, _, rfl⟩ := List.mem_map.mp hseat
      exact Nat.le_refl _
    have hseats : (Meeting.opening places).seats.length = places.length := List.length_map ..
    rw [hseats] at hrank
    omega
  · intro j member timeline hplace arrivals gained least nextSync
    have hmem := List.mem_of_getElem? hplace
    have horder : timeline.InOrder := h.order _ hmem
    have hseat := hheld.seat_eq h.seated hhalted (Place.Convened.getElem?_parties hplace)
    rw [h.incoming_eq, h.least_eq, Seat.after_eq, show member.window = window from
      h.window _ hmem] at hseat
    refine ⟨fun x => Timeline.filter_ties_addAll horder x _, fun hnever => ?_, fun hne => ?_⟩
    · rw [hseat, if_pos hnever]
    · refine ⟨by rw [hseat, if_neg hne], fun x => ?_⟩
      exact Timeline.filter_ties_addAll (horder.addAll _) x [Activity.ofMeeting nextSync]

/-- Two partitions at the instant 5: one has sent a token that was due at 2 to the other, which has
one that is due at 7. -/
def Place.pair : List (Member Ring.Token × Timeline Ring.Token) :=
  fresh 3 none
    [([{}, ⟨[⟨Time.ofNat 2, Priority.event, .deliver ⟨0, ⟨1⟩⟩, 0⟩]⟩], { now := Time.ofNat 5 }),
      ([{}, {}], ({ now := Time.ofNat 5 } : Timeline Ring.Token).insert (Time.ofNat 7)
        Priority.event (.deliver ⟨0, ⟨0⟩⟩))]

theorem Place.convened_pair : Convened 3 (Time.ofNat 5) pair := by
  have horder : ({ now := Time.ofNat 5 } : Timeline Ring.Token).InOrder := List.Pairwise.nil
  exact Convened.fresh none (List.cons_ne_nil _ _) (by decide) (by decide)
    (List.forall_mem_cons.mpr ⟨horder, List.forall_mem_cons.mpr ⟨horder.add _, by simp⟩⟩)

def Place.pairEnd : Meeting Ring.Token :=
  ((Meeting.system Ring.Token).follow (Meeting.opening pair) ((List.range 60).map (· % 2))).2

theorem Place.halted_pairEnd : (Meeting.system Ring.Token).Halted pairEnd := by
  intro j
  by_cases hj : j < 2
  · have hstuck : ∀ j < 2, (pairEnd.step? j).isNone = true := by decide +kernel
    exact Option.isNone_iff_eq_none.mp (hstuck j hj)
  · have hlength : pairEnd.seats.length = 2 := by decide +kernel
    have hnone : pairEnd.seats[j]? = none := List.getElem?_eq_none (by omega)
    show pairEnd.step? j = none
    simp only [Meeting.step?, hnone]

/-- What was due at 2 arrives for the instant 5, so the two meet again at 8. -/
theorem Meeting.epoch_end_to_end_pair :
    ∃ (schedule : List Nat) (trace : List Unit) (meeting : Meeting Ring.Token),
      (Meeting.system Ring.Token).Run (Meeting.opening Place.pair) schedule trace meeting ∧
      (Meeting.system Ring.Token).Halted meeting ∧
      ∀ j < 2, (meeting.seats[j]?.bind Seat.result?) = some (.ok (.resume (Time.ofNat 8))) := by
  obtain ⟨schedule, hrun⟩ := (Meeting.system Ring.Token).run_follow (Meeting.opening Place.pair)
    ((List.range 60).map (· % 2))
  refine ⟨schedule, _, Place.pairEnd, hrun, Place.halted_pairEnd, fun j hj => ?_⟩
  obtain ⟨_, hend⟩ := epoch_end_to_end Place.convened_pair hrun
  obtain ⟨_, hseats⟩ := hend Place.halted_pairEnd
  have hlt : j < Place.pair.length := hj
  have hplace := List.getElem?_eq_getElem hlt
  have hleast : Timeline.leastPending (Place.timelines (Time.ofNat 5) Place.pair) =
      Time.ofNat 5 := by decide +kernel
  obtain ⟨_, _, hresume⟩ := hseats j _ _ hplace
  have hseat : Place.pairEnd.seats[j]? = _ := (hresume (by rw [hleast]; decide)).1
  rw [hseat, hleast]
  rfl

end Lookahead
