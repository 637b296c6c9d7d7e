import Lookahead.Sync.Seat

/-!
Rounds of the exchange on their own, without the partitions around them.

A meeting is a set of seats in a round over the same shared state; any seat that can step may go
next. An assembly holds members and their timelines between rounds and lets some of them meet.
-/

namespace Lookahead

variable {π : Type} [DataSize π]

/-! ## Meetings -/

/-- Partitions in a round, and what they share. -/
structure Meeting (π : Type) where
  shared : Shared π
  seats : List (Seat π)

namespace Meeting

/-- Let the seat at this position take its next step. -/
def step? (meeting : Meeting π) (position : Nat) : Option (Meeting π) :=
  match meeting.seats[position]? with
  | none => none
  | some seat =>
    match seat.step? meeting.shared with
    | none => none
    | some (shared, seat) => some ⟨shared, meeting.seats.set position seat⟩

/-- Let the first seat go that can. -/
def next? (meeting : Meeting π) : Option (Meeting π) :=
  (List.range meeting.seats.length).findSome? meeting.step?

def run (meeting : Meeting π) : Nat → Meeting π
  | 0 => meeting
  | steps + 1 =>
    match meeting.next? with
    | none => meeting
    | some meeting => meeting.run steps

/-- More steps than a round can take: each seat passes three gates, turns to every outbox and every
minimum once, and collects at most the batches that are there and one from each outbox. -/
def effort (meeting : Meeting π) : Nat :=
  let outboxes := total (fun seat => seat.member.outbound.length) meeting.seats
  let batches := total (fun inbox => (inbox.getD []).length) meeting.shared.inboxes
  meeting.seats.length * (2 * outboxes + batches + meeting.shared.minimums.length + 12)

end Meeting

/-! ## Assemblies -/

/-- Members with their timelines, and what they share. -/
structure Assembly (π : Type) where
  shared : Shared π
  places : List (Member π × Timeline π)

namespace Assembly

/-- `n` members with empty timelines. There are `parties` participants, and beyond the members' own
there are `gone` destinations whose inbox no longer exists. -/
def fresh (n parties gone window : Nat) (profile : Option SyncProfile) : Assembly π where
  shared :=
    let shared := Shared.ofParties parties n
    { shared with inboxes := shared.inboxes ++ List.replicate gone none }
  places := (List.range n).map fun id => (Member.fresh id (n + gone) window profile, {})

def places? (assembly : Assembly π) (who : List PartitionId) :
    List (PartitionId × Member π × Timeline π) :=
  who.filterMap fun id => assembly.places[id]?.map fun place => (id, place)

/-- Take the places back from the seats of a meeting. -/
def adjourn (assembly : Assembly π) (who : List PartitionId) (meeting : Meeting π) :
    Assembly π where
  shared := meeting.shared
  places := (who.zip meeting.seats).foldl
    (fun places (id, seat) => places.set id (seat.member, seat.timeline)) assembly.places

/-- Let the partitions in `who` meet in one round. If `abort` is set, the shared barriers are
aborted once everyone waits. -/
def meet (assembly : Assembly π) (kind : PartitionId → Round.Kind) (abort : Bool)
    (who : List PartitionId) :
    Assembly π × List (PartitionId × Option (Except SyncError (Round.Outcome π))) :=
  let present := assembly.places? who
  let ids := present.map (·.1)
  let seats := present.map fun (id, member, timeline) => Seat.begin member timeline (kind id)
  let meeting : Meeting π := ⟨assembly.shared, seats⟩
  let steps := meeting.effort
  let meeting := meeting.run steps
  let meeting :=
    if abort then { meeting with shared := meeting.shared.abort }.run steps else meeting
  (assembly.adjourn ids meeting, ids.zip (meeting.seats.map Seat.result?))

/-- Let the partitions in `who` have a round each, one after another. -/
def meetInTurn (assembly : Assembly π) (kind : PartitionId → Round.Kind) :
    List PartitionId →
    Assembly π × List (PartitionId × Option (Except SyncError (Round.Outcome π)))
  | [] => (assembly, [])
  | id :: rest =>
    let (assembly, first) := assembly.meet kind false [id]
    let (assembly, others) := assembly.meetInTurn kind rest
    (assembly, first ++ others)

/-- Let the partitions in `who` have a round. With a single participant nobody waits for anyone, and
the rounds are held one after another; otherwise the partitions meet, and answer in order. -/
def convene (assembly : Assembly π) (kind : PartitionId → Round.Kind) (abort : Bool)
    (who : List PartitionId) :
    Assembly π × List (PartitionId × Option (Except SyncError (Round.Outcome π))) :=
  if assembly.shared.parties ≤ 1 then assembly.meetInTurn kind who
  else assembly.meet kind abort (Ordered.sort (· < ·) who)

end Assembly

end Lookahead
