import Lookahead.Proofs.Channel

/-!
First come, first served.

On a link end everything is delivered in the order of time and, at one time, in the order of
sending, whichever epochs it came through. What several partitions have sent for one time and comes
in at one meeting is dispatched by the numbers of the senders and in the order of sending, behind
everything for that time that was queued before the meeting (`Simulation.Reaches.first_come`).
-/

namespace Lookahead

/-! ## Requests and what was done -/

section

variable {α : Type} {p : α → Bool} {items : List α}

/-- The items of a kind are in their places among all items. -/
theorem exists_of_getElem?_filter {k : Nat} {a : α} (h : (items.filter p)[k]? = some a) :
    ∃ m, items[m]? = some a ∧ (items.take m).countP p = k := by
  induction items generalizing k with
  | nil => cases h
  | cons b rest ih =>
    cases hb : p b with
    | false =>
      rw [List.filter_cons_of_neg (by simp [hb])] at h
      obtain ⟨m, hm, hcount⟩ := ih h
      exact ⟨m + 1, hm, by simp [hb, hcount]⟩
    | true =>
      rw [List.filter_cons_of_pos hb] at h
      cases k with
      | zero => exact ⟨0, h, rfl⟩
      | succ k =>
        obtain ⟨m, hm, hcount⟩ := ih h
        exact ⟨m + 1, hm, by simp [hb, hcount]⟩

theorem countP_take_le {k m : Nat} (h : k ≤ m) :
    (items.take k).countP p ≤ (items.take m).countP p :=
  (List.take_sublist_take_left h).countP_le

/-- More of a kind come before the later one of two places if the earlier one is of that kind. -/
theorem countP_take_lt {k m : Nat} {a : α} (ha : items[k]? = some a) (hp : p a = true)
    (h : k < m) : (items.take k).countP p < (items.take m).countP p := by
  have hmore : (items.take (k + 1)).countP p = (items.take k).countP p + 1 := by
    rw [List.take_add_one, ha, List.countP_append]
    simp [hp]
  have hle : (items.take (k + 1)).countP p ≤ (items.take m).countP p := countP_take_le h
  omega

end

/-- What was done as the `k`-th is what was asked for as the `m`-th: it is the same, and as many of
its time and priority come before the one as before the other. -/
def Meets {π : Type} (asked done : List (Scheduled π)) (m k : Nat) : Prop :=
  ∃ a, asked[m]? = some a ∧ done[k]? = some a ∧
    (asked.take m).countP a.ties = (done.take k).countP a.ties

namespace Meets

variable {π : Type} {asked done : List (Scheduled π)} {m m' k k' : Nat}

theorem unique (h : Meets asked done m k) (h' : Meets asked done m' k) : m' = m := by
  obtain ⟨a, hm, hk, hcount⟩ := h
  obtain ⟨b, hm', hk', hcount'⟩ := h'
  rw [hk] at hk'
  cases hk'
  rcases Nat.lt_trichotomy m' m with hlt | heq | hlt
  · have := countP_take_lt hm' (Activity.ties_self a) hlt
    omega
  · exact heq
  · have := countP_take_lt hm (Activity.ties_self a) hlt
    omega

/-- If of every time and priority the beginning was done, everything done was asked for. -/
theorem exists_of_prefix (h : ∀ x : Scheduled π, done.filter x.ties <+: asked.filter x.ties)
    (hk : k < done.length) : ∃ m, Meets asked done m k := by
  have hget : done[k]? = some done[k] := List.getElem?_eq_getElem hk
  generalize done[k] = a at hget
  have hdone : (done.filter a.ties)[(done.take k).countP a.ties]? = some a := by
    have hsplit : done = done.take k ++ a :: done.drop (k + 1) := by
      obtain ⟨_, hat⟩ := List.getElem?_eq_some_iff.mp hget
      rw [← hat, ← List.drop_eq_getElem_cons, List.take_append_drop]
    rw [List.countP_eq_length_filter]
    conv => lhs; arg 1; rw [hsplit]
    rw [List.filter_append, List.filter_cons_of_pos (Activity.ties_self a),
      List.getElem?_append_right (Nat.le_refl _), Nat.sub_self]
    rfl
  obtain ⟨rest, hrest⟩ := h a
  have hasked : (asked.filter a.ties)[(done.take k).countP a.ties]? = some a := by
    rw [← hrest, List.getElem?_append_left (List.getElem?_eq_some_iff.mp hdone).1]
    exact hdone
  obtain ⟨m, hm, hcount⟩ := exists_of_getElem?_filter hasked
  exact ⟨m, a, hm, hget, hcount⟩

/-- Of two of one priority, the one due earlier is done earlier. -/
theorem lt_of_time_lt (hsorted : done.Pairwise fun a b => a.time ≤ b.time)
    (h : Meets asked done m k) (h' : Meets asked done m' k') {a b : Scheduled π}
    (ha : asked[m]? = some a) (hb : asked[m']? = some b) (hlt : a.time < b.time) : k < k' := by
  obtain ⟨_, hm, hk, _⟩ := h
  obtain ⟨_, hm', hk', _⟩ := h'
  rw [ha] at hm
  rw [hb] at hm'
  cases hm
  cases hm'
  refine Nat.lt_of_not_le fun hle => ?_
  obtain ⟨hklt, rfl⟩ := List.getElem?_eq_some_iff.mp hk
  obtain ⟨hklt', rfl⟩ := List.getElem?_eq_some_iff.mp hk'
  rcases Nat.lt_or_eq_of_le hle with hless | rfl
  · exact absurd hlt (Time.lt_irrefl_of_le (List.pairwise_iff_getElem.mp hsorted _ _ _ _ hless))
  · exact absurd hlt (Nat.lt_irrefl _)

/-- Of two that tie, the one asked for earlier is done earlier. -/
theorem lt_of_ties (h : Meets asked done m k) (h' : Meets asked done m' k') {a b : Scheduled π}
    (ha : asked[m]? = some a) (hb : asked[m']? = some b) (hties : a.ties b = true)
    (hlt : m < m') : k < k' := by
  obtain ⟨_, hm, hk, hcount⟩ := h
  obtain ⟨_, hm', hk', hcount'⟩ := h'
  rw [ha] at hm
  rw [hb] at hm'
  cases hm
  cases hm'
  have hsame : b.ties = a.ties := by
    obtain ⟨htime, hpriority⟩ := Activity.ties_iff.mp hties
    funext c
    unfold Activity.ties
    rw [htime, hpriority]
  rw [hsame] at hcount'
  refine Nat.lt_of_not_le fun hle => ?_
  have hless := countP_take_lt ha (Activity.ties_self a) hlt
  have hmore : (done.take k').countP a.ties ≤ (done.take k).countP a.ties := countP_take_le hle
  omega

end Meets

/-! ## Runs -/

variable {M : Model}

namespace Simulation

variable {b : Builder M} {log : List (Planned M.Payload)} {simulation : Simulation M}
  {labels : List (Option PartitionId)} {trace : List (PartitionId × Dispatch M)}
  {cohort : Cohort M} {machine : Machine M}

/-- What is sent on a link end is asked of its peer behind all that was scheduled there. -/
theorem getElem?_askedOn (log : List (Planned M.Payload)) (f : LinkEnd) {e : LinkEnd} {m : Nat}
    {s : Sent M.Payload} (hs : (sentOn trace e)[m]? = some s) :
    (askedOn log trace e f)[(plannedOn (M := M) log f).length + m]? = some s.activity := by
  unfold askedOn
  rw [← List.length_map Planned.activity, List.getElem?_append_right (Nat.le_add_right _ _),
    Nat.add_sub_cancel_left, List.getElem?_map, hs]
  rfl

theorem Reaches.pairwise_deliveredOn (hb : b.Made log) (hbuild : b.build = .ok simulation)
    (h : simulation.Reaches trace machine) (hexact : ∀ entry ∈ trace, entry.2.Exact)
    (f : LinkEnd) :
    (deliveredOn trace f).Pairwise fun a b => a.time ≤ b.time := by
  unfold deliveredOn
  rw [deliveries_eq]
  refine (List.Pairwise.filter _ (List.Pairwise.filter _ ?_))
  exact List.pairwise_map.mpr (h.dispatches_in_order hb hbuild hexact f.partition).1

/-- After a meeting a partition dispatches, of one time, what it had queued before, and then what
the meeting has brought, as far as it comes. -/
theorem dispatched_after_meeting (hb : b.Made log) (hbuild : b.build = .ok simulation)
    (hrun : (Cohort.system M).Run simulation.cohort labels trace cohort)
    (hexact : ∀ entry ∈ trace, entry.2.Exact) {j : PartitionId} {front back : List (Dispatch M)}
    {d : Dispatch M}
    (hseen : System.seenOf j trace = front ++ d :: back) (hsync : d.activity.isSync = true)
    {x : Scheduled M.Payload} (hx : x.priority = Priority.event) :
    let queued := d.partition.timeline.agenda.filter x.ties
    let brought :=
      (arrivals simulation.partitions.length (meetings front).length trace j).filter x.ties
    let done := (back.map fun e => e.activity.unnumbered).filter x.ties
    done <+: queued ++ brought ∨ queued ++ brought <+: done := by
  obtain ⟨number, hlegs, hturn⟩ := inTurn_run hb hbuild hrun hexact
  have hlength : cohort.length = simulation.partitions.length :=
    (agrees_run hb hbuild hrun).1.length
  have hlt : j < cohort.length := by
    have hmem : d ∈ System.seenOf j trace := by
      rw [hseen]
      exact List.mem_append_right _ (List.mem_cons_self ..)
    rw [hlength]
    exact (dispatched_run hb hbuild hrun False.elim (j, d) (System.mem_seenOf.mp hmem)).1
  have hs := List.getElem?_eq_getElem hlt
  rcases Nat.lt_or_ge (meetings front).length number with hearlier | hlate
  · obtain ⟨later, hlater⟩ := hturn j _ hs front d back hseen hsync hearlier x hx
    rw [hlength] at hlater
    exact List.prefix_or_prefix_of_prefix (List.prefix_append _ _) ⟨later, hlater.symm⟩
  · cases hlegs.eq_nil_of_le hs hseen hsync hlate
    exact Or.inl List.nil_prefix

/-- Deliveries come in turn, unless a clock overflows unnoticed. On a link end everything that is
delivered was asked for, once: two sends for one instant are delivered in the order of sending,
whenever they were exchanged, and two for different instants in the order of time. What a meeting
brings is dispatched, of one time, by the numbers of the senders and in the order of sending, and
behind what was queued before. -/
theorem Reaches.first_come (hb : b.Made log) (hbuild : b.build = .ok simulation)
    (h : simulation.Reaches trace machine) (hexact : ∀ entry ∈ trace, entry.2.Exact) :
    (∀ e f : LinkEnd, Wired b.tables e f →
      (∀ k < (deliveredOn trace f).length, ∃ m,
        Meets (askedOn log trace e f) (deliveredOn trace f) m k ∧
          ∀ m', Meets (askedOn log trace e f) (deliveredOn trace f) m' k → m' = m) ∧
      ∀ (m m' k k' : Nat) (s s' : Sent M.Payload), m < m' →
        (sentOn trace e)[m]? = some s → (sentOn trace e)[m']? = some s' →
          Meets (askedOn log trace e f) (deliveredOn trace f)
              ((plannedOn (M := M) log f).length + m) k →
            Meets (askedOn log trace e f) (deliveredOn trace f)
                ((plannedOn (M := M) log f).length + m') k' →
              (s.due ≤ s'.due → k < k') ∧ (s'.due < s.due → k' < k)) ∧
    ∀ (j : PartitionId) (front back : List (Dispatch M)) (d : Dispatch M),
      System.seenOf j trace = front ++ d :: back → d.activity.isSync = true →
        ∀ x : Scheduled M.Payload, x.priority = Priority.event →
          let queued := d.partition.timeline.agenda.filter x.ties
          let brought :=
            (arrivals simulation.partitions.length (meetings front).length trace j).filter x.ties
          let done := (back.map fun e => e.activity.unnumbered).filter x.ties
          done <+: queued ++ brought ∨ queued ++ brought <+: done := by
  obtain ⟨labels, cohort, hrun, _⟩ := h.cohort hb hbuild
  refine ⟨fun e f hwired => ⟨fun k hk => ?_, ?_⟩, ?_⟩
  · obtain ⟨m, hm⟩ :=
      Meets.exists_of_prefix (prefix_deliveredOn hb hbuild hrun hexact hwired) hk
    exact ⟨m, hm, fun m' hm' => hm.unique hm'⟩
  · intro m m' k k' s s' hlt hs hs' hmeets hmeets'
    have hsorted := h.pairwise_deliveredOn hb hbuild hexact f
    have hasked := getElem?_askedOn log f hs
    have hasked' := getElem?_askedOn log f hs'
    refine ⟨fun hle => ?_, fun hless => ?_⟩
    · rcases Nat.lt_or_eq_of_le hle with hless | heq
      · exact hmeets.lt_of_time_lt hsorted hmeets' hasked hasked' hless
      · have hties : Activity.ties s.activity s'.activity = true :=
          Activity.ties_iff.mpr ⟨Time.ext heq, rfl⟩
        exact hmeets.lt_of_ties hmeets' hasked hasked' hties (by omega)
    · exact hmeets'.lt_of_time_lt hsorted hmeets hasked' hasked hless
  · exact fun j front back d hseen hsync x hx =>
      dispatched_after_meeting hb hbuild hrun hexact hseen hsync hx

end Simulation

/-! ## Two tokens at once -/

namespace Relay

open Lookahead.Ring

/-- A relay in which a second token, which makes one hop, starts together with the first. -/
def pair : Builder model :=
  (builder 1 2).withSetup 0 {
    timeline := (({} : Timeline Token).insert Time.zero Priority.event (.deliver ⟨0, ⟨2⟩⟩)).insert
      Time.zero Priority.event (.deliver ⟨0, ⟨1⟩⟩)
    receivers := [some runner]
    clocks := {} }

def paired : Simulation model := ⟨pair.setups.mapIdx (pair.partition 2), 2⟩

def pairLog : List (Planned Token) := log 2 ++ [⟨⟨0, 0⟩, Time.zero, Priority.event, ⟨1⟩⟩]

theorem made_pair : pair.Made pairLog :=
  .scheduleEvent (made 1 2) rfl

theorem build_pair : pair.build = .ok paired := rfl

end Relay

/-- Both tokens of such a relay are sent on one link end for one instant, and are delivered in the
order of sending. -/
theorem Simulation.first_come_pair : ∃ trace machine, Relay.paired.Reaches trace machine ∧
    Wired Relay.pair.tables ⟨0, 0⟩ ⟨1, 0⟩ ∧
    (sentOn trace ⟨0, 0⟩).map (fun s => (s.due.ticks, s.payload.hopsLeft)) = [(2, 1), (2, 0)] ∧
    (deliveredOn trace ⟨1, 0⟩).map (fun a => a.payload.event?.map fun event =>
      event.payload.hopsLeft) = [some 1, some 0] ∧
    (∀ e f : LinkEnd, Wired Relay.pair.tables e f →
      (∀ k < (deliveredOn trace f).length, ∃ m,
        Meets (askedOn Relay.pairLog trace e f) (deliveredOn trace f) m k ∧
          ∀ m', Meets (askedOn Relay.pairLog trace e f) (deliveredOn trace f) m' k → m' = m) ∧
      ∀ (m m' k k' : Nat) (s s' : Sent Ring.Token), m < m' →
        (sentOn trace e)[m]? = some s → (sentOn trace e)[m']? = some s' →
          Meets (askedOn Relay.pairLog trace e f) (deliveredOn trace f)
              ((plannedOn (M := Ring.model) Relay.pairLog f).length + m) k →
            Meets (askedOn Relay.pairLog trace e f) (deliveredOn trace f)
                ((plannedOn (M := Ring.model) Relay.pairLog f).length + m') k' →
              (s.due ≤ s'.due → k < k') ∧ (s'.due < s.due → k' < k)) ∧
    ∀ (j : PartitionId) (front back : List (Dispatch Ring.model)) (d : Dispatch Ring.model),
      System.seenOf j trace = front ++ d :: back → d.activity.isSync = true →
        ∀ x : Scheduled Ring.Token, x.priority = Priority.event →
          let queued := d.partition.timeline.agenda.filter x.ties
          let brought :=
            (arrivals Relay.paired.partitions.length (meetings front).length trace j).filter x.ties
          let done := (back.map fun e => e.activity.unnumbered).filter x.ties
          done <+: queued ++ brought ∨ queued ++ brought <+: done := by
  have h := Relay.reaches_run Relay.paired (Relay.turns 0)
  exact ⟨_, _, h, ⟨_, rfl, rfl⟩, by decide +kernel, by decide +kernel,
    Simulation.Reaches.first_come Relay.made_pair Relay.build_pair h
      fun _ _ => Dispatch.exact_of_panics rfl _⟩

/-- If a clock wraps around, what its handler sends for the instant 12 is delivered after what was
sent on the same link end before, though that is due in the second half of time. -/
theorem Simulation.first_sent_rollover : ∃ trace machine report,
    (Rollover.builder .wraps).Made Rollover.log ∧
    (Rollover.builder .wraps).build = .ok (Rollover.simulation .wraps) ∧
    (Rollover.simulation .wraps).Reaches trace machine ∧
    machine.outcome? 10 = some (.ok report) ∧
    Wired (Rollover.builder .wraps).tables ⟨0, 0⟩ ⟨1, 0⟩ ∧
    (sentOn trace ⟨0, 0⟩).map (fun s => (s.due.ticks, s.payload.number)) =
      [(9223372036854775823, 1), (12, 2)] ∧
    (deliveredOn trace ⟨1, 0⟩).map (fun a => a.payload.event?.map fun event =>
      event.payload.number) = [some 1, some 2] := by
  have h := Rollover.reaches_run (Rollover.simulation .wraps) Rollover.turns
  obtain ⟨report, hreport⟩ : ∃ report, (Rollover.run (Rollover.simulation .wraps)
      Rollover.turns).2.outcome? 10 = some (.ok report) := ⟨_, rfl⟩
  exact ⟨_, _, report, Rollover.made _, Rollover.build_eq _, h, hreport, ⟨_, rfl, rfl⟩,
    by decide +kernel, by decide +kernel⟩

end Lookahead
