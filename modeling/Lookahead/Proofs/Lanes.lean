import Lookahead.Proofs.Outcome

/-!
Lanes: partitions that send straight onto each other's agendas.

A lane is what handlers can tell apart of a partition and its agenda. A dispatch takes the first
activity of an agenda, whatever the other lanes are at, and puts everything that is sent on the
agendas at once. If no dispatch sends anything to a lane before its first activity, that lane can be
served first without a difference to anyone (`Lanes.serve_first`), as long as what comes from other
lanes ties with nothing.
-/

namespace Lookahead

variable {M : Model}

def Activity.ties {α : Type} (a b : Activity α) : Bool :=
  decide (a.time = b.time) && decide (a.priority = b.priority)

theorem Activity.ties_eq_false_iff {α : Type} {a b : Activity α} :
    a.ties b = false ↔ a.before b = true ∨ b.before a = true := by
  rw [Activity.before_iff, Activity.before_iff, ← Bool.not_eq_true]
  simp only [ties, Bool.and_eq_true, decide_eq_true_eq, Time.ext_iff]
  omega

/-! ## Lanes -/

/-- What is inside a partition, what is on its agenda, and whether it goes on. -/
structure Lane (M : Model) where
  inside : Inside M
  agenda : List (Scheduled M.Payload)
  live : Bool

abbrev Lanes (M : Model) := PartitionId → Option (Lane M)

namespace Lanes

/-- The first activity of lane `i` is taken, `rest` is still to come, and everything that is sent is
put where it belongs. -/
def dispatched (lanes : Lanes M) (i : PartitionId) (o : Outcome M)
    (rest : List (Scheduled M.Payload)) : Lanes M := fun k =>
  if k = i then
    some ⟨o.inside, Ordered.placeAll Activity.before o.added rest, o.live⟩
  else
    (lanes k).map fun lane =>
      { lane with
        agenda := Ordered.placeAll Activity.before (Sent.bound o.sends k) lane.agenda }

/-- The lane at this position serves its first activity. -/
noncomputable def step? (lanes : Lanes M) (i : PartitionId) : Option (Lanes M) :=
  match lanes i with
  | some ⟨inside, a :: rest, true⟩ => (inside.outcome? a).map fun o => lanes.dispatched i o rest
  | _ => none

noncomputable def note (lanes : Lanes M) (i : PartitionId) : List (PartitionId × Handled M) :=
  match lanes i with
  | some ⟨inside, a :: _, true⟩ =>
    ((inside.outcome? a).map fun o =>
      (i, (⟨a, inside, o.sends, o.inside⟩ : Handled M))).toList
  | _ => []

noncomputable def system (M : Model) : System (Lanes M) PartitionId (PartitionId × Handled M) where
  step? := step?
  note := note

variable {lanes x y final : Lanes M} {i j k : PartitionId} {inside : Inside M}
  {a : Scheduled M.Payload} {rest : List (Scheduled M.Payload)} {o : Outcome M}

theorem step?_of (hi : lanes i = some ⟨inside, a :: rest, true⟩)
    (ho : inside.outcome? a = some o) : lanes.step? i = some (lanes.dispatched i o rest) := by
  unfold step?
  simp only [hi, ho, Option.map_some]

theorem note_of (hi : lanes i = some ⟨inside, a :: rest, true⟩)
    (ho : inside.outcome? a = some o) :
    lanes.note i = [(i, ⟨a, inside, o.sends, o.inside⟩)] := by
  unfold note
  simp only [hi, ho, Option.map_some, Option.toList_some]

theorem step?_eq_some (h : lanes.step? i = some x) :
    ∃ inside a rest o, lanes i = some ⟨inside, a :: rest, true⟩ ∧
      inside.outcome? a = some o ∧ x = lanes.dispatched i o rest := by
  unfold step? at h
  split at h
  · rename_i inside a rest hi
    obtain ⟨o, ho, rfl⟩ := Option.map_eq_some_iff.mp h
    exact ⟨inside, a, rest, o, hi, ho, rfl⟩
  · cases h

theorem dispatched_self (lanes : Lanes M) (i : PartitionId) (o : Outcome M)
    (rest : List (Scheduled M.Payload)) :
    lanes.dispatched i o rest i =
      some ⟨o.inside, Ordered.placeAll Activity.before o.added rest, o.live⟩ := if_pos rfl

theorem dispatched_of_ne (hki : k ≠ i) :
    lanes.dispatched i o rest k = (lanes k).map fun lane =>
      { lane with
        agenda := Ordered.placeAll Activity.before (Sent.bound o.sends k) lane.agenda } :=
  if_neg hki

/-! ## Sound lanes -/

/-- Every lane is at its place, with an agenda in order and no fast links to others. -/
def Sound (lanes : Lanes M) (window : Nat) : Prop := ∀ (k : PartitionId) (lane : Lane M),
  lanes k = some lane →
    lane.inside.Sound window k ∧ Ordered.InOrder Activity.before lane.agenda

theorem Sound.step {window : Nat} (h : lanes.Sound window) (hstep : lanes.step? i = some x) :
    x.Sound window := by
  obtain ⟨inside, a, rest, o, hi, ho, rfl⟩ := step?_eq_some hstep
  intro k lane hk
  by_cases hki : k = i
  · subst hki
    rw [dispatched_self] at hk
    cases hk
    obtain ⟨hinside, horder⟩ := h k _ hi
    exact ⟨hinside.outcome ho,
      Ordered.InOrder.placeAll Activity.before_byKey _ (List.pairwise_cons.mp horder).2⟩
  · rw [dispatched_of_ne hki] at hk
    obtain ⟨before, hbefore, rfl⟩ := Option.map_eq_some_iff.mp hk
    obtain ⟨hinside, horder⟩ := h k _ hbefore
    exact ⟨hinside, horder.placeAll Activity.before_byKey _⟩

/-- Nothing is pending in a lane that goes on before `least`. -/
def From (lanes : Lanes M) (least : Time) : Prop := ∀ (k : PartitionId) (lane : Lane M),
  lanes k = some lane → lane.live = true → ∀ a ∈ lane.agenda, least ≤ a.time

/-- What is still to come is not due before what is pending. -/
theorem From.step {window : Nat} {least : Time} (h : lanes.From least)
    (hsound : lanes.Sound window) (hstep : lanes.step? i = some x)
    (hexact : ∀ entry ∈ lanes.note i, entry.2.Exact) :
    x.From least ∧ ∀ entry ∈ lanes.note i, least ≤ entry.2.activity.time := by
  obtain ⟨inside, a, rest, o, hi, ho, rfl⟩ := step?_eq_some hstep
  have ha := h i _ hi rfl a (List.mem_cons_self ..)
  rw [note_of hi ho] at hexact ⊢
  have hexact' : inside.Exact a.time a.priority a.payload := hexact _ (List.mem_singleton_self _)
  refine ⟨?_, ?_⟩
  · intro k lane hk hlive x hx
    by_cases hki : k = i
    · subst hki
      rw [dispatched_self] at hk
      cases hk
      rcases Ordered.mem_placeAll.mp hx with hx | hx
      · exact Time.le_trans ha (Inside.le_added ho hexact' x hx)
      · exact h k _ hi rfl x (List.mem_cons_of_mem _ hx)
    · rw [dispatched_of_ne hki] at hk
      obtain ⟨before, hbefore, rfl⟩ := Option.map_eq_some_iff.mp hk
      rcases Ordered.mem_placeAll.mp hx with hx | hx
      · have hdue := ((hsound i _ hi).1.le_bound ho k x hx).1
        exact Time.le_trans ha (Time.le_trans (Time.le_after _ _) hdue)
      · exact h k _ hbefore hlive x hx
  · intro entry hentry
    obtain rfl := List.mem_singleton.mp hentry
    exact ha

theorem From.run {window : Nat} {least : Time} {schedule : List PartitionId}
    {trace : List (PartitionId × Handled M)} (h : lanes.From least)
    (hsound : lanes.Sound window) (hrun : (system M).Run lanes schedule trace final)
    (hexact : ∀ entry ∈ trace, entry.2.Exact) : ∀ entry ∈ trace, least ≤ entry.2.activity.time := by
  suffices hall : final.From least ∧ final.Sound window ∧
      ∀ entry ∈ trace, least ≤ entry.2.activity.time from hall.2.2
  induction hrun with
  | refl => exact ⟨h, hsound, by simp⟩
  | step _ hstep ih =>
    obtain ⟨hfrom, hsound', hbefore⟩ := ih fun entry hentry =>
      hexact entry (List.mem_append_left _ hentry)
    obtain ⟨hfrom', hnote⟩ := hfrom.step hsound' hstep fun entry hentry =>
      hexact entry (List.mem_append_right _ hentry)
    refine ⟨hfrom', hsound'.step hstep, ?_⟩
    intro entry hentry
    rcases List.mem_append.mp hentry with hentry | hentry
    · exact hbefore entry hentry
    · exact hnote entry hentry

/-- Whatever is sent to another lane is on its way for a window at least. -/
theorem Sound.bound_of_run {window : Nat} {schedule : List PartitionId}
    {trace : List (PartitionId × Handled M)} (h : lanes.Sound window)
    (hrun : (system M).Run lanes schedule trace final) : ∀ entry ∈ trace, ∀ (k : PartitionId),
      ∀ x ∈ Sent.bound entry.2.sends k,
        entry.2.activity.time.after window ≤ x.time ∧ x.priority = Priority.event := by
  induction schedule generalizing lanes trace with
  | nil =>
    obtain ⟨rfl, rfl⟩ := hrun.eq_of_nil
    simp
  | cons i schedule ih =>
    obtain ⟨next, rest, hstep, hrest, rfl⟩ := hrun.of_cons
    intro entry hentry k x hx
    rcases List.mem_append.mp hentry with hentry | hentry
    · obtain ⟨inside, a, others, o, hi, ho, rfl⟩ := step?_eq_some hstep
      rw [show (system M).note lanes i = _ from note_of hi ho] at hentry
      obtain rfl := List.mem_singleton.mp hentry
      obtain ⟨hdue, hpriority, _⟩ := (h i _ hi).1.le_bound ho k x hx
      exact ⟨hdue, hpriority⟩
    · exact ih (h.step hstep) hrest entry hentry k x hx

/-- A lane that has ended, or that there is not, is never served again. -/
theorem not_served {schedule : List PartitionId} {trace : List (PartitionId × Handled M)}
    (hrun : (system M).Run lanes schedule trace final)
    (hk : ∀ lane : Lane M, lanes k = some lane → lane.live = false) :
    ∀ entry ∈ trace, entry.1 ≠ k := by
  induction schedule generalizing lanes trace with
  | nil =>
    obtain ⟨rfl, rfl⟩ := hrun.eq_of_nil
    simp
  | cons i schedule ih =>
    obtain ⟨next, rest, hstep, hrest, rfl⟩ := hrun.of_cons
    obtain ⟨inside, a, others, o, hi, ho, rfl⟩ := step?_eq_some hstep
    have hki : k ≠ i := by
      rintro rfl
      cases hk _ hi
    intro entry hentry
    rcases List.mem_append.mp hentry with hentry | hentry
    · rw [show (system M).note lanes i = _ from note_of hi ho] at hentry
      obtain rfl := List.mem_singleton.mp hentry
      exact Ne.symm hki
    · refine ih hrest (fun lane hlane => ?_) entry hentry
      rw [dispatched_of_ne hki] at hlane
      obtain ⟨before, hbefore, rfl⟩ := Option.map_eq_some_iff.mp hlane
      exact hk before hbefore

/-! ## What a lane ever has on its agenda -/

def served (trace : List (PartitionId × Handled M)) (final : Lanes M) (k : PartitionId) :
    List (Scheduled M.Payload) :=
  (System.seenOf k trace).map (fun h => h.activity) ++ ((final k).elim [] Lane.agenda)

/-- Whatever is on an agenda is served sooner or later or left in the end. -/
theorem countP_le_served {schedule : List PartitionId} {trace : List (PartitionId × Handled M)}
    (hrun : (system M).Run lanes schedule trace final) {lane : Lane M} (hk : lanes k = some lane)
    (kind : Scheduled M.Payload → Bool) :
    lane.agenda.countP kind ≤ (served trace final k).countP kind := by
  induction schedule generalizing lanes trace lane with
  | nil =>
    obtain ⟨rfl, rfl⟩ := hrun.eq_of_nil
    simp [served, hk]
  | cons i schedule ih =>
    obtain ⟨x, later, hstep, hrest, rfl⟩ := hrun.of_cons
    obtain ⟨inside, a, rest, o, hi, ho, rfl⟩ := step?_eq_some hstep
    have hnote : (system M).note lanes i = [(i, ⟨a, inside, o.sends, o.inside⟩)] := note_of hi ho
    by_cases hki : k = i
    · subst hki
      rw [hi] at hk
      cases hk
      have hlater := ih hrest (dispatched_self lanes k o rest)
      have hperm : (Ordered.placeAll Activity.before o.added rest).Perm (o.added ++ rest) :=
        Ordered.placeAll_perm _ _
      have hcount := hperm.countP_eq kind
      rw [List.countP_append] at hcount
      rw [hnote]
      unfold served at *
      simp only [List.countP_append, List.countP_cons, System.seenOf, List.filterMap_append,
        List.filterMap_cons, ↓reduceIte, List.filterMap_nil, List.map_append, List.map_cons,
        List.map_nil, List.countP_nil] at *
      omega
    · have hx : lanes.dispatched i o rest k = some { lane with
          agenda := Ordered.placeAll Activity.before (Sent.bound o.sends k) lane.agenda } := by
        rw [dispatched_of_ne hki, hk]
        rfl
      have hlater := ih hrest hx
      have hperm : (Ordered.placeAll Activity.before (Sent.bound o.sends k) lane.agenda).Perm
          (Sent.bound o.sends k ++ lane.agenda) := Ordered.placeAll_perm _ _
      have hcount := hperm.countP_eq kind
      rw [List.countP_append] at hcount
      rw [hnote]
      unfold served at *
      simp only [List.countP_append, System.seenOf, List.filterMap_append, List.filterMap_cons,
        Ne.symm hki, ↓reduceIte, List.filterMap_nil, List.nil_append] at *
      omega

/-- What comes from other lanes ties with nothing that is ever on the agenda with it. -/
def Apart (trace : List (PartitionId × Handled M)) (final : Lanes M) : Prop :=
  ∀ entry ∈ trace, ∀ (k : PartitionId), ∀ x ∈ Sent.bound entry.2.sends k,
    (served trace final k).countP x.ties ≤ 1

theorem Apart.sublist {trace others : List (PartitionId × Handled M)} (h : Apart trace final)
    (hsub : others.Sublist trace) : Apart others final := by
  intro entry hentry k x hx
  refine Nat.le_trans (List.Sublist.countP_le ?_) (h entry (hsub.subset hentry) k x hx)
  exact ((hsub.filterMap _).map _).append_right _

/-- Two activities that are on an agenda at the same time do not tie, if not more than one activity
like them is ever served. -/
theorem before_of_served {schedule : List PartitionId} {trace : List (PartitionId × Handled M)}
    (hrun : (system M).Run lanes schedule trace final) {lane : Lane M} (hk : lanes k = some lane)
    {front back others : List (Scheduled M.Payload)}
    (hperm : lane.agenda.Perm (front ++ (back ++ others))) {x y : Scheduled M.Payload}
    (hx : x ∈ front) (hy : y ∈ back) (hone : (served trace final k).countP x.ties ≤ 1) :
    x.before y = true ∨ y.before x = true := by
  rw [← Activity.ties_eq_false_iff, ← Bool.not_eq_true]
  intro hties
  have hself : x.ties x = true := by simp [Activity.ties]
  have hfront := List.countP_pos_iff.mpr ⟨x, hx, hself⟩
  have hback := List.countP_pos_iff.mpr ⟨y, hy, hties⟩
  have hcount := hperm.countP_eq x.ties
  have hserved := countP_le_served hrun hk x.ties
  rw [List.countP_append, List.countP_append] at hcount
  omega

/-- Nothing on an agenda ties with another one of these, if not more than one activity like each of
them is ever served. -/
theorem pairwise_of_served {schedule : List PartitionId}
    {trace : List (PartitionId × Handled M)} (hrun : (system M).Run lanes schedule trace final)
    {lane : Lane M} (hk : lanes k = some lane) {added others : List (Scheduled M.Payload)}
    (hperm : lane.agenda.Perm (added ++ others))
    (hone : ∀ x ∈ added, (served trace final k).countP x.ties ≤ 1) :
    added.Pairwise fun x y => x.before y = true ∨ y.before x = true := by
  rw [List.pairwise_iff_forall_sublist]
  intro x y hsub
  rw [← Activity.ties_eq_false_iff, ← Bool.not_eq_true]
  intro hties
  have hself : x.ties x = true := by simp [Activity.ties]
  have hpair := hsub.countP_le (p := x.ties)
  have hcount := hperm.countP_eq x.ties
  have hserved := countP_le_served hrun hk x.ties
  have hsingle := hone x (hsub.subset (List.mem_cons_self ..))
  rw [List.countP_append] at hcount
  simp only [List.countP_cons, hself, hties, ↓reduceIte, List.countP_nil] at hpair
  omega

/-! ## Serving a lane first -/

/-- Nothing is going to be served any more: a lane goes on only with an empty agenda. -/
def Ended (lanes : Lanes M) : Prop := ∀ (k : PartitionId) (lane : Lane M),
  lanes k = some lane → lane.live = true → lane.agenda = []

theorem Ended.eq_nil {schedule : List PartitionId} {trace : List (PartitionId × Handled M)}
    (h : lanes.Ended) (hrun : (system M).Run lanes schedule trace final) : trace = [] := by
  refine (hrun.eq_of_halted fun i => ?_).2.2
  cases hstep : (system M).step? lanes i with
  | none => rfl
  | some next =>
    obtain ⟨inside, a, rest, o, hi, _, _⟩ := step?_eq_some hstep
    cases h i _ hi rfl

def InTime (trace : List (PartitionId × Handled M)) : Prop :=
  trace.Pairwise fun e f => e.2.activity.time ≤ f.2.activity.time

/-- Whichever of two lanes is served first, everything gets to the same place, as long as nothing
that they send ties with anything that is served afterwards. -/
theorem dispatched_comm {schedule : List PartitionId} {trace : List (PartitionId × Handled M)}
    {o u : Outcome M} {rest others : List (Scheduled M.Payload)} (hij : i ≠ j)
    (hrun : (system M).Run ((lanes.dispatched j u others).dispatched i o
      (Ordered.placeAll Activity.before (Sent.bound u.sends i) rest)) schedule trace final)
    (hone : ∀ (k : PartitionId), ∀ x ∈ Sent.bound u.sends k ++ Sent.bound o.sends k,
      (served trace final k).countP x.ties ≤ 1) :
    (lanes.dispatched i o rest).dispatched j u
        (Ordered.placeAll Activity.before (Sent.bound o.sends j) others) =
      (lanes.dispatched j u others).dispatched i o
        (Ordered.placeAll Activity.before (Sent.bound u.sends i) rest) := by
  funext k
  by_cases hki : k = i
  · subst hki
    have hk := dispatched_self (lanes.dispatched j u others) k o
      (Ordered.placeAll Activity.before (Sent.bound u.sends k) rest)
    have hclear : ∀ x ∈ Sent.bound u.sends k, ∀ y ∈ o.added,
        x.before y = true ∨ y.before x = true := fun x hx y hy =>
      before_of_served hrun hk Ordered.placeAll_placeAll_perm' hx hy
        (hone k x (List.mem_append_left _ hx))
    rw [hk, dispatched_of_ne hij, dispatched_self, Option.map_some,
      Ordered.placeAll_comm Activity.before_byKey hclear]
  · by_cases hkj : k = j
    · subst hkj
      have hk : ((lanes.dispatched k u others).dispatched i o
          (Ordered.placeAll Activity.before (Sent.bound u.sends i) rest)) k =
            some ⟨u.inside, Ordered.placeAll Activity.before (Sent.bound o.sends k)
              (Ordered.placeAll Activity.before u.added others), u.live⟩ := by
        rw [dispatched_of_ne hki, dispatched_self, Option.map_some]
      have hclear : ∀ x ∈ Sent.bound o.sends k, ∀ y ∈ u.added,
          x.before y = true ∨ y.before x = true := fun x hx y hy =>
        before_of_served hrun hk Ordered.placeAll_placeAll_perm hx hy
          (hone k x (List.mem_append_right _ hx))
      rw [hk, dispatched_self, Ordered.placeAll_comm Activity.before_byKey hclear]
    · rw [dispatched_of_ne hkj, dispatched_of_ne hki, dispatched_of_ne hki, dispatched_of_ne hkj]
      cases hlane : lanes k with
      | none => rfl
      | some lane =>
        have hk : ((lanes.dispatched j u others).dispatched i o
            (Ordered.placeAll Activity.before (Sent.bound u.sends i) rest)) k =
              some { lane with
                agenda := Ordered.placeAll Activity.before (Sent.bound o.sends k)
                  (Ordered.placeAll Activity.before (Sent.bound u.sends k) lane.agenda) } := by
          rw [dispatched_of_ne hki, dispatched_of_ne hkj, hlane, Option.map_some, Option.map_some]
        have hclear : ∀ x ∈ Sent.bound u.sends k, ∀ y ∈ Sent.bound o.sends k,
            x.before y = true ∨ y.before x = true := fun x hx y hy =>
          before_of_served hrun hk Ordered.placeAll_placeAll_perm' hx hy
            (hone k x (List.mem_append_left _ hx))
        simp only [Option.map_some, Ordered.placeAll_comm Activity.before_byKey hclear]

/-- What is sent to another lane comes behind all that is due there by now. -/
theorem not_before_of_due {window : Nat} {o : Outcome M} {b : Scheduled M.Payload}
    (hwindow : 1 ≤ window) (hsound : inside.Sound window i) (ho : inside.outcome? a = some o)
    (hle : b.time ≤ a.time) (hlast : a.time < Time.never) :
    ∀ x ∈ Sent.bound o.sends j, x.before b = false := by
  intro x hx
  have hdue := (hsound.le_bound ho j x hx).1
  rw [Activity.not_before_iff]
  rw [Time.le_def] at hdue hle
  rw [Time.lt_def] at hlast
  simp only [Time.ticks_after, Time.ticks_never] at hdue hlast
  omega

/-- If lane `i` can be served after lane `j`, lane `j` can be served after lane `i`. -/
theorem run_swapped {schedule : List PartitionId} {trace : List (PartitionId × Handled M)}
    {inside' : Inside M} {b : Scheduled M.Payload} {o u : Outcome M}
    {rest others : List (Scheduled M.Payload)} (hij : i ≠ j)
    (hj : lanes j = some ⟨inside', b :: others, true⟩) (hu : inside'.outcome? b = some u)
    (hclear : ∀ x ∈ Sent.bound o.sends j, x.before b = false)
    (hrun : (system M).Run ((lanes.dispatched j u others).dispatched i o
      (Ordered.placeAll Activity.before (Sent.bound u.sends i) rest)) schedule trace final)
    (hone : ∀ (k : PartitionId), ∀ x ∈ Sent.bound u.sends k ++ Sent.bound o.sends k,
      (served trace final k).countP x.ties ≤ 1) :
    (system M).Run (lanes.dispatched i o rest) (j :: schedule)
      ((j, ⟨b, inside', u.sends, u.inside⟩) :: trace) final := by
  -- lane `j` still has `b` in front of it
  have hj' : lanes.dispatched i o rest j = some ⟨inside',
      b :: Ordered.placeAll Activity.before (Sent.bound o.sends j) others, true⟩ := by
    rw [dispatched_of_ne (Ne.symm hij), hj, Option.map_some,
      Ordered.placeAll_cons_of_not_before hclear]
  have hstep : (system M).step? (lanes.dispatched i o rest) j =
      some ((lanes.dispatched j u others).dispatched i o
        (Ordered.placeAll Activity.before (Sent.bound u.sends i) rest)) := by
    rw [← dispatched_comm hij hrun hone]
    exact step?_of hj' hu
  have hnote : (system M).note (lanes.dispatched i o rest) j =
      [(j, ⟨b, inside', u.sends, u.inside⟩)] := note_of hj' hu
  have hboth := System.Run.cons hstep hrun
  rwa [hnote] at hboth

/-- A lane can be served first without a difference, if nothing is sent to it before its first
activity, what comes from other lanes ties with nothing, and nothing is left in the end. -/
theorem serve_first {window : Nat} (hwindow : 1 ≤ window) {schedule : List PartitionId}
    {trace : List (PartitionId × Handled M)} (hrun : (system M).Run lanes schedule trace final)
    (hsound : lanes.Sound window) (htime : InTime trace)
    (hnever : ∀ entry ∈ trace, entry.2.activity.time < Time.never) (hapart : Apart trace final)
    (hended : final.Ended) (hi : lanes i = some ⟨inside, a :: rest, true⟩)
    (hfirst : ∀ entry ∈ trace, entry.1 ≠ i → ∀ x ∈ Sent.bound entry.2.sends i,
      a.before x = true) :
    ∃ o front back schedule', inside.outcome? a = some o ∧
      trace = front ++ (i, ⟨a, inside, o.sends, o.inside⟩) :: back ∧
      (∀ entry ∈ front, entry.1 ≠ i) ∧
        (system M).Run (lanes.dispatched i o rest) schedule' (front ++ back) final := by
  -- by induction on the schedule: what another lane serves in front of `a` can be served behind it
  induction schedule generalizing lanes trace rest with
  | nil =>
    obtain ⟨rfl, rfl⟩ := hrun.eq_of_nil
    cases hended i _ hi rfl
  | cons j schedule ih =>
    obtain ⟨x, later, hstep, hrest, rfl⟩ := hrun.of_cons
    by_cases hij : i = j
    · subst hij
      obtain ⟨_, _, _, o, hi', ho, rfl⟩ := step?_eq_some hstep
      rw [hi] at hi'
      cases hi'
      have hnote : (system M).note lanes i = [(i, ⟨a, inside, o.sends, o.inside⟩)] :=
        note_of hi ho
      exact ⟨o, [], later, schedule, ho, by rw [hnote]; rfl, by simp, hrest⟩
    · obtain ⟨inside', b, others, u, hj, hu, rfl⟩ := step?_eq_some hstep
      have hnote : (system M).note lanes j = [(j, ⟨b, inside', u.sends, u.inside⟩)] :=
        note_of hj hu
      rw [hnote, List.singleton_append] at htime hnever hapart hfirst ⊢
      obtain ⟨hbefore, htime'⟩ := List.pairwise_cons.mp htime
      -- lane `i` still has `a` in front of it
      have hi' : lanes.dispatched j u others i = some ⟨inside,
          a :: Ordered.placeAll Activity.before (Sent.bound u.sends i) rest, true⟩ := by
        have hclear : ∀ x ∈ Sent.bound u.sends i, x.before a = false := fun x hx =>
          Activity.before_byKey.asymm a x
            (hfirst _ (List.mem_cons_self ..) (Ne.symm hij) x hx)
        rw [dispatched_of_ne hij, hi, Option.map_some,
          Ordered.placeAll_cons_of_not_before hclear]
      obtain ⟨o, front, back, schedule', ho, rfl, hother, hrun'⟩ := ih hrest (hsound.step hstep)
        htime' (fun entry h => hnever entry (List.mem_cons_of_mem _ h))
        (hapart.sublist (List.sublist_cons_self ..)) hi'
        (fun entry h => hfirst entry (List.mem_cons_of_mem _ h))
      have hmem : (i, (⟨a, inside, o.sends, o.inside⟩ : Handled M)) ∈
          front ++ (i, ⟨a, inside, o.sends, o.inside⟩) :: back := by simp
      -- what is served afterwards ties with nothing that the two of them send
      have hsub : (front ++ back).Sublist ((j, ⟨b, inside', u.sends, u.inside⟩) ::
          (front ++ (i, ⟨a, inside, o.sends, o.inside⟩) :: back)) :=
        ((List.sublist_cons_self ..).append_left front).trans (List.sublist_cons_self ..)
      have hone : ∀ (k : PartitionId), ∀ x ∈ Sent.bound u.sends k ++ Sent.bound o.sends k,
          (served (front ++ back) final k).countP x.ties ≤ 1 := by
        intro k x hx
        have hall : (served ((j, ⟨b, inside', u.sends, u.inside⟩) ::
            (front ++ (i, ⟨a, inside, o.sends, o.inside⟩) :: back)) final k).countP x.ties ≤ 1 := by
          rcases List.mem_append.mp hx with hx | hx
          · exact hapart _ (List.mem_cons_self ..) k x hx
          · exact hapart _ (List.mem_cons_of_mem _ hmem) k x hx
        refine Nat.le_trans (List.Sublist.countP_le ?_) hall
        exact ((hsub.filterMap _).map _).append_right _
      have hclear := not_before_of_due (j := j) hwindow (hsound i _ hi).1 ho (hbefore _ hmem)
        (hnever _ (List.mem_cons_of_mem _ hmem))
      refine ⟨o, (j, ⟨b, inside', u.sends, u.inside⟩) :: front, back, j :: schedule', ho, rfl, ?_,
        run_swapped hij hj hu hclear hrun' hone⟩
      intro entry hentry
      rcases List.mem_cons.mp hentry with rfl | hentry
      · exact Ne.symm hij
      · exact hother entry hentry

end Lanes

end Lookahead
