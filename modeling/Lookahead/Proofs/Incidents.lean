import Lookahead.Proofs.Deferral
import Lookahead.Proofs.Service
import Mathlib.Data.List.Nodup

/-!
What happens to the handlers of a partition's clocks.

A handle is given out, its handler joins a clock, is called, leaves by itself or is removed. A
ledger goes along with such a history: it holds the number of the next handle, what has been asked
for and waits to be carried out, and whose handlers are on a clock. Handlers join in the order of
their handles, and each of them once, so whoever has gone does not come back (`Ledger.joins`), and
handlers keep their identity (`Orderly.keepsIdentity`).
-/

namespace Lookahead

variable {κ σ π α : Type}

/-! ## Handlers on clocks -/

def Clock.on (clock : Clock κ) : List ClockHandle :=
  clock.handlers.map fun entry => ⟨clock.period.factor, entry.id⟩

def ClockSet.on (set : ClockSet κ) : List ClockHandle := set.clocks.flatMap Clock.on

def ClockSet.Distinct (set : ClockSet κ) : Prop := (set.on.map ClockHandle.handler).Nodup

namespace Clock

def without (clock : Clock κ) (id : HandlerId) : Clock κ :=
  { clock with
    handlers := clock.handlers.filter fun entry => entry.id != id
    retired := clock.retired ++ clock.handlers.filter fun entry => entry.id == id }

theorem without_eq_self {clock : Clock κ} {id : HandlerId}
    (h : ∀ entry ∈ clock.handlers, entry.id ≠ id) : clock.without id = clock := by
  have hstay : clock.handlers.filter (fun entry => entry.id != id) = clock.handlers :=
    List.filter_eq_self.mpr fun entry hentry => by simpa using h entry hentry
  have hgo : clock.handlers.filter (fun entry => entry.id == id) = [] :=
    List.filter_eq_nil_iff.mpr fun entry hentry => by simpa using h entry hentry
  simp [without, hstay, hgo]

/-- Of handlers with different numbers one is found under a number, and is the only one. -/
theorem find?_of_nodup {handlers : List (Attached κ)} {id : HandlerId} {entry : Attached κ}
    (hdistinct : (handlers.map Attached.id).Nodup)
    (h : (handlers.find? fun entry => entry.id == id) = some entry) :
    (handlers.eraseP fun entry => entry.id == id) =
        handlers.filter (fun entry => entry.id != id) ∧
      (handlers.filter fun entry => entry.id == id) = [entry] := by
  induction handlers with
  | nil => cases h
  | cons first rest ih =>
    obtain ⟨hfirst, hrest⟩ := List.nodup_cons.mp hdistinct
    by_cases hid : first.id = id
    · have hothers : ∀ other ∈ rest, other.id ≠ id := by
        rintro other hother rfl
        exact hfirst (hid ▸ List.mem_map_of_mem hother)
      have hstay : rest.filter (fun entry => entry.id != id) = rest :=
        List.filter_eq_self.mpr fun other hother => by simpa using hothers other hother
      have hgo : rest.filter (fun entry => entry.id == id) = [] :=
        List.filter_eq_nil_iff.mpr fun other hother => by simpa using hothers other hother
      simp only [List.find?_cons, hid, beq_self_eq_true, Option.some.injEq] at h
      obtain rfl := h
      simp [hid, hstay, hgo]
    · rw [List.find?_cons_of_neg (by simpa using hid)] at h
      obtain ⟨hstay, hgo⟩ := ih hrest h
      simp [hid, hstay, hgo]

theorem unregister_eq_without {clock : Clock κ} (hdistinct : (clock.handlers.map Attached.id).Nodup)
    (id : HandlerId) : clock.unregister id = clock.without id := by
  unfold unregister
  split
  · rename_i hnone
    refine (without_eq_self fun entry hentry => ?_).symm
    simpa using List.find?_eq_none.mp hnone entry hentry
  · rename_i entry hfound
    obtain ⟨hstay, hgo⟩ := find?_of_nodup hdistinct hfound
    simp [without, hstay, hgo]

theorem on_without (clock : Clock κ) (id : HandlerId) :
    (clock.without id).on = clock.on.filter fun handle => handle.handler != id := by
  simp [on, without, List.filter_map, Function.comp_def]

end Clock

namespace ClockSet

theorem Distinct.clock {set : ClockSet κ} (h : set.Distinct) {clock : Clock κ}
    (hclock : clock ∈ set.clocks) : (clock.handlers.map Attached.id).Nodup := by
  unfold Distinct on at h
  rw [List.map_flatMap, List.nodup_flatMap] at h
  simpa [Clock.on, Function.comp_def] using h.1 clock hclock

theorem not_mem_on_of_get? (set : ClockSet κ) {handle : ClockHandle}
    (h : set.get? handle.factor = none) : handle ∉ set.on := by
  intro hmem
  obtain ⟨clock, hclock, hon⟩ := List.mem_flatMap.mp hmem
  obtain ⟨entry, _, rfl⟩ := List.mem_map.mp hon
  simpa using List.find?_eq_none.mp h clock hclock

end ClockSet

/-! ## Removals -/

/-- Removing the handler under a handle takes it off its clock and changes nothing else. -/
def Removes (handle : ClockHandle) (before after : ClockSet κ) : Prop :=
  after = { before with
    clocks := before.clocks.map fun clock =>
      if clock.period.factor = handle.factor then clock.without handle.handler else clock }

namespace Removes

variable {handle : ClockHandle} {before after : ClockSet κ}

theorem of_not_mem (h : handle ∉ before.on) : Removes handle before before := by
  have hsame : ∀ clock ∈ before.clocks,
      (if clock.period.factor = handle.factor then clock.without handle.handler else clock) =
        id clock := by
    intro clock hclock
    split
    · rename_i hfactor
      refine Clock.without_eq_self fun entry hentry hid => h ?_
      refine List.mem_flatMap.mpr ⟨clock, hclock, List.mem_map.mpr ⟨entry, hentry, ?_⟩⟩
      rw [hfactor, hid]
    · rfl
  unfold Removes
  rw [List.map_congr_left hsame, List.map_id]

/-- Where nobody is there under the handle, nothing changes at all. -/
theorem eq_of_not_mem (h : Removes handle before after) (hnone : handle ∉ before.on) :
    after = before :=
  h.trans (of_not_mem hnone).symm

theorem on_eq (h : Removes handle before after) :
    after.on = before.on.filter fun other => other != handle := by
  rw [show after = _ from h]
  unfold ClockSet.on
  rw [List.flatMap_map, List.filter_flatMap]
  refine List.flatMap_congr fun clock hclock => ?_
  split
  · rename_i hfactor
    rw [Clock.on_without]
    refine List.filter_congr fun other hother => ?_
    obtain ⟨entry, _, rfl⟩ := List.mem_map.mp hother
    cases handle
    simp_all [bne]
  · rename_i hfactor
    refine (List.filter_eq_self.mpr fun other hother => ?_).symm
    obtain ⟨entry, _, rfl⟩ := List.mem_map.mp hother
    simp only [bne_iff_ne, ne_eq]
    rintro rfl
    exact hfactor rfl

end Removes

namespace ClockSet

theorem removes_of_ok {set set' : ClockSet κ} {handle : ClockHandle} {last : Bool}
    (h : set.Distinct) (hok : set.unregister handle = .ok (last, set')) :
    Removes handle set set' := by
  unfold unregister at hok
  split at hok
  · cases hok
  · cases hok
    show ({ set with clocks := _ } : ClockSet κ) = { set with clocks := _ }
    congr 1
    refine List.map_congr_left fun clock hclock => ?_
    rw [Clock.unregister_eq_without (h.clock hclock)]

/-- A removal that is refused would not have found anybody. -/
theorem removes_of_error {set : ClockSet κ} {handle : ClockHandle} {e : ConfigError}
    (herror : set.unregister handle = .error e) : Removes handle set set := by
  unfold unregister at herror
  split at herror
  · rename_i hget
    exact .of_not_mem (set.not_mem_on_of_get? hget)
  · cases herror

/-- Carrying out a removal removes, also where it finds no clock. -/
theorem removes_applyOne {set : ClockSet κ} (h : set.Distinct) (timeline : Timeline π)
    (handle : ClockHandle) :
    Removes handle set (applyOne (set, timeline) (.unregister handle)).1 := by
  unfold applyOne
  dsimp only
  split
  · rename_i hok
    exact removes_of_ok h hok
  · rename_i herror
    exact removes_of_error herror

end ClockSet

/-! ## Histories -/

/-- What is asked of the clocks of a partition: to take a handler, or to remove one. -/
inductive Wish where
  | join (handle : ClockHandle)
  | removal (handle : ClockHandle)

def Wish.joins? : Wish → Option ClockHandle
  | .join handle => some handle
  | .removal _ => none

/-- Something that happens to the handlers of a partition's clocks. -/
inductive Incident (κ : Type) where
  /-- A handle is given out, for a handler that is to be put on its clock. -/
  | granted (handle : ClockHandle)
  /-- A removal is asked for. -/
  | dismissed (handle : ClockHandle)
  /-- The handler is put on its clock. -/
  | joined (handle : ClockHandle)
  /-- A removal is carried out, with the clocks before and after it. -/
  | removed (handle : ClockHandle) (before after : ClockSet κ)
  /-- A handler is called. -/
  | called (id : HandlerId)
  /-- It says that it wants to go. -/
  | left (id : HandlerId)

namespace Incident

def granted? : Incident κ → Option ClockHandle
  | .granted handle => some handle
  | _ => none

def wished? : Incident κ → Option Wish
  | .granted handle => some (.join handle)
  | .dismissed handle => some (.removal handle)
  | _ => none

def carried? : Incident κ → Option Wish
  | .joined handle => some (.join handle)
  | .removed handle _ _ => some (.removal handle)
  | _ => none

end Incident

/-- The handles that were given out, in order. -/
def granted (history : List (Incident κ)) : List ClockHandle :=
  history.filterMap Incident.granted?

def wished (history : List (Incident κ)) : List Wish := history.filterMap Incident.wished?

def carried (history : List (Incident κ)) : List Wish := history.filterMap Incident.carried?

variable {history : List (Incident κ)}

@[simp] theorem granted_concat (x : Incident κ) :
    granted (history ++ [x]) = granted history ++ x.granted?.toList := by
  cases x <;> simp [granted, Incident.granted?, List.filterMap_cons]

@[simp] theorem wished_concat (x : Incident κ) :
    wished (history ++ [x]) = wished history ++ x.wished?.toList := by
  cases x <;> simp [wished, Incident.wished?, List.filterMap_cons]

@[simp] theorem carried_concat (x : Incident κ) :
    carried (history ++ [x]) = carried history ++ x.carried?.toList := by
  cases x <;> simp [carried, Incident.carried?, List.filterMap_cons]

theorem joins_wished (history : List (Incident κ)) :
    (wished history).filterMap Wish.joins? = granted history := by
  unfold wished granted
  rw [List.filterMap_filterMap]
  refine List.filterMap_congr fun x _ => ?_
  cases x <;> rfl

theorem mem_joins_carried {handle : ClockHandle} (h : .joined handle ∈ history) :
    handle ∈ (carried history).filterMap Wish.joins? :=
  List.mem_filterMap.mpr ⟨.join handle, List.mem_filterMap.mpr ⟨_, h, rfl⟩, rfl⟩

/-- The handler of number `id` has left by itself, or was removed under its handle after it had been
put on its clock. Nothing keeps anybody from naming a handle that is yet to be given out, but such a
removal finds nobody. -/
def Gone (history : List (Incident κ)) (id : HandlerId) : Prop :=
  .left id ∈ history ∨ ∃ front handle before after back,
    history = front ++ .removed handle before after :: back ∧
      .joined handle ∈ front ∧ handle.handler = id

/-- Who has gone once one more thing has happened. -/
theorem gone_concat {x : Incident κ} {id : HandlerId} :
    Gone (history ++ [x]) id ↔
      Gone history id ∨ x = .left id ∨
        ∃ handle before after, x = .removed handle before after ∧
          .joined handle ∈ history ∧ handle.handler = id := by
  constructor
  · rintro (hleft | ⟨front, handle, before, after, back, hcut, hjoined, hid⟩)
    · rcases List.mem_append.mp hleft with hleft | hleft
      · exact Or.inl (Or.inl hleft)
      · exact Or.inr (Or.inl (List.mem_singleton.mp hleft).symm)
    · rcases cut_of_snoc hcut with ⟨rfl, rfl, _⟩ | ⟨rest, _, hrest⟩
      · exact Or.inr (Or.inr ⟨handle, before, after, rfl, hjoined, hid⟩)
      · exact Or.inl (Or.inr ⟨front, handle, before, after, rest, hrest, hjoined, hid⟩)
  · rintro ((hleft | ⟨front, handle, before, after, back, rfl, hjoined, hid⟩) | rfl |
      ⟨handle, before, after, rfl, hjoined, hid⟩)
    · exact Or.inl (List.mem_append_left _ hleft)
    · exact Or.inr ⟨front, handle, before, after, back ++ [x], by simp, hjoined, hid⟩
    · exact Or.inl (List.mem_append_right _ (List.mem_singleton_self _))
    · exact Or.inr ⟨history, handle, before, after, [], rfl, hjoined, hid⟩

/-- Nobody who has gone is called, and a removal takes away who has joined under its handle and has
not gone, and nobody else. -/
structure Conduct (history : List (Incident κ)) : Prop where
  calls : ∀ front id back, history = front ++ .called id :: back → ¬ Gone front id
  removals : ∀ front handle before after back,
    history = front ++ .removed handle before after :: back →
      before.Distinct ∧ Removes handle before after ∧
        (handle ∈ before.on ↔ .joined handle ∈ front ∧ ¬ Gone front handle.handler)

theorem Conduct.nil : Conduct ([] : List (Incident κ)) := ⟨by simp, by simp⟩

theorem Conduct.concat (h : Conduct history) {x : Incident κ}
    (hcalled : ∀ id, x = .called id → ¬ Gone history id)
    (hremoved : ∀ handle before after, x = .removed handle before after →
      before.Distinct ∧ Removes handle before after ∧
        (handle ∈ before.on ↔ .joined handle ∈ history ∧ ¬ Gone history handle.handler)) :
    Conduct (history ++ [x]) where
  calls front id back hcut := by
    rcases cut_of_snoc hcut with ⟨rfl, hx, _⟩ | ⟨rest, _, hrest⟩
    · exact hcalled id hx
    · exact h.calls front id rest hrest
  removals front handle before after back hcut := by
    rcases cut_of_snoc hcut with ⟨rfl, hx, _⟩ | ⟨rest, _, hrest⟩
    · exact hremoved handle before after hx
    · exact h.removals front handle before after rest hrest

/-! ## Ledgers -/

/-- What goes along with a history: the number of the next handle, the wishes that wait to be
carried out, and the handles whose handlers are on the clocks. -/
structure Ledger (history : List (Incident κ)) (next : HandlerId) (waiting : List Wish)
    (on : List ClockHandle) : Prop where
  conduct : Conduct history
  numbers : (granted history).map ClockHandle.handler = List.range next
  order : carried history ++ waiting = wished history
  distinct : (on.map ClockHandle.handler).Nodup
  present : ∀ handle, handle ∈ on ↔ .joined handle ∈ history ∧ ¬ Gone history handle.handler
  known : ∀ id, Gone history id → ∃ handle, .joined handle ∈ history ∧ handle.handler = id

namespace Ledger

variable {next : HandlerId} {waiting : List Wish} {on on' : List ClockHandle}
  {handle other : ClockHandle}

theorem start : Ledger ([] : List (Incident κ)) 0 [] [] where
  conduct := .nil
  numbers := rfl
  order := rfl
  distinct := List.nodup_nil
  present := by simp
  known id hgone := by
    rcases hgone with hleft | ⟨front, _, _, _, _, hcut, _⟩
    · cases hleft
    · simp at hcut

/-- No number is given out twice. -/
theorem nodup_granted (h : Ledger history next waiting on) :
    ((granted history).map ClockHandle.handler).Nodup := by
  rw [h.numbers]
  exact List.nodup_range

/-- The handles that were given out are of those who have joined and those who wait. -/
theorem granted_eq (h : Ledger history next waiting on) :
    (carried history).filterMap Wish.joins? ++ waiting.filterMap Wish.joins? = granted history := by
  rw [← List.filterMap_append, h.order, joins_wished]

/-- The order in which the clocks hold the handlers does not matter. -/
theorem perm (h : Ledger history next waiting on) (hperm : on.Perm on') :
    Ledger history next waiting on' :=
  { h with
    distinct := (hperm.map ClockHandle.handler).nodup_iff.mp h.distinct
    present := fun handle => hperm.mem_iff.symm.trans (h.present handle) }

/-- Those that joined have different numbers. -/
theorem eq_of_joined (h : Ledger history next waiting on) (hhandle : .joined handle ∈ history)
    (hother : .joined other ∈ history) (hid : handle.handler = other.handler) :
    handle = other := by
  have hdistinct := h.nodup_granted
  rw [← h.granted_eq] at hdistinct
  exact List.inj_on_of_nodup_map hdistinct (List.mem_append_left _ (mem_joins_carried hhandle))
    (List.mem_append_left _ (mem_joins_carried hother)) hid

/-- Who waits has a number under which nobody joined yet. -/
theorem ne_of_joined (h : Ledger history next (.join handle :: waiting) on)
    (hother : .joined other ∈ history) : other.handler ≠ handle.handler := by
  have hdistinct := h.nodup_granted
  rw [← h.granted_eq, List.map_append, List.nodup_append] at hdistinct
  exact hdistinct.2.2 _ (List.mem_map_of_mem (mem_joins_carried hother)) _ (List.mem_cons_self ..)

/-! ### One incident -/

theorem stays (h : Ledger history next waiting on) {x : Incident κ} {next' : HandlerId}
    {waiting' : List Wish} (hjoins : ∀ handle, x ≠ .joined handle)
    (hgoes : ∀ id, Gone (history ++ [x]) id ↔ Gone history id)
    (hconduct : Conduct (history ++ [x]))
    (hnumbers : (granted (history ++ [x])).map ClockHandle.handler = List.range next')
    (horder : carried (history ++ [x]) ++ waiting' = wished (history ++ [x])) :
    Ledger (history ++ [x]) next' waiting' on where
  conduct := hconduct
  numbers := hnumbers
  order := horder
  distinct := h.distinct
  present handle := by simp [h.present, hgoes, Ne.symm (hjoins handle)]
  known id hgone := by
    obtain ⟨handle, hjoined, hid⟩ := h.known id ((hgoes id).mp hgone)
    exact ⟨handle, List.mem_append_left _ hjoined, hid⟩

/-- A handle is given out. -/
theorem grants (h : Ledger history next waiting on) (factor : Nat) :
    Ledger (history ++ [.granted ⟨factor, next⟩]) (next + 1) (waiting ++ [.join ⟨factor, next⟩])
      on := by
  refine h.stays nofun (by simp [gone_concat]) (h.conduct.concat nofun nofun) ?_ ?_
  · simp [Incident.granted?, h.numbers, List.range_succ]
  · simp [Incident.wished?, Incident.carried?, ← h.order]

theorem dismisses (h : Ledger history next waiting on) (handle : ClockHandle) :
    Ledger (history ++ [.dismissed handle]) next (waiting ++ [.removal handle]) on := by
  refine h.stays nofun (by simp [gone_concat]) (h.conduct.concat nofun nofun) ?_ ?_
  · simpa [Incident.granted?] using h.numbers
  · simp [Incident.wished?, Incident.carried?, ← h.order]

theorem calls (h : Ledger history next waiting on) (hhandle : handle ∈ on) :
    Ledger (history ++ [.called handle.handler]) next waiting on := by
  refine h.stays nofun (by simp [gone_concat]) (h.conduct.concat (fun id hid => ?_) nofun) ?_ ?_
  · cases hid
    exact ((h.present handle).mp hhandle).2
  · simpa [Incident.granted?] using h.numbers
  · simpa [Incident.wished?, Incident.carried?] using h.order

theorem leaves (h : Ledger history next waiting on) (hperm : on.Perm (handle :: on')) :
    Ledger (history ++ [.left handle.handler]) next waiting on' := by
  have hdistinct := (hperm.map ClockHandle.handler).nodup_iff.mp h.distinct
  obtain ⟨hnot, hrest⟩ := List.nodup_cons.mp hdistinct
  have hjoined := ((h.present handle).mp (hperm.mem_iff.mpr (List.mem_cons_self ..))).1
  exact {
    conduct := h.conduct.concat nofun nofun
    numbers := by simpa [Incident.granted?] using h.numbers
    order := by simpa [Incident.wished?, Incident.carried?] using h.order
    distinct := hrest
    present := fun other => by
      have hmem : other ∈ on' ↔ other ∈ on ∧ handle.handler ≠ other.handler := by
        rw [hperm.mem_iff, List.mem_cons]
        constructor
        · exact fun hother => ⟨Or.inr hother, fun hid => hnot (hid ▸ List.mem_map_of_mem hother)⟩
        · rintro ⟨rfl | hother, hid⟩
          · exact absurd rfl hid
          · exact hother
      simp [hmem, h.present, gone_concat, and_assoc]
    known := fun id hgone => by
      rcases gone_concat.mp hgone with hgone | hid | ⟨_, _, _, hx, _⟩
      · obtain ⟨other, hother, hid⟩ := h.known id hgone
        exact ⟨other, List.mem_append_left _ hother, hid⟩
      · cases hid
        exact ⟨handle, List.mem_append_left _ hjoined, rfl⟩
      · cases hx }

/-- The handler that has waited longest is put on its clock. -/
theorem joins (h : Ledger history next (.join handle :: waiting) on)
    (hperm : on'.Perm (handle :: on)) :
    Ledger (history ++ [.joined handle]) next waiting on' := by
  have hfresh : ¬ Gone history handle.handler := fun hgone => by
    obtain ⟨other, hother, hid⟩ := h.known _ hgone
    exact h.ne_of_joined hother hid
  exact {
    conduct := h.conduct.concat nofun nofun
    numbers := by simpa [Incident.granted?] using h.numbers
    order := by simpa [Incident.wished?, Incident.carried?] using h.order
    distinct := by
      refine (hperm.map ClockHandle.handler).nodup_iff.mpr (List.nodup_cons.mpr ⟨?_, h.distinct⟩)
      intro hmem
      obtain ⟨other, hother, hid⟩ := List.mem_map.mp hmem
      exact h.ne_of_joined ((h.present other).mp hother).1 hid
    present := fun other => by
      rw [hperm.mem_iff, List.mem_cons, h.present]
      simp only [List.mem_append, List.mem_singleton, Incident.joined.injEq, gone_concat,
        reduceCtorEq, false_and, exists_false, or_false]
      constructor
      · rintro (rfl | ⟨hother, hstays⟩)
        · exact ⟨Or.inr rfl, hfresh⟩
        · exact ⟨Or.inl hother, hstays⟩
      · rintro ⟨hother | rfl, hstays⟩
        · exact Or.inr ⟨hother, hstays⟩
        · exact Or.inl rfl
    known := fun id hgone => by
      obtain ⟨other, hother, hid⟩ := h.known id (by simpa [gone_concat] using hgone)
      exact ⟨other, List.mem_append_left _ hother, hid⟩ }

theorem removes {before after : ClockSet κ}
    (h : Ledger history next (.removal handle :: waiting) before.on)
    (hremoves : Removes handle before after) :
    Ledger (history ++ [.removed handle before after]) next waiting after.on where
  conduct := by
    refine h.conduct.concat nofun fun _ _ _ hx => ?_
    cases hx
    exact ⟨h.distinct, hremoves, h.present handle⟩
  numbers := by simpa [Incident.granted?] using h.numbers
  order := by simpa [Incident.wished?, Incident.carried?] using h.order
  distinct := by
    rw [hremoves.on_eq]
    exact h.distinct.sublist (List.filter_sublist.map _)
  present other := by
    rw [hremoves.on_eq, List.mem_filter, h.present]
    simp only [List.mem_append, List.mem_singleton, reduceCtorEq, or_false, gone_concat, false_or,
      Incident.removed.injEq, bne_iff_ne, not_or]
    constructor
    · rintro ⟨⟨hother, hstays⟩, hne⟩
      refine ⟨hother, hstays, ?_⟩
      rintro ⟨_, _, _, ⟨rfl, _, _⟩, hjoined, hid⟩
      exact hne (h.eq_of_joined hother hjoined hid.symm)
    · rintro ⟨hother, hstays, hnot⟩
      refine ⟨⟨hother, hstays⟩, ?_⟩
      rintro rfl
      exact hnot ⟨_, _, _, ⟨rfl, rfl, rfl⟩, hother, rfl⟩
  known id hgone := by
    rcases gone_concat.mp hgone with hgone | hid | ⟨_, _, _, hx, hjoined, hid⟩
    · obtain ⟨other, hother, hid⟩ := h.known id hgone
      exact ⟨other, List.mem_append_left _ hother, hid⟩
    · cases hid
    · cases hx
      exact ⟨handle, List.mem_append_left _ hjoined, hid⟩

end Ledger

def Orderly (history : List (Incident κ)) : Prop :=
  ∃ next waiting on, Ledger history next waiting on

/-! ## Identity -/

structure KeepsIdentity (history : List (Incident κ)) : Prop where
  /-- No two handles that are given out have the same number. -/
  distinct : ((granted history).map ClockHandle.handler).Nodup
  /-- What is asked for is carried out in this order. -/
  order : carried history <+: wished history
  /-- The handler under the handle of a removal is on the clocks if it has joined them and has not
  gone. The removal takes it off, it and nobody else. -/
  removed : ∀ front handle before after back,
    history = front ++ .removed handle before after :: back →
      before.Distinct ∧ Removes handle before after ∧
        (handle ∈ before.on ↔ .joined handle ∈ front ∧ ¬ Gone front handle.handler)
  /-- If it is not there nothing changes, -/
  untouched : ∀ front handle before after back,
    history = front ++ .removed handle before after :: back → handle ∉ before.on → after = before
  /-- and so if there is no such clock. -/
  unknown : ∀ front handle before after back,
    history = front ++ .removed handle before after :: back → before.get? handle.factor = none →
      after = before
  /-- Nobody is called after having left, -/
  left : ∀ front id back, history = front ++ .left id :: back → .called id ∉ back
  /-- nor after having been removed. -/
  dismissed : ∀ front handle before after back,
    history = front ++ .removed handle before after :: back → .joined handle ∈ front →
      .called handle.handler ∉ back

theorem Gone.append {front : List (Incident κ)} {id : HandlerId} (h : Gone front id)
    (back : List (Incident κ)) : Gone (front ++ back) id := by
  rcases h with hleft | ⟨start, handle, before, after, rest, rfl, hjoined, hid⟩
  · exact Or.inl (List.mem_append_left _ hleft)
  · exact Or.inr ⟨start, handle, before, after, rest ++ back, by simp, hjoined, hid⟩

theorem Conduct.not_called (h : Conduct history) {front back : List (Incident κ)} {id : HandlerId}
    (hcut : history = front ++ back) (hgone : Gone front id) : .called id ∉ back := by
  intro hcalled
  obtain ⟨mid, rest, rfl⟩ := List.append_of_mem hcalled
  exact h.calls (front ++ mid) id rest (by simp [hcut]) (hgone.append mid)

theorem Orderly.keepsIdentity (h : Orderly history) : KeepsIdentity history := by
  obtain ⟨next, waiting, on, h⟩ := h
  have huntouched : ∀ front handle before after back,
      history = front ++ .removed handle before after :: back → handle ∉ before.on →
        after = before :=
    fun front handle before after back hcut =>
      (h.conduct.removals front handle before after back hcut).2.1.eq_of_not_mem
  constructor
  case distinct => exact h.nodup_granted
  case order => exact ⟨waiting, h.order⟩
  case removed => exact h.conduct.removals
  case untouched => exact huntouched
  case unknown =>
    exact fun front handle before after back hcut hnone =>
      huntouched front handle before after back hcut (ClockSet.not_mem_on_of_get? _ hnone)
  case left =>
    intro front id back hcut
    rw [List.append_cons] at hcut
    exact h.conduct.not_called hcut (Or.inl (by simp))
  case dismissed =>
    intro front handle before after back hcut hjoined
    rw [List.append_cons] at hcut
    exact h.conduct.not_called hcut (Or.inr ⟨front, handle, before, after, [], rfl, hjoined, rfl⟩)

end Lookahead
