import Lookahead.Proofs.Gathering
import Lookahead.Proofs.Order
import Lookahead.Proofs.Work

/-!
Batches, and parties that have handed over some of their outboxes.

The batches that an inbox holds come in any order, but it is known which: one from every party that
has already turned to this destination and had anything for it. Sorted by their senders they are
what the parties hand over in the order of the parties (`Brought.inSenderOrder`).
-/

namespace Lookahead

variable {M : Model}

/-! ## Batches -/

namespace Party

def batch? (q : Party M) (j : PartitionId) : Option (Batch M.Payload) :=
  if (q.outbox j).isEmpty then none else some ⟨q.partition.member.id, q.outgoing j⟩

theorem batch?_eq_some_iff {q : Party M} {j : PartitionId} {b : Batch M.Payload} :
    q.batch? j = some b ↔
      (q.outbox j).isEmpty = false ∧ b = ⟨q.partition.member.id, q.outgoing j⟩ := by
  unfold batch?
  cases (q.outbox j).isEmpty <;> simp [eq_comm]

/-- Empty outboxes hand nothing over. -/
theorem incoming_eq_flatMap_batch? (parties : List (Party M)) (j : PartitionId) :
    incoming parties j =
      (parties.filterMap fun q => q.batch? j).flatMap fun b => b.activities := by
  induction parties with
  | nil => rfl
  | cons q rest ih =>
    have hcons : incoming (q :: rest) j = q.outgoing j ++ incoming rest j := rfl
    rw [hcons, ih]
    cases hbatch : q.batch? j with
    | none =>
      have : q.outgoing j = [] := by
        unfold batch? at hbatch
        split at hbatch
        · rename_i hempty
          simpa [outgoing] using hempty
        · cases hbatch
      rw [List.filterMap_cons_none (f := fun q : Party M => q.batch? j) hbatch, this,
        List.nil_append]
    | some b =>
      obtain ⟨_, rfl⟩ := batch?_eq_some_iff.mp hbatch
      rw [List.filterMap_cons_some (f := fun q : Party M => q.batch? j) hbatch,
        List.flatMap_cons]

end Party

/-- These are the batches for `j` of the parties that are done with it. -/
structure Brought (parties : List (Party M)) (done : Nat → Prop) (j : PartitionId)
    (batches : List (Batch M.Payload)) : Prop where
  senders : (batches.map Batch.sender).Nodup
  mem : ∀ b, b ∈ batches ↔ ∃ (i : Nat) (q : Party M),
    parties[i]? = some q ∧ done i ∧ q.batch? j = some b

namespace Brought

variable {parties : List (Party M)} {done done' : Nat → Prop} {j : PartitionId}
  {batches : List (Batch M.Payload)}

theorem none (parties : List (Party M)) (j : PartitionId) :
    Brought parties (fun _ => False) j [] :=
  ⟨List.nodup_nil, fun b => by simp⟩

theorem congr (h : Brought parties done j batches)
    (hiff : ∀ (i : Nat) (q : Party M), parties[i]? = some q → (done i ↔ done' i)) :
    Brought parties done' j batches := by
  refine ⟨h.senders, fun b => ?_⟩
  rw [h.mem b]
  constructor
  · rintro ⟨i, q, hq, hdone, hb⟩
    exact ⟨i, q, hq, (hiff i q hq).mp hdone, hb⟩
  · rintro ⟨i, q, hq, hdone, hb⟩
    exact ⟨i, q, hq, (hiff i q hq).mpr hdone, hb⟩

/-- One more party turns to `j`. -/
theorem add (h : Brought parties done j batches) (hplaced : Party.Placed parties) {i : Nat}
    {q : Party M} (hq : parties[i]? = some q) (hnot : ¬ done i) :
    Brought parties (fun k => k = i ∨ done k) j (batches ++ (q.batch? j).toList) := by
  have hmem : ∀ b, b ∈ (q.batch? j).toList ↔ q.batch? j = some b := by
    intro b
    exact Option.mem_toList
  constructor
  case senders =>
    cases hb : q.batch? j with
    | none => simpa using h.senders
    | some b =>
      rw [Option.toList_some, List.map_append, List.nodup_append]
      refine ⟨h.senders, by simp, ?_⟩
      intro a ha c hc hac
      obtain ⟨other, hother, rfl⟩ := List.mem_map.mp ha
      obtain ⟨k, r, hr, hdone, hbatch⟩ := (h.mem other).mp hother
      obtain ⟨_, rfl⟩ := Party.batch?_eq_some_iff.mp hbatch
      obtain ⟨_, rfl⟩ := Party.batch?_eq_some_iff.mp hb
      simp only [List.map_cons, List.map_nil, List.mem_singleton] at hc
      subst hc
      rw [(hplaced k r hr).member, (hplaced i q hq).member] at hac
      exact hnot (hac ▸ hdone)
  case mem =>
    intro b
    rw [List.mem_append, h.mem b, hmem]
    constructor
    · rintro (⟨k, r, hr, hdone, hb⟩ | hb)
      · exact ⟨k, r, hr, Or.inr hdone, hb⟩
      · exact ⟨i, q, hq, Or.inl rfl, hb⟩
    · rintro ⟨k, r, hr, rfl | hdone, hb⟩
      · rw [hq] at hr
        cases hr
        exact Or.inr hb
      · exact Or.inl ⟨k, r, hr, hdone, hb⟩

theorem pairwise_senders (hplaced : Party.Placed parties) :
    (parties.filterMap fun q => q.batch? j).Pairwise
      fun a b => decide (a.sender < b.sender) = true := by
  rw [List.pairwise_filterMap, List.pairwise_iff_getElem]
  intro k l hk hl hkl b hb c hc
  obtain ⟨_, rfl⟩ := Party.batch?_eq_some_iff.mp hb
  obtain ⟨_, rfl⟩ := Party.batch?_eq_some_iff.mp hc
  rw [(hplaced k _ (List.getElem?_eq_getElem hk)).member,
    (hplaced l _ (List.getElem?_eq_getElem hl)).member]
  exact decide_eq_true hkl

/-- Once everyone is done, the batches are those of all parties. -/
theorem perm (h : Brought parties (fun _ => True) j batches) (hplaced : Party.Placed parties) :
    batches.Perm (parties.filterMap fun q => q.batch? j) := by
  have hnodup : batches.Nodup :=
    List.Pairwise.of_map Batch.sender (fun a b hne hab => hne (congrArg _ hab)) h.senders
  have hnodup' : (parties.filterMap fun q => q.batch? j).Nodup := by
    refine (pairwise_senders hplaced).imp ?_
    rintro a _ hlt rfl
    exact Nat.lt_irrefl _ (of_decide_eq_true hlt)
  rw [List.perm_ext_iff_of_nodup hnodup hnodup']
  intro b
  rw [h.mem b, List.mem_filterMap]
  constructor
  · rintro ⟨i, q, hq, _, hb⟩
    exact ⟨q, List.mem_of_getElem? hq, hb⟩
  · rintro ⟨q, hq, hb⟩
    obtain ⟨i, hi⟩ := List.mem_iff_getElem?.mp hq
    exact ⟨i, q, hi, trivial, hb⟩

theorem inSenderOrder (h : Brought parties (fun _ => True) j batches)
    (hplaced : Party.Placed parties) :
    Round.inSenderOrder batches = Party.incoming parties j := by
  have key : Ordered.ByKey fun a b : Batch M.Payload => decide (a.sender < b.sender) := by
    refine ⟨fun a b hab => ?_, fun a b c hba hcb => ?_⟩
    · exact decide_eq_false (Nat.lt_asymm (of_decide_eq_true hab))
    · have hab := Nat.not_lt.mp (of_decide_eq_false hba)
      have hbc := Nat.not_lt.mp (of_decide_eq_false hcb)
      exact decide_eq_false (Nat.not_lt.mpr (Nat.le_trans hab hbc))
  unfold Round.inSenderOrder
  rw [Ordered.sort_eq_of_perm key (pairwise_senders hplaced) (h.perm hplaced),
    Party.incoming_eq_flatMap_batch?]

end Brought

/-! ## Half handed over -/

namespace Party

variable {q : Party M} {t : Nat} {box : Outbox M.Payload}

theorem handing_zero (q : Party M) : q.handing 0 = q.partition := by
  have hid : q.partition.member.outbound.mapIdx
      (fun j box => if j < 0 then ({} : Outbox M.Payload) else box) =
        q.partition.member.outbound := by
    apply List.ext_getElem?
    intro j
    rw [List.getElem?_mapIdx]
    cases q.partition.member.outbound[j]? <;> rfl
  simp only [handing, hid]

theorem roundAt_zero (q : Party M) : q.roundAt 0 = { kind := q.kind } := by
  simp [roundAt]

theorem outbound_handing (h : q.partition.member.outbound[t]? = some box) :
    (q.handing t).member.outbound[t]? = some box := by
  simp [handing, List.getElem?_mapIdx, h]

theorem emptyOutbox_handing (q : Party M) (t : Nat) :
    { q.handing t with member := (q.handing t).member.emptyOutbox t } = q.handing (t + 1) := by
  have hset : ((q.handing t).member.outbound.set t {}) = (q.handing (t + 1)).member.outbound := by
    apply List.ext_getElem?
    intro j
    rw [List.getElem?_set]
    simp only [handing, List.getElem?_mapIdx, List.length_mapIdx]
    by_cases hjt : t = j
    · subst hjt
      by_cases hlt : t < q.partition.member.outbound.length
      · simp [hlt]
      · simp [hlt]
    · have : j < t + 1 ↔ j < t := by omega
      simp [hjt, this]
  simp only [Member.emptyOutbox, hset]
  rfl

theorem handing_of_empty (h : q.partition.member.outbound[t]? = some box)
    (hbox : box.isEmpty = true) : q.handing (t + 1) = q.handing t := by
  have hbox' : box = {} := by
    cases box
    simpa [Outbox.isEmpty] using hbox
  rw [← emptyOutbox_handing, Member.emptyOutbox, ← hbox',
    set_self_of_some (outbound_handing h)]

theorem roundAt_succ (h : q.partition.member.outbound[t]? = some box) :
    q.roundAt (t + 1) = { q.roundAt t with
      sent := (q.roundAt t).sent + box.size
      sentBytes := (q.roundAt t).sentBytes + box.dataSize } := by
  simp [roundAt, List.take_add_one, h]

theorem roundAt_of_empty (h : q.partition.member.outbound[t]? = some box)
    (hbox : box.isEmpty = true) : q.roundAt (t + 1) = q.roundAt t := by
  have hnil : box.activities = [] := by simpa [Outbox.isEmpty] using hbox
  rw [roundAt_succ h]
  simp [Outbox.size, Outbox.dataSize, hnil]

theorem roundAt_end (h : q.partition.member.outbound[t]? = none) :
    q.roundAt t = q.roundHanded := by
  have hlen := List.getElem?_eq_none_iff.mp h
  simp [roundAt, roundHanded, List.take_of_length_le hlen]

theorem handing_end (h : q.partition.member.outbound[t]? = none) :
    { q.handing t with
      member :=
        match (q.roundAt t).kind with
        | .epoch => (q.handing t).member.addExchanged (q.roundAt t).sent (q.roundAt t).sentBytes
        | .untimed _ => (q.handing t).member } = q.handed := by
  have hlen := List.getElem?_eq_none_iff.mp h
  have hall : q.partition.member.outbound.mapIdx
      (fun j box => if j < t then ({} : Outbox M.Payload) else box) =
        q.partition.member.outbound.map fun _ => {} := by
    apply List.ext_getElem?
    intro j
    rw [List.getElem?_mapIdx, List.getElem?_map]
    cases hbox : q.partition.member.outbound[j]? with
    | none => rfl
    | some box =>
      have : j < t := by
        have := (List.getElem?_eq_some_iff.mp hbox).1
        omega
      simp [this]
  rw [roundAt_end h]
  simp only [handing, handed, hall]
  rfl

theorem outbound_handing_none (h : q.partition.member.outbound[t]? = none) :
    (q.handing t).member.outbound[t]? = none := by
  simp [handing, List.getElem?_mapIdx, h]

theorem horizon_eq (q : Party M) (t : Nat) :
    (q.roundAt t).horizon (q.handing t).timeline = q.horizon := rfl

theorem batch?_of_box (h : q.partition.member.outbound[t]? = some box)
    (hbox : box.isEmpty = false) :
    q.batch? t = some ⟨(q.handing t).member.id, box.activities.map fun a =>
      a.notBefore ((q.roundAt t).horizon (q.handing t).timeline)⟩ := by
  have houtbox : q.outbox t = box.activities := by simp [outbox, h]
  rw [batch?_eq_some_iff]
  refine ⟨by rw [houtbox]; exact hbox, ?_⟩
  rw [horizon_eq, outgoing, houtbox]
  rfl

theorem batch?_of_empty (h : q.partition.member.outbound[t]? = some box)
    (hbox : box.isEmpty = true) : q.batch? t = none := by
  have houtbox : q.outbox t = box.activities := by simp [outbox, h]
  simp only [batch?, houtbox]
  exact if_pos hbox

end Party

end Lookahead
