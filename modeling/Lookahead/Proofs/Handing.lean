import Lookahead.Proofs.Batches

/-!
The first half of an exchange: behind the gate `arrive` every thread hands over its outboxes one
after another, and then comes to the gate `exchanged`.
-/

namespace Lookahead

variable {M : Model}

/-- How many of the `n` destinations a thread has turned to. -/
def Thread.handed (n : Nat) : Thread M → Nat
  | .syncing _ _ round =>
    match round.position with
    | .handingOver t => t
    | .entering .exchanged => n
    | .waiting .exchanged _ => n
    | _ => 0
  | _ => 0

inductive Hands (rounds : Nat) : Thread M → Party M → Prop
  | released (q : Party M) (generation : Nat) (h : generation ≠ rounds + 1) :
      Hands rounds
        (.syncing q.work q.partition { kind := q.kind, position := .waiting .arrive generation }) q
  | handing (q : Party M) (t : Nat) :
      Hands rounds (.syncing q.work (q.handing t) ((q.roundAt t).moveTo (.handingOver t))) q
  | entering (q : Party M) :
      Hands rounds (.syncing q.work q.handed (q.roundHanded.moveTo (.entering .exchanged))) q
  | waiting (q : Party M) :
      Hands rounds
        (.syncing q.work q.handed (q.roundHanded.moveTo (.waiting .exchanged rounds))) q

/-- Everyone has come to the round, and the gate `exchanged` is open. -/
structure Handing (machine : Machine M) (parties : List (Party M)) (rounds : Nat) : Prop where
  size : machine.threads.length = parties.length
  slots : machine.shared.minimums.length = parties.length
  placed : Party.Placed parties
  arrive : machine.shared.arrive.Idle parties.length (rounds + 1)
  exchanged : machine.shared.exchanged.Filling parties.length rounds
    (machine.threads.countP (Thread.waitsAt .exchanged))
  published : machine.shared.published.Idle parties.length rounds
  sound : machine.shared.arrive.aborted = false ∧ machine.shared.exchanged.aborted = false ∧
    machine.shared.published.aborted = false
  stands : ∀ (j : Nat) (t : Thread M), machine.threads[j]? = some t →
    ∃ q, parties[j]? = some q ∧ Hands rounds t q
  inboxes : ∀ j, j < parties.length → ∃ batches,
    machine.shared.inboxes[j]? = some (some batches) ∧
    Brought parties
      (fun k => ∃ t, machine.threads[k]? = some t ∧ j < t.handed parties.length) j batches

namespace Handing

variable {machine : Machine M} {parties : List (Party M)} {rounds i : Nat} {t t' : Thread M}
  {q : Party M}

theorem update (h : Handing machine parties rounds) (ht : machine.threads[i]? = some t)
    (hq : parties[i]? = some q) {shared : Shared M.Payload}
    (harrive : shared.arrive = machine.shared.arrive)
    (hexchanged : shared.exchanged.Filling parties.length rounds
      ((machine.threads.set i t').countP (Thread.waitsAt .exchanged)))
    (hsound : shared.exchanged.aborted = false)
    (hpublished : shared.published = machine.shared.published)
    (hminimums : shared.minimums = machine.shared.minimums)
    (hstand : Hands rounds t' q)
    (hinboxes : ∀ j, j < parties.length → ∃ batches,
      shared.inboxes[j]? = some (some batches) ∧
      Brought parties
        (fun k => k = i ∧ j < t'.handed parties.length ∨
          k ≠ i ∧ ∃ t, machine.threads[k]? = some t ∧ j < t.handed parties.length) j batches) :
    Handing (machine.update i shared t') parties rounds := by
  have hnone : t'.result?.isSome = false := by
    cases hstand <;> rfl
  rw [Machine.update_of_going _ _ _ _ hnone]
  constructor
  case size => exact (List.length_set ..).trans h.size
  case slots => exact (congrArg List.length hminimums).trans h.slots
  case placed => exact h.placed
  case arrive =>
    show shared.arrive.Idle _ _
    rw [harrive]
    exact h.arrive
  case exchanged => exact hexchanged
  case published =>
    show shared.published.Idle _ _
    rw [hpublished]
    exact h.published
  case sound =>
    show shared.arrive.aborted = false ∧ _ ∧ shared.published.aborted = false
    rw [harrive, hpublished]
    exact ⟨h.sound.1, hsound, h.sound.2.2⟩
  case stands =>
    refine forall_set ?_ ⟨q, hq, hstand⟩
    intro j x hji hx
    exact h.stands j x hx
  case inboxes =>
    intro j hj
    obtain ⟨batches, hbatches, hbrought⟩ := hinboxes j hj
    refine ⟨batches, hbatches, hbrought.congr ?_⟩
    intro k r hr
    by_cases hki : k = i
    · subst hki
      simp [getElem?_set_of_some ht]
    · simp [hki, List.getElem?_set_ne (Ne.symm hki)]

/-- The inboxes of a thread that turns to no further destination. -/
theorem inboxes_same (h : Handing machine parties rounds) (ht : machine.threads[i]? = some t)
    (hsame : ∀ j, j < parties.length →
      (j < t.handed parties.length ↔ j < t'.handed parties.length)) :
    ∀ j, j < parties.length → ∃ batches,
      machine.shared.inboxes[j]? = some (some batches) ∧
      Brought parties
        (fun k => k = i ∧ j < t'.handed parties.length ∨
          k ≠ i ∧ ∃ t, machine.threads[k]? = some t ∧ j < t.handed parties.length) j batches := by
  intro j hj
  obtain ⟨batches, hbatches, hbrought⟩ := h.inboxes j hj
  refine ⟨batches, hbatches, hbrought.congr ?_⟩
  intro k r hr
  by_cases hki : k = i
  · subst hki
    simp [ht, hsame j hj]
  · simp [hki]

/-- The inboxes when a thread has turned to the destination `d`. -/
theorem inboxes_add (h : Handing machine parties rounds) (ht : machine.threads[i]? = some t)
    (hq : parties[i]? = some q) {d : Nat} (hd : t.handed parties.length = d)
    (hd' : t'.handed parties.length = d + 1) {shared : Shared M.Payload}
    (hother : ∀ j, j ≠ d → shared.inboxes[j]? = machine.shared.inboxes[j]?)
    (hposted : ∀ batches, machine.shared.inboxes[d]? = some (some batches) →
      shared.inboxes[d]? = some (some (batches ++ (q.batch? d).toList))) :
    ∀ j, j < parties.length → ∃ batches,
      shared.inboxes[j]? = some (some batches) ∧
      Brought parties
        (fun k => k = i ∧ j < t'.handed parties.length ∨
          k ≠ i ∧ ∃ t, machine.threads[k]? = some t ∧ j < t.handed parties.length) j batches := by
  intro j hj
  obtain ⟨batches, hbatches, hbrought⟩ := h.inboxes j hj
  by_cases hjd : j = d
  · subst hjd
    refine ⟨_, hposted batches hbatches, (hbrought.add h.placed hq ?_).congr ?_⟩
    · rintro ⟨x, hx, hlt⟩
      rw [ht] at hx
      cases hx
      omega
    · intro k r hr
      by_cases hki : k = i
      · subst hki
        simp [hd']
      · simp [hki]
  · refine ⟨batches, (hother j hjd).trans hbatches, hbrought.congr ?_⟩
    intro k r hr
    by_cases hki : k = i
    · subst hki
      have : j < d ↔ j < d + 1 := by omega
      simp [ht, hd, hd', this]
    · simp [hki]

/-- Behind the gate `arrive` a thread turns to its first outbox. -/
theorem release {generation : Nat} (h : Handing machine parties rounds)
    (ht : machine.threads[i]? = some (.syncing q.work q.partition
      { kind := q.kind, position := .waiting .arrive generation }))
    (hq : parties[i]? = some q) :
    Handing (machine.update i machine.shared
      (.syncing q.work (q.handing 0) ((q.roundAt 0).moveTo (.handingOver 0)))) parties rounds := by
  refine h.update ht hq rfl ?_ h.sound.2.1 rfl rfl (.handing q 0) (h.inboxes_same ht ?_)
  · rw [countP_set_of_some ht rfl]
    exact h.exchanged
  · intro j hj
    exact Iff.rfl

/-- A thread goes on to the next outbox: it had nothing to hand over, or it has posted a batch. -/
theorem turn {d : Nat} (h : Handing machine parties rounds)
    (ht : machine.threads[i]? =
      some (.syncing q.work (q.handing d) ((q.roundAt d).moveTo (.handingOver d))))
    (hq : parties[i]? = some q) {shared : Shared M.Payload}
    (hother : ∀ j, j ≠ d → shared.inboxes[j]? = machine.shared.inboxes[j]?)
    (hposted : ∀ batches, machine.shared.inboxes[d]? = some (some batches) →
      shared.inboxes[d]? = some (some (batches ++ (q.batch? d).toList)))
    (hrest : shared.arrive = machine.shared.arrive ∧
      shared.exchanged = machine.shared.exchanged ∧
      shared.published = machine.shared.published ∧
      shared.minimums = machine.shared.minimums) :
    Handing (machine.update i shared
      (.syncing q.work (q.handing (d + 1)) ((q.roundAt (d + 1)).moveTo (.handingOver (d + 1)))))
      parties rounds := by
  obtain ⟨harrive, hexchanged, hpublished, hminimums⟩ := hrest
  refine h.update ht hq harrive ?_ (hexchanged ▸ h.sound.2.1) hpublished hminimums
    (.handing q (d + 1)) (h.inboxes_add ht hq rfl rfl hother hposted)
  rw [countP_set_of_some ht rfl, hexchanged]
  exact h.exchanged

/-- A thread that has nothing for a destination passes it over. -/
theorem skip {d : Nat} {box : Outbox M.Payload} (h : Handing machine parties rounds)
    (ht : machine.threads[i]? =
      some (.syncing q.work (q.handing d) ((q.roundAt d).moveTo (.handingOver d))))
    (hq : parties[i]? = some q) (hbox : q.partition.member.outbound[d]? = some box)
    (hempty : box.isEmpty = true) :
    Handing (machine.update i machine.shared
      (.syncing q.work (q.handing (d + 1)) ((q.roundAt (d + 1)).moveTo (.handingOver (d + 1)))))
      parties rounds := by
  refine h.turn ht hq (fun _ _ => rfl) ?_ ⟨rfl, rfl, rfl, rfl⟩
  intro batches hbatches
  rw [Party.batch?_of_empty hbox hempty]
  simpa using hbatches

theorem post {d : Nat} {batches : List (Batch M.Payload)} (h : Handing machine parties rounds)
    (ht : machine.threads[i]? =
      some (.syncing q.work (q.handing d) ((q.roundAt d).moveTo (.handingOver d))))
    (hq : parties[i]? = some q) (hbatches : machine.shared.inboxes[d]? = some (some batches)) :
    Handing (machine.update i
      { machine.shared with
        inboxes := machine.shared.inboxes.set d (some (batches ++ (q.batch? d).toList)) }
      (.syncing q.work (q.handing (d + 1)) ((q.roundAt (d + 1)).moveTo (.handingOver (d + 1)))))
      parties rounds := by
  refine h.turn ht hq (fun j hj => List.getElem?_set_ne (Ne.symm hj)) ?_ ⟨rfl, rfl, rfl, rfl⟩
  intro others hothers
  rw [hbatches] at hothers
  cases hothers
  exact getElem?_set_of_some hbatches

/-- Behind its last outbox a thread goes to the next gate. -/
theorem finish {d : Nat} (h : Handing machine parties rounds)
    (ht : machine.threads[i]? =
      some (.syncing q.work (q.handing d) ((q.roundAt d).moveTo (.handingOver d))))
    (hq : parties[i]? = some q) (hend : q.partition.member.outbound[d]? = none) :
    Handing (machine.update i machine.shared
      (.syncing q.work q.handed (q.roundHanded.moveTo (.entering .exchanged)))) parties rounds := by
  refine h.update ht hq rfl ?_ h.sound.2.1 rfl rfl (.entering q) (h.inboxes_same ht ?_)
  · rw [countP_set_of_some ht rfl]
    exact h.exchanged
  · intro j hj
    have hlen := List.getElem?_eq_none_iff.mp hend
    rw [(h.placed i q hq).outboxes] at hlen
    show j < d ↔ j < parties.length
    omega

/-- A thread comes to the gate `exchanged` and waits there. -/
theorem wait (h : Handing machine parties rounds)
    (ht : machine.threads[i]? =
      some (.syncing q.work q.handed (q.roundHanded.moveTo (.entering .exchanged))))
    (hq : parties[i]? = some q) {barrier : Barrier}
    (hfilling : barrier.Filling parties.length rounds
      (machine.threads.countP (Thread.waitsAt .exchanged) + 1))
    (hflag : barrier.aborted = false) :
    Handing (machine.update i (machine.shared.setBarrier .exchanged barrier)
      (.syncing q.work q.handed (q.roundHanded.moveTo (.waiting .exchanged rounds))))
      parties rounds := by
  refine h.update ht hq rfl ?_ hflag rfl rfl (.waiting q) (h.inboxes_same ht ?_)
  · rw [countP_set_of_some ht rfl]
    exact hfilling
  · intro j hj
    exact Iff.rfl

end Handing

/-! ## Everyone has come -/

section

variable {machine : Machine M} {cohort : Cohort M} {rounds i : Nat} {q : Party M}

/-- Where only one thread has yet to come to the gate `arrive`, all others wait there. -/
theorem Gathering.others_wait (h : Gathering machine cohort rounds)
    (ht : machine.threads[i]? = some (.syncing q.work q.partition { kind := q.kind }))
    (hlast : machine.threads.countP (Thread.waitsAt .arrive) + 1 = cohort.length)
    {j : Nat} {t : Thread M} (hij : i ≠ j) (htj : machine.threads[j]? = some t) :
    ∃ r : Party M, cohort[j]? = some (.ready r) ∧
      t = .syncing r.work r.partition { kind := r.kind, position := .waiting .arrive rounds } := by
  have hwaiting := others_of_countP (by rw [h.size]; exact hlast) ht rfl hij htj
  obtain ⟨s, hsj, hgathers⟩ := h.stands j t htj
  cases hgathers with
  | waiting r => exact ⟨r, hsj, rfl⟩
  | _ => cases hwaiting

theorem Gathering.exists_parties (h : Gathering machine cohort rounds)
    (ht : machine.threads[i]? = some (.syncing q.work q.partition { kind := q.kind }))
    (hs : cohort[i]? = some (.ready q))
    (hlast : machine.threads.countP (Thread.waitsAt .arrive) + 1 = cohort.length) :
    ∃ parties : List (Party M), cohort = parties.map Stance.ready := by
  refine Cohort.exists_parties fun s hmem => ?_
  obtain ⟨j, hj⟩ := List.mem_iff_getElem?.mp hmem
  by_cases hij : i = j
  · subst hij
    rw [hs] at hj
    cases hj
    exact ⟨q, rfl⟩
  · have hlt : j < machine.threads.length := by
      rw [h.size]
      exact (List.getElem?_eq_some_iff.mp hj).1
    obtain ⟨r, hr, _⟩ := h.others_wait ht hlast hij (List.getElem?_eq_getElem hlt)
    rw [hr] at hj
    cases hj
    exact ⟨r, rfl⟩

theorem Cohort.party_of_ready {parties : List (Party M)} {j : Nat} {r : Party M}
    (h : (parties.map Stance.ready)[j]? = some (.ready r)) : parties[j]? = some r := by
  rw [List.getElem?_map] at h
  obtain ⟨p, hp, heq⟩ := Option.map_eq_some_iff.mp h
  cases heq
  exact hp

theorem Gathering.sound_of_ready {parties : List (Party M)}
    (h : Gathering machine (parties.map Stance.ready) rounds) :
    machine.shared.exchanged.aborted = false ∧ machine.shared.published.aborted = false := by
  refine ⟨?_, ?_⟩
  all_goals
    rw [← Bool.not_eq_true]
    intro htrue
    exact Cohort.not_broken_ready parties (h.aborted (by simp [htrue]))

/-- With the last arrival everyone is ready, and the exchange begins. -/
theorem Gathering.complete (h : Gathering machine cohort rounds) (hplaced : cohort.Placed)
    (ht : machine.threads[i]? = some (.syncing q.work q.partition { kind := q.kind }))
    (hs : cohort[i]? = some (.ready q))
    (hlast : machine.threads.countP (Thread.waitsAt .arrive) + 1 = cohort.length)
    {barrier : Barrier} (hidle : barrier.Idle cohort.length (rounds + 1))
    (hflag : barrier.aborted = false) :
    ∃ parties, parties ≠ [] ∧ cohort = parties.map Stance.ready ∧
      Handing (machine.update i (machine.shared.setBarrier .arrive barrier)
        (.syncing q.work (q.handing 0) ((q.roundAt 0).moveTo (.handingOver 0))))
        parties rounds := by
  obtain ⟨parties, rfl⟩ := h.exists_parties ht hs hlast
  have hsize := h.size
  rw [List.length_map] at hsize hidle
  have hn : 0 < parties.length := by
    rw [List.length_map] at hlast
    omega
  have hstands : ∀ (j : Nat) (t : Thread M),
      (machine.threads.set i
        (.syncing q.work (q.handing 0) ((q.roundAt 0).moveTo (.handingOver 0))))[j]? = some t →
      t.waitsAt .exchanged = false ∧ t.handed parties.length = 0 ∧
        ∃ r, parties[j]? = some r ∧ Hands rounds t r := by
    refine forall_set ?_ ⟨rfl, rfl, q, Cohort.party_of_ready hs, .handing q 0⟩
    intro j t hji htj
    obtain ⟨r, hr, rfl⟩ := h.others_wait ht hlast (Ne.symm hji) htj
    exact ⟨rfl, rfl, r, Cohort.party_of_ready hr, .released r rounds (by omega)⟩
  refine ⟨parties, by rintro rfl; simp at hn, rfl, ?_⟩
  constructor
  case size => exact (List.length_set ..).trans hsize
  case slots => exact h.slots.trans (List.length_map ..)
  case placed => exact hplaced.parties
  case arrive => exact hidle
  case exchanged =>
    show machine.shared.exchanged.Filling _ _ ((machine.threads.set i _).countP _)
    rw [countP_eq_zero_of_getElem? fun j t hj => (hstands j t hj).1]
    have hfilling := h.exchanged.filling (by rw [List.length_map]; exact hn)
    rwa [List.length_map] at hfilling
  case published =>
    have hpublished := h.published
    rwa [List.length_map] at hpublished
  case sound => exact ⟨hflag, h.sound_of_ready⟩
  case stands =>
    intro j t hj
    exact (hstands j t hj).2.2
  case inboxes =>
    intro j hj
    have hlt : j < machine.threads.length := by omega
    have hinbox := h.inboxes j _ (List.getElem?_eq_getElem hlt)
    have hnone : (machine.threads[j]).result? = none := by
      by_cases hij : i = j
      · subst hij
        rw [List.getElem?_eq_getElem hlt] at ht
        rw [Option.some.inj ht]
        rfl
      · obtain ⟨r, _, hr⟩ := h.others_wait ht hlast hij (List.getElem?_eq_getElem hlt)
        rw [hr]
        rfl
    rw [hnone] at hinbox
    -- Nobody has turned to any destination yet, so nothing has to be in the inboxes.
    refine ⟨[], hinbox, (Brought.none parties j).congr ?_⟩
    intro k r hr
    simp only [false_iff]
    rintro ⟨t, hk, hhanded⟩
    rw [(hstands k t hk).2.1] at hhanded
    omega

end

end Lookahead
