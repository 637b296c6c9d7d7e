import Lookahead.Proofs.Handing

/-!
The second half of an exchange: behind the gate `exchanged` every thread takes in what was handed to
it and publishes its minimum.

Once the last minimum is there, everyone will conclude with the same least of them.
-/

namespace Lookahead

variable {M : Model}

/-- The thread at `j` takes in what its party gets, with these batches in its inbox and this time in
its slot. -/
inductive Takes (rounds : Nat) (parties : List (Party M)) (j : PartitionId) :
    List (Batch M.Payload) → Time → Thread M → Party M → Prop
  | released (q : Party M) (batches : List (Batch M.Payload)) (slot : Time) (generation : Nat)
      (h : generation ≠ rounds + 1) (hbrought : Brought parties (fun _ => True) j batches) :
      Takes rounds parties j batches slot
        (.syncing q.work q.handed (q.roundHanded.moveTo (.waiting .exchanged generation))) q
  | collecting (q : Party M) (batches : List (Batch M.Payload)) (slot : Time)
      (got : List (Batch M.Payload))
      (hbrought : Brought parties (fun _ => True) j (got ++ batches)) :
      Takes rounds parties j batches slot
        (.syncing q.work q.handed (q.roundHanded.moveTo (.collecting got))) q
  | publishing (q : Party M) (slot : Time) :
      Takes rounds parties j [] slot
        (.syncing q.work (q.taken (Party.incoming parties j))
          ((q.roundTaken (Party.incoming parties j)).moveTo .publishing)) q
  | entering (q : Party M) :
      Takes rounds parties j [] (q.minimum (Party.incoming parties j))
        (.syncing q.work (q.taken (Party.incoming parties j))
          ((q.roundTaken (Party.incoming parties j)).moveTo (.entering .published))) q
  | waiting (q : Party M) :
      Takes rounds parties j [] (q.minimum (Party.incoming parties j))
        (.syncing q.work (q.taken (Party.incoming parties j))
          ((q.roundTaken (Party.incoming parties j)).moveTo (.waiting .published rounds))) q

/-- What becomes of a thread that finds its inbox empty. -/
theorem Party.collected_eq (q : Party M) (incoming : List (Scheduled M.Payload)) :
    (match q.roundHanded.kind with
      | .epoch =>
        Thread.syncing q.work { q.handed with timeline := q.handed.timeline.addAll incoming }
          (q.roundHanded.moveTo .publishing)
      | .untimed _ =>
        Thread.syncing q.work q.handed
          { q.roundHanded with
            received := incoming.filterMap fun activity => activity.payload.event?
            position := .publishing }) =
      Thread.syncing q.work (q.taken incoming)
        ((q.roundTaken incoming).moveTo .publishing) := by
  obtain ⟨work, p, kind⟩ := q
  cases kind <;> rfl

/-- Everything has been handed over, and the gate `published` is open. -/
structure Taking (machine : Machine M) (parties : List (Party M)) (rounds : Nat) : Prop where
  size : machine.threads.length = parties.length
  slots : machine.shared.minimums.length = parties.length
  placed : Party.Placed parties
  arrive : machine.shared.arrive.Idle parties.length (rounds + 1)
  exchanged : machine.shared.exchanged.Idle parties.length (rounds + 1)
  published : machine.shared.published.Filling parties.length rounds
    (machine.threads.countP (Thread.waitsAt .published))
  sound : machine.shared.arrive.aborted = false ∧ machine.shared.exchanged.aborted = false ∧
    machine.shared.published.aborted = false
  stands : ∀ (j : Nat) (t : Thread M), machine.threads[j]? = some t →
    ∃ q batches slot, parties[j]? = some q ∧
      machine.shared.inboxes[j]? = some (some batches) ∧
      machine.shared.minimums[j]? = some slot ∧ Takes rounds parties j batches slot t q

namespace Taking

variable {machine : Machine M} {parties : List (Party M)} {rounds i : Nat} {t t' : Thread M}
  {q : Party M}

theorem update (h : Taking machine parties rounds) (hq : parties[i]? = some q)
    {shared : Shared M.Payload} {batches : List (Batch M.Payload)} {slot : Time}
    (harrive : shared.arrive = machine.shared.arrive)
    (hexchanged : shared.exchanged = machine.shared.exchanged)
    (hpublished : shared.published.Filling parties.length rounds
      ((machine.threads.set i t').countP (Thread.waitsAt .published)))
    (hsound : shared.published.aborted = false)
    (hinboxes : ∀ j, j ≠ i → shared.inboxes[j]? = machine.shared.inboxes[j]?)
    (hminimums : ∀ j, j ≠ i → shared.minimums[j]? = machine.shared.minimums[j]?)
    (hslots : shared.minimums.length = machine.shared.minimums.length)
    (hinbox : shared.inboxes[i]? = some (some batches))
    (hslot : shared.minimums[i]? = some slot)
    (hstand : Takes rounds parties i batches slot t' q) :
    Taking (machine.update i shared t') parties rounds := by
  have hnone : t'.result?.isSome = false := by
    cases hstand <;> rfl
  rw [Machine.update_of_going _ _ _ _ hnone]
  constructor
  case size => exact (List.length_set ..).trans h.size
  case slots => exact hslots.trans h.slots
  case placed => exact h.placed
  case arrive =>
    show shared.arrive.Idle _ _
    rw [harrive]
    exact h.arrive
  case exchanged =>
    show shared.exchanged.Idle _ _
    rw [hexchanged]
    exact h.exchanged
  case published => exact hpublished
  case sound =>
    show shared.arrive.aborted = false ∧ shared.exchanged.aborted = false ∧ _
    rw [harrive, hexchanged]
    exact ⟨h.sound.1, h.sound.2.1, hsound⟩
  case stands =>
    refine forall_set ?_ ⟨q, batches, slot, hq, hinbox, hslot, hstand⟩
    intro j x hji hx
    obtain ⟨r, others, time, hr, hothers, htime, htakes⟩ := h.stands j x hx
    exact ⟨r, others, time, hr, (hinboxes j hji).trans hothers, (hminimums j hji).trans htime,
      htakes⟩

theorem alone (h : Taking machine parties rounds) (ht : machine.threads[i]? = some t)
    (hq : parties[i]? = some q) {batches : List (Batch M.Payload)} {slot : Time}
    (hinbox : machine.shared.inboxes[i]? = some (some batches))
    (hslot : machine.shared.minimums[i]? = some slot)
    (hwaits : t.waitsAt .published = false) (hwaits' : t'.waitsAt .published = false)
    (hstand : Takes rounds parties i batches slot t' q) :
    Taking (machine.update i machine.shared t') parties rounds := by
  refine h.update hq rfl rfl ?_ h.sound.2.2 (fun _ _ => rfl) (fun _ _ => rfl) rfl hinbox hslot
    hstand
  rw [countP_set_of_some ht hwaits, hwaits']
  exact h.published

/-- A thread takes the first batch out of its inbox. -/
theorem collect (h : Taking machine parties rounds) {got rest : List (Batch M.Payload)}
    {batch : Batch M.Payload} {slot : Time}
    (ht : machine.threads[i]? =
      some (.syncing q.work q.handed (q.roundHanded.moveTo (.collecting got))))
    (hq : parties[i]? = some q)
    (hinbox : machine.shared.inboxes[i]? = some (some (batch :: rest)))
    (hslot : machine.shared.minimums[i]? = some slot)
    (hbrought : Brought parties (fun _ => True) i (got ++ batch :: rest)) :
    Taking (machine.update i
      { machine.shared with inboxes := machine.shared.inboxes.set i (some rest) }
      (.syncing q.work q.handed (q.roundHanded.moveTo (.collecting (got ++ [batch])))))
      parties rounds := by
  refine h.update hq rfl rfl ?_ h.sound.2.2 ?_ (fun _ _ => rfl) rfl
    (getElem?_set_of_some hinbox) hslot (.collecting q rest slot (got ++ [batch]) ?_)
  · rw [countP_set_of_some ht rfl]
    exact h.published
  · intro j hji
    exact List.getElem?_set_ne (Ne.symm hji)
  · simpa using hbrought

theorem publish (h : Taking machine parties rounds)
    (ht : machine.threads[i]? = some (.syncing q.work (q.taken (Party.incoming parties i))
      ((q.roundTaken (Party.incoming parties i)).moveTo .publishing)))
    (hq : parties[i]? = some q) {slot : Time}
    (hinbox : machine.shared.inboxes[i]? = some (some []))
    (hslot : machine.shared.minimums[i]? = some slot) :
    Taking (machine.update i
      (machine.shared.publish i (q.minimum (Party.incoming parties i)))
      (.syncing q.work (q.taken (Party.incoming parties i))
        ((q.roundTaken (Party.incoming parties i)).moveTo (.entering .published))))
      parties rounds := by
  refine h.update hq rfl rfl ?_ h.sound.2.2 (fun _ _ => rfl) ?_ (List.length_set ..) hinbox
    (getElem?_set_of_some hslot) (.entering q)
  · rw [countP_set_of_some ht rfl]
    exact h.published
  · intro j hji
    exact List.getElem?_set_ne (Ne.symm hji)

/-- A thread comes to the gate `published` and waits there. -/
theorem wait (h : Taking machine parties rounds)
    (ht : machine.threads[i]? = some (.syncing q.work (q.taken (Party.incoming parties i))
      ((q.roundTaken (Party.incoming parties i)).moveTo (.entering .published))))
    (hq : parties[i]? = some q)
    (hinbox : machine.shared.inboxes[i]? = some (some []))
    (hslot : machine.shared.minimums[i]? = some (q.minimum (Party.incoming parties i)))
    {barrier : Barrier}
    (hfilling : barrier.Filling parties.length rounds
      (machine.threads.countP (Thread.waitsAt .published) + 1))
    (hflag : barrier.aborted = false) :
    Taking (machine.update i (machine.shared.setBarrier .published barrier)
      (.syncing q.work (q.taken (Party.incoming parties i))
        ((q.roundTaken (Party.incoming parties i)).moveTo (.waiting .published rounds))))
      parties rounds := by
  refine h.update hq rfl rfl ?_ hflag (fun _ _ => rfl) (fun _ _ => rfl) rfl hinbox hslot
    (.waiting q)
  rw [countP_set_of_some ht rfl]
  exact hfilling

end Taking

/-! ## Everything has been handed over -/

section

variable {machine : Machine M} {parties : List (Party M)} {rounds i : Nat} {q : Party M}

/-- Where only one thread has yet to come to the gate `exchanged`, all others wait there. -/
theorem Handing.others_wait (h : Handing machine parties rounds)
    (ht : machine.threads[i]? =
      some (.syncing q.work q.handed (q.roundHanded.moveTo (.entering .exchanged))))
    (hlast : machine.threads.countP (Thread.waitsAt .exchanged) + 1 = parties.length)
    {j : Nat} {t : Thread M} (hij : i ≠ j) (htj : machine.threads[j]? = some t) :
    ∃ r, parties[j]? = some r ∧
      t = .syncing r.work r.handed (r.roundHanded.moveTo (.waiting .exchanged rounds)) := by
  have hwaiting := others_of_countP (by rw [h.size]; exact hlast) ht rfl hij htj
  obtain ⟨r, hr, hhands⟩ := h.stands j t htj
  cases hhands with
  | waiting r => exact ⟨r, hr, rfl⟩
  | _ => cases hwaiting

theorem Handing.brought (h : Handing machine parties rounds)
    (ht : machine.threads[i]? =
      some (.syncing q.work q.handed (q.roundHanded.moveTo (.entering .exchanged))))
    (hlast : machine.threads.countP (Thread.waitsAt .exchanged) + 1 = parties.length)
    {j : Nat} (hj : j < parties.length) :
    ∃ batches, machine.shared.inboxes[j]? = some (some batches) ∧
      Brought parties (fun _ => True) j batches := by
  obtain ⟨batches, hbatches, hbrought⟩ := h.inboxes j hj
  refine ⟨batches, hbatches, hbrought.congr ?_⟩
  intro k r hr
  simp only [iff_true]
  by_cases hik : i = k
  · subst hik
    exact ⟨_, ht, hj⟩
  · have hlt : k < machine.threads.length := by
      rw [h.size]
      exact (List.getElem?_eq_some_iff.mp hr).1
    obtain ⟨r', _, hr'⟩ := h.others_wait ht hlast hik (List.getElem?_eq_getElem hlt)
    refine ⟨_, List.getElem?_eq_getElem hlt, ?_⟩
    rw [hr']
    exact hj

/-- With the last arrival at `exchanged` everyone begins to take in what was handed over. -/
theorem Handing.complete (h : Handing machine parties rounds)
    (ht : machine.threads[i]? =
      some (.syncing q.work q.handed (q.roundHanded.moveTo (.entering .exchanged))))
    (hq : parties[i]? = some q)
    (hlast : machine.threads.countP (Thread.waitsAt .exchanged) + 1 = parties.length)
    {barrier : Barrier} (hidle : barrier.Idle parties.length (rounds + 1))
    (hflag : barrier.aborted = false) :
    Taking (machine.update i (machine.shared.setBarrier .exchanged barrier)
      (.syncing q.work q.handed (q.roundHanded.moveTo (.collecting [])))) parties rounds := by
  have hslot : ∀ j, j < parties.length → ∃ slot, machine.shared.minimums[j]? = some slot := by
    intro j hj
    rw [← h.slots] at hj
    exact ⟨_, List.getElem?_eq_getElem hj⟩
  have hstands : ∀ (j : Nat) (t : Thread M),
      (machine.threads.set i
        (.syncing q.work q.handed (q.roundHanded.moveTo (.collecting []))))[j]? = some t →
      t.waitsAt .published = false ∧
        ∃ r batches slot, parties[j]? = some r ∧
          machine.shared.inboxes[j]? = some (some batches) ∧
          machine.shared.minimums[j]? = some slot ∧ Takes rounds parties j batches slot t r := by
    refine forall_set ?_ ?_
    · intro j t hji htj
      obtain ⟨r, hr, rfl⟩ := h.others_wait ht hlast (Ne.symm hji) htj
      have hj := (List.getElem?_eq_some_iff.mp hr).1
      obtain ⟨batches, hbatches, hb⟩ := h.brought ht hlast hj
      obtain ⟨slot, hs⟩ := hslot j hj
      exact ⟨rfl, r, batches, slot, hr, hbatches, hs,
        .released r batches slot rounds (by omega) hb⟩
    · have hi := (List.getElem?_eq_some_iff.mp hq).1
      obtain ⟨batches, hbatches, hb⟩ := h.brought ht hlast hi
      obtain ⟨slot, hs⟩ := hslot i hi
      exact ⟨rfl, q, batches, slot, hq, hbatches, hs, .collecting q batches slot [] hb⟩
  constructor
  case size => exact (List.length_set ..).trans h.size
  case slots => exact h.slots
  case placed => exact h.placed
  case arrive => exact h.arrive
  case exchanged => exact hidle
  case published =>
    show machine.shared.published.Filling _ _ ((machine.threads.set i _).countP _)
    rw [countP_eq_zero_of_getElem? fun j t hj => (hstands j t hj).1]
    exact h.published.filling (by omega)
  case sound => exact ⟨h.sound.1, hflag, h.sound.2.2⟩
  case stands =>
    intro j t hj
    exact (hstands j t hj).2

end

/-! ## Everything has been published -/

section

variable {machine : Machine M} {parties : List (Party M)} {rounds i : Nat} {q : Party M}

/-- Where only one thread has yet to come to the gate `published`, all others wait there. -/
theorem Taking.others_wait (h : Taking machine parties rounds)
    (ht : machine.threads[i]? = some (.syncing q.work (q.taken (Party.incoming parties i))
      ((q.roundTaken (Party.incoming parties i)).moveTo (.entering .published))))
    (hlast : machine.threads.countP (Thread.waitsAt .published) + 1 = parties.length)
    {j : Nat} {t : Thread M} (hij : i ≠ j) (htj : machine.threads[j]? = some t) :
    ∃ r, parties[j]? = some r ∧ machine.shared.inboxes[j]? = some (some []) ∧
      machine.shared.minimums[j]? = some (r.minimum (Party.incoming parties j)) ∧
      t = .syncing r.work (r.taken (Party.incoming parties j))
        ((r.roundTaken (Party.incoming parties j)).moveTo (.waiting .published rounds)) := by
  have hwaiting := others_of_countP (by rw [h.size]; exact hlast) ht rfl hij htj
  obtain ⟨r, batches, slot, hr, hbatches, hs, htakes⟩ := h.stands j t htj
  cases htakes with
  | waiting r => exact ⟨r, hr, hbatches, hs, rfl⟩
  | _ => cases hwaiting

theorem Taking.foldl_minimums (h : Taking machine parties rounds)
    (ht : machine.threads[i]? = some (.syncing q.work (q.taken (Party.incoming parties i))
      ((q.roundTaken (Party.incoming parties i)).moveTo (.entering .published))))
    (hq : parties[i]? = some q)
    (hlast : machine.threads.countP (Thread.waitsAt .published) + 1 = parties.length)
    (hslot : machine.shared.minimums[i]? = some (q.minimum (Party.incoming parties i))) :
    machine.shared.minimums.foldl min Time.never = Party.least parties := by
  have hminimums : machine.shared.minimums =
      parties.mapIdx fun j r => r.minimum (Party.incoming parties j) := by
    apply List.ext_getElem?
    intro j
    rw [List.getElem?_mapIdx]
    by_cases hij : i = j
    · subst hij
      rw [hslot, hq]
      rfl
    · cases hr : parties[j]? with
      | none =>
        have hlen := List.getElem?_eq_none_iff.mp hr
        rw [← h.slots] at hlen
        rw [List.getElem?_eq_none_iff.mpr hlen]
        rfl
      | some r =>
        have hlt : j < machine.threads.length := by
          rw [h.size]
          exact (List.getElem?_eq_some_iff.mp hr).1
        obtain ⟨r', hr', _, hs, _⟩ := h.others_wait ht hlast hij (List.getElem?_eq_getElem hlt)
        rw [hr] at hr'
        cases hr'
        exact hs
  rw [hminimums]
  rfl

/-- With the last arrival at `published` the exchange is over: everyone will read the same minimums
and conclude with the least of them. -/
theorem Taking.complete (h : Taking machine parties rounds)
    (ht : machine.threads[i]? = some (.syncing q.work (q.taken (Party.incoming parties i))
      ((q.roundTaken (Party.incoming parties i)).moveTo (.entering .published))))
    (hq : parties[i]? = some q)
    (hlast : machine.threads.countP (Thread.waitsAt .published) + 1 = parties.length)
    (hinbox : machine.shared.inboxes[i]? = some (some []))
    (hslot : machine.shared.minimums[i]? = some (q.minimum (Party.incoming parties i)))
    {barrier : Barrier} (hidle : barrier.Idle parties.length (rounds + 1))
    (hflag : barrier.aborted = false) :
    Gathering (machine.update i (machine.shared.setBarrier .published barrier)
      (.syncing q.work (q.taken (Party.incoming parties i))
        ((q.roundTaken (Party.incoming parties i)).moveTo (.reading 0 Time.never))))
      (Cohort.exchanged parties) (rounds + 1) := by
  have hexchanged : ∀ {j : Nat} {r : Party M}, parties[j]? = some r →
      (Cohort.exchanged parties)[j]? = some
        (r.conclude (Party.incoming parties j)
          (machine.shared.minimums.foldl min Time.never)).stance := by
    intro j r hr
    rw [h.foldl_minimums ht hq hlast hslot]
    simp [Cohort.exchanged, List.getElem?_mapIdx, hr]
  have hstands : ∀ (j : Nat) (t : Thread M),
      (machine.threads.set i (.syncing q.work (q.taken (Party.incoming parties i))
        ((q.roundTaken (Party.incoming parties i)).moveTo (.reading 0 Time.never))))[j]? =
          some t →
      t.waitsAt .arrive = false ∧ machine.shared.inboxes[j]? = some (some []) ∧
        t.result? = none ∧
        ∃ s, (Cohort.exchanged parties)[j]? = some s ∧
          Gathers (rounds + 1) machine.shared.minimums (Cohort.exchanged parties).Broken t s := by
    refine forall_set ?_ ?_
    · intro j t hji htj
      obtain ⟨r, hr, hbatches, _, rfl⟩ := h.others_wait ht hlast (Ne.symm hji) htj
      exact ⟨rfl, hbatches, rfl, _, hexchanged hr, .released r _ rounds (by omega)⟩
    · exact ⟨rfl, hinbox, rfl, _, hexchanged hq, .reading q _ 0 Time.never⟩
  have hlen : (Cohort.exchanged parties).length = parties.length := List.length_mapIdx
  constructor
  case size => exact ((List.length_set ..).trans h.size).trans hlen.symm
  case slots => exact h.slots.trans hlen.symm
  case arrive =>
    show machine.shared.arrive.Filling _ _ ((machine.threads.set i _).countP _)
    rw [countP_eq_zero_of_getElem? fun j t hj => (hstands j t hj).1, hlen]
    exact h.arrive.filling (by omega)
  case exchanged =>
    rw [hlen]
    exact h.exchanged
  case published =>
    rw [hlen]
    exact hidle
  case aborted =>
    intro haborted
    have hsound : ¬ (machine.shared.arrive.aborted = true ∨
        machine.shared.exchanged.aborted = true ∨ barrier.aborted = true) := by
      simp [h.sound, hflag]
    exact absurd haborted hsound
  case stands =>
    intro j t hj
    exact (hstands j t hj).2.2.2
  case inboxes =>
    intro j t hj
    obtain ⟨_, hinbox', hresult, _⟩ := hstands j t hj
    rw [hresult]
    exact hinbox'

end

end Lookahead
