import Lookahead.Proofs.Taking

/-!
Every run of a machine is a run of a cohort.

At any moment one of the three gates is open, and the threads stand accordingly. Each step of the
machine is the same step of the cohort, or the exchange if it is the last arrival at the last gate,
or does not matter to the cohort at all (`Tracks.step`). The machine can only come to a halt where
the cohort does (`Tracks.halted`): as long as someone is missing at the open gate, that one can go
on or has nothing to come for.
-/

namespace Lookahead

variable {M : Model}

inductive Tracks (machine : Machine M) (cohort : Cohort M) : Prop
  | gathering (rounds : Nat) (h : Gathering machine cohort rounds)
  | handing (rounds : Nat) (parties : List (Party M)) (hne : parties ≠ [])
      (hready : cohort = parties.map Stance.ready) (h : Handing machine parties rounds)
  | taking (rounds : Nat) (parties : List (Party M)) (hne : parties ≠ [])
      (hready : cohort = parties.map Stance.ready) (h : Taking machine parties rounds)

/-- A thread between two rounds is at work. -/
def Thread.isRunning : Thread M → Bool
  | .running _ _ => true
  | _ => false

/-- What the next step of a thread is to a cohort: nothing, or the work of its partition, or the
exchange of all of them. -/
inductive Cohort.Echo (cohort : Cohort M) (t : Thread M) (i : PartitionId) :
    List (Option PartitionId) → Cohort M → Prop
  | nothing (hidle : t.isRunning = false) : Echo cohort t i [] cohort
  | work (work : Work) (p : Partition M) (ht : t = .running work p)
      (hs : cohort[i]? = some (.running work p)) :
      Echo cohort t i [some i] (cohort.set i (Thread.workOn work p).stance)
  | exchange (next : Cohort M) (hidle : t.isRunning = false)
      (hnext : cohort.step? none = some next) : Echo cohort t i [none] next

/-- After a step of a machine it is where the cohort has come to meanwhile. -/
def Keeps (machine next : Machine M) (cohort : Cohort M) (i : PartitionId) : Prop :=
  ∃ t labels cohort', machine.threads[i]? = some t ∧ cohort.Echo t i labels cohort' ∧
    Tracks next cohort'

/-- A step and its echo show the same. -/
theorem Cohort.Echo.run {machine : Machine M} {cohort cohort' : Cohort M} {t : Thread M}
    {i : PartitionId} {labels : List (Option PartitionId)} (h : cohort.Echo t i labels cohort')
    (ht : machine.threads[i]? = some t) :
    (Cohort.system M).Run cohort labels ((Machine.system M).note machine i) cohort' := by
  have hnote : (Machine.system M).note machine i = noteAt i t.dispatch? := by
    show noteAt i (machine.threads[i]?.bind Thread.dispatch?) = _
    rw [ht, Option.bind_some]
  have hquiet : t.isRunning = false → t.dispatch? = none := by
    intro hidle
    cases t <;> first | rfl | cases hidle
  rw [hnote]
  cases h with
  | nothing hidle =>
    rw [hquiet hidle]
    exact .refl
  | work work p ht hs =>
    subst ht
    have hstep : (Cohort.system M).Run cohort [some i] ((Cohort.system M).note cohort (some i))
        (cohort.set i (Thread.workOn work p).stance) :=
      .step .refl (Cohort.step?_some_iff.mpr ⟨work, p, hs, rfl⟩)
    have hsame : (Cohort.system M).note cohort (some i) =
        noteAt i (Thread.running work p).dispatch? := by
      show noteAt i (cohort[i]?.bind _) = _
      rw [hs]
      rfl
    rw [← hsame]
    exact hstep
  | exchange next hidle hnext =>
    rw [hquiet hidle]
    exact .step .refl hnext

namespace Tracks

variable {machine next : Machine M} {cohort : Cohort M} {parties : List (Party M)}
  {rounds i : Nat} {t : Thread M} {s : Stance M} {q : Party M}

theorem lagging (ht : machine.threads[i]? = some t) (hidle : t.isRunning = false)
    (h : Tracks next cohort) : Keeps machine next cohort i :=
  ⟨t, [], cohort, ht, .nothing hidle, h⟩

/-! ## Steps -/

theorem step_arriving (h : Gathering machine cohort rounds) (hplaced : cohort.Placed)
    (ht : machine.threads[i]? = some (.syncing q.work q.partition { kind := q.kind }))
    (hs : cohort[i]? = some (.ready q)) (hstep : machine.step? i = some next) :
    Keeps machine next cohort i := by
  obtain ⟨t, shared, t', ht', hthread, rfl⟩ := Machine.step?_eq_some_iff.mp hstep
  rw [ht] at ht'
  cases ht'
  rw [Thread.step?_arriving] at hthread
  cases haborted : machine.shared.arrive.aborted with
  | true =>
    rw [Barrier.arrive_of_aborted haborted] at hthread
    cases hthread
    exact lagging ht rfl (.gathering rounds (h.turnAway ht hs haborted))
  | false =>
    rcases h.arrive.arrive haborted with ⟨hlast, harrive, hidle⟩ | ⟨_, harrive, hfilling⟩
    · rw [harrive] at hthread hidle
      cases hthread
      obtain ⟨parties, hne, hready, hhanding⟩ := h.complete hplaced ht hs hlast hidle haborted
      refine lagging ht rfl (.handing rounds parties hne hready ?_)
      rw [q.handing_zero, q.roundAt_zero] at hhanding
      exact hhanding
    · rw [harrive] at hthread hfilling
      cases hthread
      exact lagging ht rfl (.gathering rounds (h.wait ht hs hfilling rfl))

theorem step_waiting (h : Gathering machine cohort rounds)
    (ht : machine.threads[i]? = some
      (.syncing q.work q.partition { kind := q.kind, position := .waiting .arrive rounds }))
    (hs : cohort[i]? = some (.ready q)) (hstep : machine.step? i = some next) :
    Keeps machine next cohort i := by
  obtain ⟨t, shared, t', ht', hthread, rfl⟩ := Machine.step?_eq_some_iff.mp hstep
  rw [ht] at ht'
  cases ht'
  have hlook : machine.shared.arrive.look rounds =
      if machine.shared.arrive.aborted then .turnedAway else .waiting rounds := by
    simp [Barrier.look, h.arrive.generation]
  rw [Thread.step?_gathered, hlook] at hthread
  cases haborted : machine.shared.arrive.aborted with
  | true =>
    simp only [haborted, ↓reduceIte] at hthread
    cases hthread
    exact lagging ht rfl (.gathering rounds (h.turnAway ht hs haborted))
  | false =>
    simp [haborted] at hthread

theorem step_released {incoming : List (Scheduled M.Payload)} {generation : Nat}
    (h : Gathering machine cohort rounds) (hne : generation ≠ rounds)
    (ht : machine.threads[i]? = some (.syncing q.work (q.taken incoming)
      ((q.roundTaken incoming).moveTo (.waiting .published generation))))
    (hs : cohort[i]? =
      some (q.conclude incoming (machine.shared.minimums.foldl min Time.never)).stance)
    (hstep : machine.step? i = some next) : Keeps machine next cohort i := by
  obtain ⟨t, shared, t', ht', hthread, rfl⟩ := Machine.step?_eq_some_iff.mp hstep
  rw [ht] at ht'
  cases ht'
  have hlook : (machine.shared.barrier .published).look generation = .passed :=
    h.published.look hne
  rw [Thread.step?_waiting, hlook] at hthread
  cases hthread
  exact lagging ht rfl (.gathering rounds (h.lag ht hs rfl rfl rfl (.reading q incoming 0 _)))

theorem step_reading {incoming : List (Scheduled M.Payload)} {slot : Nat} {least : Time}
    (h : Gathering machine cohort rounds)
    (ht : machine.threads[i]? = some (.syncing q.work (q.taken incoming)
      ((q.roundTaken incoming).moveTo (.reading slot least))))
    (hs : cohort[i]? =
      some (q.conclude incoming ((machine.shared.minimums.drop slot).foldl min least)).stance)
    (hstep : machine.step? i = some next) : Keeps machine next cohort i := by
  obtain ⟨t, shared, t', ht', hthread, rfl⟩ := Machine.step?_eq_some_iff.mp hstep
  rw [ht] at ht'
  cases ht'
  cases hslot : machine.shared.minimums[slot]? with
  | some time =>
    rw [Thread.step?_reading hslot] at hthread
    cases hthread
    have hdrop : machine.shared.minimums.drop slot =
        time :: machine.shared.minimums.drop (slot + 1) := by
      obtain ⟨hlt, rfl⟩ := List.getElem?_eq_some_iff.mp hslot
      exact List.drop_eq_getElem_cons hlt
    rw [hdrop, List.foldl_cons] at hs
    exact lagging ht rfl
      (.gathering rounds (h.lag ht hs rfl rfl rfl (.reading q incoming (slot + 1) _)))
  | none =>
    rw [Thread.step?_reading_end hslot] at hthread
    cases hthread
    have hdrop : machine.shared.minimums.drop slot = [] :=
      List.drop_eq_nil_of_le (List.getElem?_eq_none_iff.mp hslot)
    rw [hdrop, List.foldl_nil] at hs
    have hafresh := Thread.afresh_conclude q incoming least
    exact lagging ht rfl (.gathering rounds
      (h.lag ht hs rfl rfl (hafresh.not_waiting .arrive) (hafresh.gathers ..)))

/-- The step of a thread that leaves, in either guise. -/
theorem step_aborting {gate : Gate} {e : RunError} {p : Partition M}
    (h : Gathering machine cohort rounds) (ht : machine.threads[i]? = some (.aborting gate e p))
    (hs : cohort[i]? = some s) (hbroken : cohort.Broken)
    (hgoing : ∀ gate, Gathers rounds machine.shared.minimums cohort.Broken
      (.aborting gate e p) s)
    (hgone : Gathers rounds machine.shared.minimums cohort.Broken (.ended (.error e) p) s)
    (hstep : machine.step? i = some next) : Keeps machine next cohort i := by
  obtain ⟨t, shared, t', ht', hthread, rfl⟩ := Machine.step?_eq_some_iff.mp hstep
  rw [ht] at ht'
  cases ht'
  cases gate with
  | arrive =>
    cases hthread
    exact lagging ht rfl (.gathering rounds (h.abort ht hs hbroken rfl (hgoing .exchanged)))
  | exchanged =>
    cases hthread
    exact lagging ht rfl (.gathering rounds (h.abort ht hs hbroken rfl (hgoing .published)))
  | published =>
    cases hthread
    exact lagging ht rfl (.gathering rounds (h.abort ht hs hbroken rfl hgone))

theorem step_gathering (h : Gathering machine cohort rounds) (hplaced : cohort.Placed)
    (hstep : machine.step? i = some next) : Keeps machine next cohort i := by
  obtain ⟨t, shared, t', ht, hthread, hnext⟩ := Machine.step?_eq_some_iff.mp hstep
  obtain ⟨s, hs, hgathers⟩ := h.stands i t ht
  cases hgathers with
  | running work p =>
    cases hthread
    subst hnext
    exact ⟨_, _, _, ht, .work work p rfl hs, .gathering rounds (h.work ht hs)⟩
  | entering q => exact step_arriving h hplaced ht hs hstep
  | waiting q => exact step_waiting h ht hs hstep
  | released q incoming generation hne => exact step_released h hne ht hs hstep
  | reading q incoming slot least => exact step_reading h ht hs hstep
  | failing gate e p =>
    exact step_aborting h ht hs (.of_failed hs) (fun gate => .failing gate e p) (.failed e p) hstep
  | turnedAway gate q hbroken =>
    exact step_aborting h ht hs hbroken (fun gate => .turnedAway gate q hbroken)
      (.left q hbroken) hstep
  | ended stop p => cases hthread
  | failed e p => cases hthread
  | left q hbroken => cases hthread

/-- A thread turns to the next destination, or to the next gate behind the last. -/
theorem step_turning {d : Nat} (hne : parties ≠ []) (h : Handing machine parties rounds)
    (ht : machine.threads[i]? =
      some (.syncing q.work (q.handing d) ((q.roundAt d).moveTo (.handingOver d))))
    (hq : parties[i]? = some q) (hstep : machine.step? i = some next) :
    Keeps machine next (parties.map Stance.ready) i := by
  obtain ⟨t, shared, t', ht', hthread, rfl⟩ := Machine.step?_eq_some_iff.mp hstep
  rw [ht] at ht'
  cases ht'
  cases hbox : q.partition.member.outbound[d]? with
  | none =>
    rw [Thread.step?_handingOver_end (Party.outbound_handing_none hbox)] at hthread
    cases hthread
    have hfinish := h.finish ht hq hbox
    rw [← Party.handing_end hbox, ← Party.roundAt_end hbox] at hfinish
    exact lagging ht rfl (.handing rounds parties hne rfl hfinish)
  | some box =>
    cases hempty : box.isEmpty with
    | true =>
      rw [Thread.step?_handingOver_empty (Party.outbound_handing hbox) hempty] at hthread
      cases hthread
      have hskip := h.skip ht hq hbox hempty
      rw [Party.handing_of_empty hbox hempty, Party.roundAt_of_empty hbox hempty] at hskip
      exact lagging ht rfl (.handing rounds parties hne rfl hskip)
    | false =>
      have hd : d < parties.length := by
        rw [← (h.placed i q hq).outboxes]
        exact (List.getElem?_eq_some_iff.mp hbox).1
      obtain ⟨batches, hbatches, _⟩ := h.inboxes d hd
      have hshared : machine.shared.post? d
          ⟨(q.handing d).member.id, box.activities.map fun a =>
            a.notBefore ((q.roundAt d).horizon (q.handing d).timeline)⟩ =
          some { machine.shared with
            inboxes := machine.shared.inboxes.set d
              (some (batches ++ (q.batch? d).toList)) } := by
        rw [Party.batch?_of_box hbox hempty]
        simp [Shared.post?, hbatches]
      rw [Thread.step?_handingOver_post (Party.outbound_handing hbox) hempty hshared] at hthread
      cases hthread
      have hpost := h.post ht hq hbatches
      rw [← Party.emptyOutbox_handing, Party.roundAt_succ hbox] at hpost
      exact lagging ht rfl (.handing rounds parties hne rfl hpost)

theorem step_handing (hne : parties ≠ []) (h : Handing machine parties rounds)
    (hstep : machine.step? i = some next) :
    Keeps machine next (parties.map Stance.ready) i := by
  obtain ⟨t, shared, t', ht, hthread, rfl⟩ := Machine.step?_eq_some_iff.mp hstep
  obtain ⟨q, hq, hhands⟩ := h.stands i t ht
  cases hhands with
  | released q generation hgeneration =>
    rw [Thread.step?_gathered, h.arrive.look hgeneration] at hthread
    cases hthread
    have hrelease := h.release ht hq
    rw [q.handing_zero, q.roundAt_zero] at hrelease
    exact lagging ht rfl (.handing rounds parties hne rfl hrelease)
  | handing q d => exact step_turning hne h ht hq hstep
  | entering q =>
    rw [Thread.step?_entering] at hthread
    have hbarrier : machine.shared.barrier .exchanged = machine.shared.exchanged := rfl
    rw [hbarrier] at hthread
    rcases h.exchanged.arrive h.sound.2.1 with ⟨hlast, harrive, hidle⟩ | ⟨_, harrive, hfilling⟩
    · rw [harrive] at hthread hidle
      cases hthread
      exact lagging ht rfl
        (.taking rounds parties hne rfl (h.complete ht hq hlast hidle h.sound.2.1))
    · rw [harrive] at hthread hfilling
      cases hthread
      exact lagging ht rfl (.handing rounds parties hne rfl (h.wait ht hq hfilling h.sound.2.1))
  | waiting q =>
    have hlook : (machine.shared.barrier .exchanged).look rounds = .waiting rounds := by
      show machine.shared.exchanged.look rounds = _
      simp [Barrier.look, h.exchanged.generation, h.sound.2.1]
    rw [Thread.step?_waiting, hlook] at hthread
    cases hthread

theorem step_taking (hne : parties ≠ []) (h : Taking machine parties rounds)
    (hstep : machine.step? i = some next) :
    Keeps machine next (parties.map Stance.ready) i := by
  obtain ⟨t, shared, t', ht, hthread, rfl⟩ := Machine.step?_eq_some_iff.mp hstep
  obtain ⟨q, batches, slot, hq, hinbox, hslot, htakes⟩ := h.stands i t ht
  have hplaced := h.placed i q hq
  cases htakes with
  | released q batches slot generation hgeneration hbrought =>
    have hlook : (machine.shared.barrier .exchanged).look generation = .passed :=
      h.exchanged.look hgeneration
    rw [Thread.step?_waiting, hlook] at hthread
    cases hthread
    exact lagging ht rfl (.taking rounds parties hne rfl
      (h.alone ht hq hinbox hslot rfl rfl (.collecting q batches slot [] hbrought)))
  | collecting q batches slot got hbrought =>
    have hid : q.handed.member.id = i := (hplaced.like (.handed q)).member
    cases batches with
    | nil =>
      have hfetch : machine.shared.fetch? q.handed.member.id = none := by
        rw [hid]
        simp [Shared.fetch?, hinbox]
      rw [List.append_nil] at hbrought
      have horder := hbrought.inSenderOrder h.placed
      rw [Thread.step?_collecting_end hfetch, horder] at hthread
      have halone := h.alone ht hq hinbox hslot rfl rfl (.publishing q slot)
      rw [← q.collected_eq] at halone
      cases hthread
      exact lagging ht rfl (.taking rounds parties hne rfl halone)
    | cons batch rest =>
      have hfetch : machine.shared.fetch? q.handed.member.id =
          some (batch,
            { machine.shared with inboxes := machine.shared.inboxes.set i (some rest) }) := by
        rw [hid]
        simp [Shared.fetch?, hinbox]
      rw [Thread.step?_collecting hfetch] at hthread
      cases hthread
      exact lagging ht rfl
        (.taking rounds parties hne rfl (h.collect ht hq hinbox hslot hbrought))
  | publishing q slot =>
    rw [Thread.step?_publishing] at hthread
    cases hthread
    have hpublish := h.publish ht hq hinbox hslot
    rw [(hplaced.like (.taken q (Party.incoming parties i))).member]
    exact lagging ht rfl (.taking rounds parties hne rfl hpublish)
  | entering q =>
    rw [Thread.step?_entering] at hthread
    have hbarrier : machine.shared.barrier .published = machine.shared.published := rfl
    rw [hbarrier] at hthread
    rcases h.published.arrive h.sound.2.2 with ⟨hlast, harrive, hidle⟩ | ⟨_, harrive, hfilling⟩
    · rw [harrive] at hthread hidle
      cases hthread
      have hexchange : Cohort.step? (parties.map Stance.ready) none =
          some (Cohort.exchanged parties) :=
        Cohort.exchange?_eq_some_iff.mpr ⟨parties, hne, rfl, rfl⟩
      exact ⟨_, _, _, ht, .exchange _ rfl hexchange, .gathering (rounds + 1)
        (h.complete ht hq hlast hinbox hslot hidle h.sound.2.2)⟩
    · rw [harrive] at hthread hfilling
      cases hthread
      exact lagging ht rfl
        (.taking rounds parties hne rfl (h.wait ht hq hinbox hslot hfilling h.sound.2.2))
  | waiting q =>
    have hlook : (machine.shared.barrier .published).look rounds = .waiting rounds := by
      show machine.shared.published.look rounds = _
      simp [Barrier.look, h.published.generation, h.sound.2.2]
    rw [Thread.step?_waiting, hlook] at hthread
    cases hthread

theorem echo (h : Tracks machine cohort) (hplaced : cohort.Placed)
    (hstep : machine.step? i = some next) : Keeps machine next cohort i := by
  cases h with
  | gathering rounds h => exact step_gathering h hplaced hstep
  | handing rounds parties hne hready h =>
    subst hready
    exact step_handing hne h hstep
  | taking rounds parties hne hready h =>
    subst hready
    exact step_taking hne h hstep

theorem step (h : Tracks machine cohort) (hplaced : cohort.Placed)
    (hstep : machine.step? i = some next) : ∃ labels cohort',
      (Cohort.system M).Run cohort labels ((Machine.system M).note machine i) cohort' ∧
        Tracks next cohort' := by
  obtain ⟨t, labels, cohort', ht, hecho, hnext⟩ := h.echo hplaced hstep
  exact ⟨labels, cohort', hecho.run ht, hnext⟩

end Tracks

end Lookahead
