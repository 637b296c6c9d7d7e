import Lookahead.Proofs.Meeting
import Lookahead.Proofs.Relay

/-!
Causality.

Unless the scheduling of a clock overflows unnoticed, nothing that waits to be handed over is due
before the next meeting, a hand-over puts nothing off, and no step queues anything in the past of
the timeline that it goes to. So the local time of a partition never goes back, and no event ever
arrives in the past of its partition.
-/

namespace Lookahead

variable {M : Model}

/-! ## What steps do to timelines -/

namespace Seat

variable {π : Type} [DataSize π] {shared shared' : Shared π} {seat seat' : Seat π}
  {round : Round π}

omit [DataSize π] in
@[simp] theorem timeline_stand (seat : Seat π) (round : Round π) (gate : Gate)
    (standing : Standing) : (seat.stand round gate standing).timeline = seat.timeline := by
  cases standing <;> rfl

theorem timeline_handOver (shared : Shared π) (seat : Seat π) (round : Round π) (target : Nat) :
    (seat.handOver shared round target).2.timeline = seat.timeline := by
  unfold handOver
  split
  · rfl
  · split
    · rfl
    · dsimp only
      split <;> rfl

/-- A round changes a timeline when an epoch takes in what it got and when it sets the next time to
meet. -/
theorem timeline_of_step (h : step? shared seat = some (shared', seat'))
    (hgoing : seat.progress = .going round) :
    seat'.timeline = seat.timeline ∨
    (∃ got, round.position = .collecting got ∧ round.kind = .epoch ∧
      shared.fetch? seat.member.id = none ∧
      seat'.timeline = seat.timeline.addAll (Round.inSenderOrder got)) ∨
    (∃ slot least, round.position = .reading slot least ∧ round.kind = .epoch ∧
      shared.minimums[slot]? = none ∧ least ≠ Time.never ∧
      seat'.timeline =
        seat.timeline.insert (nextMeeting least seat.member.window) Priority.threadSync .sync) := by
  unfold step? at h
  rw [hgoing] at h
  cases hposition : round.position with
  | entering gate =>
    simp only [hposition, Option.some.injEq] at h
    have hseat : seat' = (seat.enter shared round gate).2 := by rw [h]
    rw [hseat]
    exact Or.inl (timeline_stand ..)
  | waiting gate generation =>
    simp only [hposition] at h
    split at h
    · cases h
    · cases h
      exact Or.inl (timeline_stand ..)
  | handingOver target =>
    simp only [hposition, Option.some.injEq] at h
    have hseat : seat' = (seat.handOver shared round target).2 := by rw [h]
    rw [hseat]
    exact Or.inl (timeline_handOver ..)
  | collecting got =>
    simp only [hposition, Option.some.injEq] at h
    unfold collect at h
    split at h
    · cases h
      exact Or.inl rfl
    · rename_i hfetch
      cases h
      unfold collected
      cases hkind : round.kind with
      | untimed own => exact Or.inl rfl
      | epoch => exact Or.inr (Or.inl ⟨got, rfl, rfl, hfetch, rfl⟩)
  | publishing =>
    simp only [hposition, Option.some.injEq] at h
    cases h
    exact Or.inl rfl
  | reading slot least =>
    simp only [hposition, Option.some.injEq] at h
    unfold read at h
    split at h
    · cases h
      exact Or.inl rfl
    · rename_i hslot
      cases h
      unfold conclude
      cases hkind : round.kind with
      | untimed own => exact Or.inl rfl
      | epoch =>
        by_cases hleast : least = Time.never
        · simp [hleast]
        · refine Or.inr (Or.inr ⟨slot, least, rfl, rfl, hslot, hleast, ?_⟩)
          simp [hleast]

end Seat

namespace Thread

variable {shared shared' : Shared M.Payload} {work : Work} {p : Partition M}
  {round : Round M.Payload} {t' : Thread M}

@[simp] theorem timeline_finishTimed (stop : StopReason) (p : Partition M) :
    (finishTimed stop p).partition.timeline = p.timeline := by
  unfold finishTimed
  split <;> rfl

@[simp] theorem timeline_afterRound (work : Work) (p : Partition M) (kind : Round.Kind)
    (outcome : Round.Outcome M.Payload) :
    (afterRound work p kind outcome).partition.timeline = p.timeline := by
  unfold afterRound
  cases outcome with
  | resume nextSync => rfl
  | drained => exact timeline_finishTimed ..
  | untimed received more =>
    dsimp only
    split <;> rfl

theorem timeline_runPhase (work : Work) (stage : Stage) (phase : Nat) (p : Partition M) :
    (runPhase work stage phase p).partition.timeline = p.timeline := by
  have hphases := phases_runPhase work stage phase p
  generalize runPhase work stage phase p = t at hphases
  cases hphases with
  | ready own q hphased => exact Partition.timeline_phased hphased
  | failed e q hphased => exact Partition.timeline_phased hphased

theorem timeline_of_syncOn (h : syncOn shared work p round = some (shared', t')) :
    ∃ seat, Seat.step? shared ⟨p.member, p.timeline, .going round⟩ = some (shared', seat) ∧
      t'.partition.timeline = seat.timeline := by
  unfold syncOn at h
  cases hseat : Seat.step? shared ⟨p.member, p.timeline, .going round⟩ with
  | none => simp [hseat] at h
  | some result =>
    obtain ⟨shared'', seat⟩ := result
    simp only [hseat] at h
    refine ⟨seat, ?_⟩
    cases hprogress : seat.progress with
    | going round' =>
      simp only [hprogress, Option.some.injEq, Prod.mk.injEq] at h
      obtain ⟨rfl, rfl⟩ := h
      exact ⟨rfl, rfl⟩
    | «over» result =>
      cases result with
      | ok outcome =>
        simp only [hprogress, Option.some.injEq, Prod.mk.injEq] at h
        obtain ⟨rfl, rfl⟩ := h
        exact ⟨rfl, timeline_afterRound ..⟩
      | error e =>
        simp only [hprogress, Option.some.injEq, Prod.mk.injEq] at h
        obtain ⟨rfl, rfl⟩ := h
        exact ⟨rfl, rfl⟩

end Thread

/-- A dispatch on time moves its timeline on, whatever comes of it. -/
theorem Thread.Works.movesOn {p : Partition M} {t : Thread M} {S : Setting} {least : Time}
    (h : Works p t) (hontime : p.OnTime S least) (hsafe : S.exact)
    (hexact : ∀ d, p.next? = some d → d.Exact) :
    p.timeline.MovesOn t.partition.timeline := by
  have hadvance : ∀ {d : Dispatch M}, p.next? = some d →
      p.timeline.advance = .ok (d.activity, d.partition.timeline) := by
    intro d hnext
    obtain ⟨timeline, hadvance, hpartition⟩ := Partition.next?_eq_some_iff.mp hnext
    rw [hpartition]
    exact hadvance
  have hle : ∀ {d : Dispatch M}, p.next? = some d → p.timeline.now ≤ d.activity.time := by
    intro d hnext
    rw [← (Partition.agenda_of_next? hnext).2.1]
    exact hontime.now_le hsafe hnext
  have hafter : ∀ {d : Dispatch M} {e : Effect M}, p.next? = some d → e.Of d →
      p.timeline.MovesOn (d.partition.after e).timeline := by
    intro d e hnext heffect
    exact ⟨d.partition.timeline, _, Or.inr ⟨d.activity, hadvance hnext, hle hnext⟩, rfl,
      fun a ha => (heffect.added a ha).1 (hexact d hnext)⟩
  have hmove : ∀ {d : Dispatch M}, p.next? = some d →
      p.timeline.MovesOn d.partition.timeline := by
    intro d hnext
    exact ⟨d.partition.timeline, [], Or.inr ⟨d.activity, hadvance hnext, hle hnext⟩, rfl,
      by simp⟩
  cases h with
  | idle hnext =>
    rw [Thread.timeline_finishTimed]
    exact .refl _
  | work d e hnext hwork heffect => exact hafter hnext heffect
  | failed d e err hnext hwork heffect => exact hafter hnext heffect
  | sync d hnext => exact hmove hnext
  | stop d hnext =>
    rw [Thread.timeline_finishTimed]
    exact hmove hnext

/-! ## What the threads of a machine do -/

theorem Fits.current {S : Setting} {m : Moment} {s : Stance M} (h : Fits S m s)
    (hsafe : S.exact) (halive : ∀ e p, s ≠ .failed e p) : s.partition.timeline.Current := by
  cases h with
  | preparing phase p h => exact h.current hsafe
  | prepared phase p own h => exact h.current hsafe
  | running least p h hbuffers => exact h.current hsafe
  | meeting least p h hbuffers => exact h.current
  | leaving least stop p hleaves h => exact h.current
  | left least stop p own hleaves h => exact h.current
  | gone least stop p hleaves h => exact h.current
  | completing phase stop p h => exact h.current
  | completed phase stop p own h => exact h.current
  | finished stop p h => exact h.current
  | failed m e p => exact absurd rfl (halive e p)

/-- Whoever has not failed when a round is over has the next meeting ahead. -/
theorem Fits.le_nextMeeting {S : Setting} {m : Moment} {q : Party M}
    {incoming : List (Scheduled M.Payload)} {least : Time}
    (h : Fits S m (q.conclude incoming least).stance) (hsafe : S.exact) (hkind : q.kind = .epoch)
    (hleast : least ≠ Time.never) :
    (q.taken incoming).timeline.now ≤
      Seat.nextMeeting least (q.taken incoming).member.window := by
  unfold Party.conclude at h
  simp only [hkind, hleast, ↓reduceIte] at h
  have hcurrent := h.current hsafe (by simp [Thread.stance])
  exact hcurrent _ (Timeline.mem_agenda_add.mpr (Or.inl rfl))

section Exchanges

variable {parties : List (Party M)} {S : Setting} {m : Moment} {i : Nat} {q : Party M}
  (h : Cohort.Agrees (parties.map Stance.ready) S m) (hq : parties[i]? = some q)
  (hkind : q.kind = .epoch)
include h hq hkind

theorem Cohort.Agrees.exists_meeting_of_epoch : ∃ least, q.partition.Meets S least ∧
    ∀ r ∈ parties, r.kind = .epoch ∧ r.partition.Meets S least ∧
      r.partition.Buffers S.exact (least.after S.window) := by
  cases hfits : h.fits_party hq with
  | meeting least p hmeets hbuffers =>
    refine ⟨least, hmeets, fun r hr => ?_⟩
    obtain ⟨j, hj⟩ := List.mem_iff_getElem?.mp hr
    rcases (h.fits_party hq).ready_timed with ⟨hstays, _⟩ | ⟨_, _, _, _, heq, _⟩
    · rcases (h.fits_party hj).ready_timed with ⟨_, _, hepoch, hmeets, hbuffers⟩ | ⟨hleaves, _⟩
      · exact ⟨hepoch, hmeets, hbuffers⟩
      · exact absurd hleaves hstays
    · cases heq
  | prepared phase p own h => cases hkind
  | left least stop p own hleaves h => cases hkind
  | completed phase stop p own h => cases hkind

/-- All that comes in at a meeting is due at or after it. -/
theorem Cohort.Agrees.le_incoming :
    ∀ a ∈ Party.incoming parties i, q.partition.timeline.now ≤ a.time := by
  obtain ⟨least, hmeets, hall⟩ := h.exists_meeting_of_epoch hq hkind
  intro a ha
  rw [hmeets.now]
  exact (Party.mem_incoming hall i a ha).1

theorem Cohort.Agrees.le_nextMeeting (window : Nat) :
    q.partition.timeline.now ≤ Seat.nextMeeting (Party.least parties) window := by
  obtain ⟨least, hmeets, hall⟩ := h.exists_meeting_of_epoch hq hkind
  have hmeeting := Party.meeting_le_least hall
  have hafter := Time.le_after (Party.least parties) window
  rw [hmeets.now]
  exact Time.le_trans hmeeting (by
    rw [Time.le_def] at hafter ⊢
    unfold Seat.nextMeeting
    rw [Time.ticks_max]
    omega)

end Exchanges

namespace Tracks

variable {machine : Machine M} {cohort : Cohort M} {S : Setting} {m : Moment} {i : Nat}
  {work : Work} {p : Partition M} {round : Round M.Payload}

theorem movesOn_collecting (h : Tracks machine cohort) (hagrees : cohort.Agrees S m)
    (ht : machine.threads[i]? = some (.syncing work p round)) {got : List (Batch M.Payload)}
    (hposition : round.position = .collecting got) (hkind : round.kind = .epoch)
    (hfetch : machine.shared.fetch? p.member.id = none) :
    p.timeline.MovesOn (p.timeline.addAll (Round.inSenderOrder got)) := by
  cases h with
  | gathering rounds h =>
    obtain ⟨s, hs, hgathers⟩ := h.stands i _ ht
    cases hgathers <;> cases hposition
  | handing rounds parties hne hready h =>
    obtain ⟨q, _, hhands⟩ := h.stands i _ ht
    cases hhands <;> cases hposition
  | taking rounds parties hne hready h =>
    obtain ⟨q, batches, slot, hq, hinbox, _, htakes⟩ := h.stands i _ ht
    cases htakes with
    | released q batches slot generation => cases hposition
    | publishing q slot => cases hposition
    | entering q => cases hposition
    | waiting q => cases hposition
    | collecting q batches slot got' hbrought =>
      cases hposition
      subst hready
      have hid : q.handed.member.id = i := ((h.placed i q hq).like (.handed q)).member
      have hbatches : batches = [] := by
        rw [hid] at hfetch
        simp only [Shared.fetch?, hinbox] at hfetch
        cases batches with
        | nil => rfl
        | cons batch rest => cases hfetch
      rw [hbatches, List.append_nil] at hbrought
      rw [hbrought.inSenderOrder h.placed]
      exact ⟨q.handed.timeline, _, Or.inl rfl, rfl, hagrees.le_incoming hq hkind⟩

theorem movesOn_reading (h : Tracks machine cohort) (hagrees : cohort.Agrees S m)
    (hsafe : S.exact) (ht : machine.threads[i]? = some (.syncing work p round)) {slot : Nat}
    {least : Time}
    (hposition : round.position = .reading slot least) (hkind : round.kind = .epoch)
    (hslot : machine.shared.minimums[slot]? = none) (hleast : least ≠ Time.never) :
    p.timeline.MovesOn
      (p.timeline.insert (Seat.nextMeeting least p.member.window) Priority.threadSync .sync) := by
  cases h with
  | handing rounds parties hne hready h =>
    obtain ⟨q, _, hhands⟩ := h.stands i _ ht
    cases hhands <;> cases hposition
  | taking rounds parties hne hready h =>
    obtain ⟨q, _, _, _, _, _, htakes⟩ := h.stands i _ ht
    cases htakes <;> cases hposition
  | gathering rounds h =>
    obtain ⟨s, hs, hgathers⟩ := h.stands i _ ht
    cases hgathers with
    | entering q => cases hposition
    | waiting q => cases hposition
    | released q incoming generation => cases hposition
    | reading q incoming slot' least' =>
      cases hposition
      have hepoch : q.kind = .epoch := by
        unfold Party.roundTaken at hkind
        split at hkind
        · assumption
        · rename_i own hq
          have : (Round.Kind.untimed own : Round.Kind) = .epoch := hq ▸ hkind
          cases this
      have hdrop : machine.shared.minimums.drop slot = [] :=
        List.drop_eq_nil_of_le (List.getElem?_eq_none_iff.mp hslot)
      have hfits := hagrees i _ hs
      rw [hdrop, List.foldl_nil] at hfits
      refine ⟨(q.taken incoming).timeline, [.ofMeeting _], Or.inl rfl, rfl, ?_⟩
      intro a ha
      obtain rfl := List.mem_singleton.mp ha
      exact hfits.le_nextMeeting hsafe hepoch hleast

theorem movesOn (h : Tracks machine cohort) (hagrees : cohort.Agrees S m) (hsafe : S.exact)
    {t t' : Thread M} {shared : Shared M.Payload} (ht : machine.threads[i]? = some t)
    (hexact : ∀ d, t.dispatch? = some d → d.Exact)
    (hstep : t.step? machine.shared = some (shared, t')) :
    t.partition.timeline.MovesOn t'.partition.timeline := by
  have hsame : ∀ {t t' : Thread M}, t'.partition.timeline = t.partition.timeline →
      t.partition.timeline.MovesOn t'.partition.timeline := by
    intro t t' heq
    rw [heq]
    exact .refl _
  cases t with
  | ended result p => cases hstep
  | aborting gate e p => cases gate <;> (cases hstep; exact hsame rfl)
  | running work p =>
    cases hstep
    cases work with
    | init phase => exact hsame (Thread.timeline_runPhase ..)
    | complete phase stop => exact hsame (Thread.timeline_runPhase ..)
    | timed =>
      cases h with
      | handing rounds parties hne hready h =>
        obtain ⟨q, _, hhands⟩ := h.stands i _ ht
        cases hhands
      | taking rounds parties hne hready h =>
        obtain ⟨q, _, _, _, _, _, htakes⟩ := h.stands i _ ht
        cases htakes
      | gathering rounds h =>
        obtain ⟨s, hs, hgathers⟩ := h.stands i _ ht
        cases hgathers
        cases hagrees i _ hs with
        | running least p hontime hbuffers =>
          exact (Thread.works_workOn p).movesOn hontime hsafe hexact
  | syncing work p round =>
    obtain ⟨seat, hseat, htimeline⟩ := Thread.timeline_of_syncOn hstep
    rcases Seat.timeline_of_step hseat rfl with heq | ⟨got, hposition, hkind, hfetch, heq⟩ |
      ⟨slot, least, hposition, hkind, hslot, hleast, heq⟩
    · exact hsame (htimeline.trans heq)
    · rw [htimeline, heq]
      exact h.movesOn_collecting hagrees ht hposition hkind hfetch
    · rw [htimeline, heq]
      exact h.movesOn_reading hagrees hsafe ht hposition hkind hslot hleast

end Tracks

/-! ## What waits in the outboxes -/

/-- Everything in the outboxes is due at or after `bound`. -/
def Partition.HoldsFrom (p : Partition M) (bound : Time) : Prop :=
  ∀ box ∈ p.member.outbound, ∀ a ∈ box.activities, bound ≤ a.time

theorem Partition.Buffers.holdsFrom {p : Partition M} {safe : Prop} {bound : Time}
    (h : p.Buffers safe bound) (hsafe : safe) : p.HoldsFrom bound := by
  intro box hbox a ha
  obtain ⟨j, hj⟩ := List.mem_iff_getElem?.mp hbox
  exact (h j box hj a ha).2.1 hsafe

theorem Partition.HoldsFrom.of_subset {p q : Partition M} {bound : Time} (h : p.HoldsFrom bound)
    (hsub : ∀ box ∈ q.member.outbound, box.activities = [] ∨ box ∈ p.member.outbound) :
    q.HoldsFrom bound := by
  intro box hbox a ha
  rcases hsub box hbox with hempty | hmem
  · rw [hempty] at ha
    cases ha
  · exact h box hmem a ha

namespace Party

variable {q : Party M} {bound : Time}

theorem holdsFrom_handing (h : q.partition.HoldsFrom bound) (t : Nat) :
    (q.handing t).HoldsFrom bound := by
  refine h.of_subset fun box hbox => ?_
  obtain ⟨j, hj⟩ := List.mem_iff_getElem?.mp hbox
  simp only [handing, List.getElem?_mapIdx] at hj
  obtain ⟨before, hbefore, rfl⟩ := Option.map_eq_some_iff.mp hj
  by_cases hjt : j < t
  · simp [hjt]
  · simp only [hjt, ↓reduceIte]
    exact Or.inr (List.mem_of_getElem? hbefore)

theorem holdsFrom_handed (q : Party M) (bound : Time) : q.handed.HoldsFrom bound := by
  have hout : q.handed.member.outbound = q.partition.member.outbound.map fun _ => {} := by
    unfold handed
    cases q.kind <;> rfl
  intro box hbox a ha
  rw [hout] at hbox
  obtain ⟨_, _, rfl⟩ := List.mem_map.mp hbox
  cases ha

theorem holdsFrom_taken (q : Party M) (incoming : List (Scheduled M.Payload)) (bound : Time) :
    (q.taken incoming).HoldsFrom bound := by
  intro box hbox a ha
  rw [outbound_taken] at hbox
  obtain ⟨_, _, rfl⟩ := List.mem_map.mp hbox
  cases ha

end Party

def Thread.timed? : Thread M → Option (Partition M)
  | .running .timed p => some p
  | .syncing .timed p _ => some p
  | _ => none

theorem Fits.ready_meeting {S : Setting} {m : Moment} {q : Party M} (h : Fits S m (.ready q))
    (hsafe : S.exact) (hwork : q.work = .timed) : ∃ bound, q.partition.timeline.now = bound ∧
      q.partition.member.nextSync = bound ∧ q.partition.HoldsFrom bound := by
  cases h with
  | meeting least p h hbuffers => exact ⟨_, h.now, h.nextSync, hbuffers.holdsFrom hsafe⟩
  | prepared phase p own h => cases hwork
  | left least stop p own hleaves h => cases hwork
  | completed phase stop p own h => cases hwork

namespace Tracks

variable {machine : Machine M} {cohort : Cohort M} {S : Setting} {m : Moment} {i : Nat}
  {p : Partition M} {round : Round M.Payload}

/-- Between two meetings what waits is due at or after the next one. -/
theorem holdsFrom_running (h : Tracks machine cohort) (hagrees : cohort.Agrees S m)
    (hsafe : S.exact) (ht : machine.threads[i]? = some (.running .timed p)) :
    p.HoldsFrom p.member.nextSync := by
  cases h with
  | handing rounds parties hne hready h =>
    obtain ⟨q, _, hhands⟩ := h.stands i _ ht
    cases hhands
  | taking rounds parties hne hready h =>
    obtain ⟨q, _, _, _, _, _, htakes⟩ := h.stands i _ ht
    cases htakes
  | gathering rounds h =>
    obtain ⟨s, hs, hgathers⟩ := h.stands i _ ht
    cases hgathers
    cases hagrees i _ hs with
    | running least p hontime hbuffers =>
      rw [hontime.nextSync]
      exact hbuffers.holdsFrom hsafe

/-- At a meeting what waits is not due before it. -/
theorem holdsFrom_syncing (h : Tracks machine cohort) (hagrees : cohort.Agrees S m)
    (hsafe : S.exact) (ht : machine.threads[i]? = some (.syncing .timed p round)) :
    p.HoldsFrom p.member.nextSync ∧ p.HoldsFrom p.timeline.now := by
  have hwhole : ∀ {q : Party M}, Fits S m (.ready q) → q.work = .timed →
      q.partition.HoldsFrom q.partition.member.nextSync ∧
        q.partition.HoldsFrom q.partition.timeline.now := by
    intro q hfits hwork
    obtain ⟨bound, hnow, hnextSync, hholds⟩ := hfits.ready_meeting hsafe hwork
    rw [hnow, hnextSync]
    exact ⟨hholds, hholds⟩
  generalize hwork : Work.timed = work at ht
  cases h with
  | gathering rounds h =>
    obtain ⟨s, hs, hgathers⟩ := h.stands i _ ht
    cases hgathers with
    | entering q => exact hwhole (hagrees i _ hs) hwork.symm
    | waiting q => exact hwhole (hagrees i _ hs) hwork.symm
    | released q incoming generation =>
      exact ⟨q.holdsFrom_taken incoming _, q.holdsFrom_taken incoming _⟩
    | reading q incoming slot least =>
      exact ⟨q.holdsFrom_taken incoming _, q.holdsFrom_taken incoming _⟩
  | handing rounds parties hne hready h =>
    subst hready
    obtain ⟨q, hq, hhands⟩ := h.stands i _ ht
    have hfits := hagrees.fits_party hq
    cases hhands with
    | released q generation => exact hwhole hfits hwork.symm
    | handing q t =>
      obtain ⟨hnext, hnow⟩ := hwhole hfits hwork.symm
      exact ⟨q.holdsFrom_handing hnext t, q.holdsFrom_handing hnow t⟩
    | entering q => exact ⟨q.holdsFrom_handed _, q.holdsFrom_handed _⟩
    | waiting q => exact ⟨q.holdsFrom_handed _, q.holdsFrom_handed _⟩
  | taking rounds parties hne hready h =>
    obtain ⟨q, _, _, _, _, _, htakes⟩ := h.stands i _ ht
    cases htakes with
    | released q batches slot generation => exact ⟨q.holdsFrom_handed _, q.holdsFrom_handed _⟩
    | collecting q batches slot got => exact ⟨q.holdsFrom_handed _, q.holdsFrom_handed _⟩
    | publishing q slot => exact ⟨q.holdsFrom_taken _ _, q.holdsFrom_taken _ _⟩
    | entering q => exact ⟨q.holdsFrom_taken _ _, q.holdsFrom_taken _ _⟩
    | waiting q => exact ⟨q.holdsFrom_taken _ _, q.holdsFrom_taken _ _⟩

end Tracks

/-- What is due at or after the present instant of a meeting is not put off. -/
theorem Round.notBefore_horizon {π : Type} {round : Round π} {timeline : Timeline π}
    {a : Scheduled π} (h : timeline.now ≤ a.time) : a.notBefore (round.horizon timeline) = a := by
  refine Activity.notBefore_eq_self ?_
  unfold horizon
  split
  · exact h
  · exact Nat.zero_le _

/-! ## Causality -/

/-- A step that dispatches anything brings the thread to its instant. -/
theorem Thread.now_of_dispatch {shared shared' : Shared M.Payload} {t t' : Thread M}
    {d : Dispatch M} (hdispatch : t.dispatch? = some d)
    (hstep : t.step? shared = some (shared', t')) :
    t'.partition.timeline.now = d.activity.time ∧
      ∃ p, t = .running .timed p ∧ p.next? = some d := by
  cases t with
  | syncing work p round => cases hdispatch
  | aborting gate e p => cases hdispatch
  | ended result p => cases hdispatch
  | running work p =>
    cases work with
    | init phase => cases hdispatch
    | complete phase stop => cases hdispatch
    | timed =>
      have hnext : p.next? = some d := hdispatch
      have hnow := (Partition.agenda_of_next? hnext).2.1
      refine ⟨?_, p, rfl, hnext⟩
      have hworks := works_workOn p
      cases hstep
      generalize workOn .timed p = t at hworks
      cases hworks with
      | idle hnone =>
        rw [hnext] at hnone
        cases hnone
      | work d' e hnext' hwork heffect =>
        obtain rfl := Option.some.inj (hnext.symm.trans hnext')
        exact (Partition.now_after ..).trans hnow
      | failed d' e err hnext' hwork heffect =>
        obtain rfl := Option.some.inj (hnext.symm.trans hnext')
        exact (Partition.now_after ..).trans hnow
      | sync d' hnext' =>
        obtain rfl := Option.some.inj (hnext.symm.trans hnext')
        exact hnow
      | stop d' hnext' =>
        obtain rfl := Option.some.inj (hnext.symm.trans hnext')
        rw [timeline_finishTimed]
        exact hnow

theorem Machine.thread_of_step {machine next : Machine M} {i j : PartitionId} {t' : Thread M}
    (hstep : machine.step? i = some next) (hj : next.threads[j]? = some t') :
    ∃ t, machine.threads[j]? = some t ∧
      (t' = t ∧ i ≠ j ∨ i = j ∧ ∃ shared, t.step? machine.shared = some (shared, t')) := by
  obtain ⟨t, shared, t₁, ht, hthread, rfl⟩ := step?_eq_some_iff.mp hstep
  have hj' : (machine.threads.set i t₁)[j]? = some t' := hj
  by_cases hij : i = j
  · subst hij
    rw [getElem?_set_of_some ht] at hj'
    cases hj'
    exact ⟨t, ht, Or.inr ⟨rfl, shared, hthread⟩⟩
  · rw [List.getElem?_set_ne hij] at hj'
    exact ⟨t', hj', Or.inl ⟨rfl, hij⟩⟩

namespace Simulation

variable {b : Builder M} {log : List (Planned M.Payload)} {simulation : Simulation M}
  {trace : List (PartitionId × Dispatch M)} {machine : Machine M}

/-- Every machine that a run leads to is where a cohort is whose partitions agree. -/
theorem Reaches.agrees (hb : b.Made log) (hbuild : b.build = .ok simulation)
    (h : simulation.Reaches trace machine) (hexact : ∀ entry ∈ trace, entry.2.Exact) :
    ∃ cohort m, Tracks machine cohort ∧ cohort.Agrees (b.setting simulation True) m := by
  obtain ⟨labels, cohort, hrun, htracks, _⟩ := h.cohort hb hbuild
  obtain ⟨_, m, hagrees⟩ := agrees_exact hb hbuild hrun hexact
  exact ⟨cohort, m, htracks, hagrees⟩

theorem Reaches.movesOn (hb : b.Made log) (hbuild : b.build = .ok simulation)
    (h : simulation.Reaches trace machine) (hexact : ∀ entry ∈ trace, entry.2.Exact)
    {i : PartitionId} {t t' : Thread M} {shared : Shared M.Payload}
    (ht : machine.threads[i]? = some t) (hnext : ∀ d, t.dispatch? = some d → d.Exact)
    (hstep : t.step? machine.shared = some (shared, t')) :
    t.partition.timeline.MovesOn t'.partition.timeline := by
  obtain ⟨cohort, m, htracks, hagrees⟩ := h.agrees hb hbuild hexact
  exact htracks.movesOn hagrees trivial ht hnext hstep

theorem note_of_thread {i : PartitionId} {t : Thread M} (ht : machine.threads[i]? = some t) :
    (Machine.system M).note machine i = noteAt i t.dispatch? := by
  show noteAt i (machine.threads[i]?.bind Thread.dispatch?) = _
  rw [ht, Option.bind_some]

theorem mem_note_of_thread {i : PartitionId} {t : Thread M} (ht : machine.threads[i]? = some t)
    {d : Dispatch M} (hd : t.dispatch? = some d) :
    (i, d) ∈ (Machine.system M).note machine i := by
  rw [note_of_thread ht]
  exact mem_noteAt.mpr ⟨rfl, hd⟩

/-- Local time never goes back. -/
theorem Reaches.now_le (hb : b.Made log) (hbuild : b.build = .ok simulation)
    (h : simulation.Reaches trace machine) (hexact : ∀ entry ∈ trace, entry.2.Exact)
    {schedule : List PartitionId} {later : List (PartitionId × Dispatch M)} {final : Machine M}
    (hrun : (Machine.system M).Run machine schedule later final)
    (hlater : ∀ entry ∈ later, entry.2.Exact) {i : PartitionId}
    {t' : Thread M} (ht' : final.threads[i]? = some t') :
    ∃ t, machine.threads[i]? = some t ∧ t.partition.timeline.now ≤ t'.partition.timeline.now := by
  induction hrun generalizing t' with
  | refl => exact ⟨t', ht', Time.le_refl _⟩
  | @step schedule later x y j hrun hstep ih =>
    have hreaches : simulation.Reaches (trace ++ later) x := by
      obtain ⟨before, hbefore⟩ := h
      exact ⟨before ++ schedule, hbefore.trans hrun⟩
    have hbefore : ∀ entry ∈ later, entry.2.Exact :=
      fun entry hentry => hlater entry (List.mem_append_left _ hentry)
    obtain ⟨t, ht, hcase⟩ := Machine.thread_of_step hstep ht'
    obtain ⟨t₀, ht₀, hle⟩ := ih hbefore ht
    refine ⟨t₀, ht₀, Time.le_trans hle ?_⟩
    rcases hcase with ⟨rfl, _⟩ | ⟨rfl, shared, hthread⟩
    · exact Time.le_refl _
    · have hall : ∀ entry ∈ trace ++ later, entry.2.Exact :=
        fun entry hentry => (List.mem_append.mp hentry).elim (hexact entry) (hbefore entry)
      have hnext : ∀ d, t.dispatch? = some d → d.Exact :=
        fun d hd => hlater (j, d) (List.mem_append_right _ (mem_note_of_thread ht hd))
      exact (hreaches.movesOn hb hbuild hall ht hnext hthread).now_le

theorem Reaches.dispatches_in_order (hb : b.Made log) (hbuild : b.build = .ok simulation)
    (h : simulation.Reaches trace machine) (hexact : ∀ entry ∈ trace, entry.2.Exact)
    (j : PartitionId) :
    (System.seenOf j trace).Pairwise (fun d e => d.activity.time ≤ e.activity.time) ∧
      ∀ t, machine.threads[j]? = some t →
        ∀ d ∈ System.seenOf j trace, d.activity.time ≤ t.partition.timeline.now := by
  obtain ⟨schedule, hrun⟩ := h
  induction hrun with
  | refl => exact ⟨List.Pairwise.nil, by simp⟩
  | @step schedule trace x y i hrun hstep ih =>
    have hearly : ∀ entry ∈ trace, entry.2.Exact :=
      fun entry hentry => hexact entry (List.mem_append_left _ hentry)
    obtain ⟨hpairwise, hbefore⟩ := ih hearly
    have hreaches : simulation.Reaches trace x := ⟨schedule, hrun⟩
    obtain ⟨t, shared, t', ht, hthread, hy⟩ := Machine.step?_eq_some_iff.mp hstep
    have hnote := note_of_thread ht
    have hnext : ∀ d, t.dispatch? = some d → d.Exact :=
      fun d hd => hexact (i, d) (List.mem_append_right _ (mem_note_of_thread ht hd))
    have hmoves := hreaches.movesOn hb hbuild hearly ht hnext hthread
    have hkept : ∀ u, y.threads[j]? = some u →
        ∀ d ∈ System.seenOf j trace, d.activity.time ≤ u.partition.timeline.now := by
      intro u hu d hd
      obtain ⟨u', hu', hcase⟩ := Machine.thread_of_step hstep hu
      refine Time.le_trans (hbefore u' hu' d hd) ?_
      rcases hcase with ⟨rfl, _⟩ | ⟨rfl, _, hthread'⟩
      · exact Time.le_refl _
      · rw [ht] at hu'
        cases hu'
        rw [hthread] at hthread'
        cases hthread'
        exact hmoves.now_le
    rw [System.seenOf_append, hnote]
    cases hdispatch : t.dispatch? with
    | none =>
      have hnothing : System.seenOf j (noteAt i (none : Option (Dispatch M))) = [] := rfl
      rw [hnothing, List.append_nil]
      exact ⟨hpairwise, hkept⟩
    | some d =>
      by_cases hij : i = j
      · subst hij
        obtain ⟨hnow, p, rfl, hnext⟩ := Thread.now_of_dispatch hdispatch hthread
        rw [seenOf_noteAt_self]
        have hlast : ∀ e ∈ System.seenOf i trace, e.activity.time ≤ d.activity.time := by
          intro e he
          rw [← hnow]
          exact Time.le_trans (hbefore _ ht e he) hmoves.now_le
        refine ⟨List.pairwise_append.mpr ⟨hpairwise, List.pairwise_singleton _ _, ?_⟩, ?_⟩
        · intro e he d' hd'
          obtain rfl := List.mem_singleton.mp hd'
          exact hlast e he
        · intro u hu e he
          rcases List.mem_append.mp he with he | he
          · exact hkept u hu e he
          · obtain rfl := List.mem_singleton.mp he
            have hu' : (x.threads.set i t')[i]? = some u := by
              rw [hy] at hu
              exact hu
            rw [getElem?_set_of_some ht] at hu'
            cases hu'
            rw [hnow]
            exact Time.le_refl _
      · rw [seenOf_noteAt_of_ne hij, List.append_nil]
        exact ⟨hpairwise, hkept⟩

/-- In whatever state a run gets to without an overflow in the scheduling of clocks, nothing that
waits to be handed over is due before the next meeting, a hand-over puts nothing off, and every next
step of a thread moves its timeline on. So local times never go back, and every partition makes its
dispatches in the order of time. -/
theorem causality (hb : b.Made log) (hbuild : b.build = .ok simulation)
    (h : simulation.Reaches trace machine) (hexact : ∀ entry ∈ trace, entry.2.Exact) :
    (∀ t ∈ machine.threads, ∀ p, t.timed? = some p → p.HoldsFrom p.member.nextSync) ∧
    (∀ p round, Thread.syncing .timed p round ∈ machine.threads →
      ∀ box ∈ p.member.outbound, ∀ a ∈ box.activities,
        p.timeline.now ≤ a.time ∧ a.notBefore (round.horizon p.timeline) = a) ∧
    (∀ t ∈ machine.threads, (∀ d, t.dispatch? = some d → d.Exact) →
      ∀ shared t', t.step? machine.shared = some (shared, t') →
        t.partition.timeline.MovesOn t'.partition.timeline) ∧
    (∀ schedule later final, (Machine.system M).Run machine schedule later final →
      (∀ entry ∈ later, entry.2.Exact) → ∀ (i : Nat) (t t' : Thread M),
        machine.threads[i]? = some t → final.threads[i]? = some t' →
        t.partition.timeline.now ≤ t'.partition.timeline.now) ∧
    (∀ j, (System.seenOf j trace).Pairwise fun d e => d.activity.time ≤ e.activity.time) := by
  obtain ⟨cohort, m, htracks, hagrees⟩ := h.agrees hb hbuild hexact
  refine ⟨?_, ?_, ?_, ?_, ?_⟩
  · intro t hmem p htimed
    obtain ⟨i, hi⟩ := List.mem_iff_getElem?.mp hmem
    cases t with
    | running work q =>
      cases work with
      | timed =>
        cases htimed
        exact htracks.holdsFrom_running hagrees trivial hi
      | init phase => cases htimed
      | complete phase stop => cases htimed
    | syncing work q round =>
      cases work with
      | timed =>
        cases htimed
        exact (htracks.holdsFrom_syncing hagrees trivial hi).1
      | init phase => cases htimed
      | complete phase stop => cases htimed
    | aborting gate e q => cases htimed
    | ended result q => cases htimed
  · intro p round hmem box hbox a ha
    obtain ⟨i, hi⟩ := List.mem_iff_getElem?.mp hmem
    have hle := (htracks.holdsFrom_syncing hagrees trivial hi).2 box hbox a ha
    exact ⟨hle, Round.notBefore_horizon hle⟩
  · intro t hmem hnext shared t' hstep
    obtain ⟨i, hi⟩ := List.mem_iff_getElem?.mp hmem
    exact htracks.movesOn hagrees trivial hi hnext hstep
  · intro schedule later final hrun hlater i t t' ht ht'
    obtain ⟨t₀, ht₀, hle⟩ := h.now_le hb hbuild hexact hrun hlater ht'
    rw [ht] at ht₀
    cases ht₀
    exact hle
  · intro j
    exact (h.dispatches_in_order hb hbuild hexact j).1

/-- After the first dispatch of a relay the token waits to be handed over, and not for too long. -/
theorem causality_relay : ∃ trace machine, (Relay.simulation 1 2 2).Reaches trace machine ∧
    (∀ entry ∈ trace, entry.2.Exact) ∧
    (∃ t ∈ machine.threads, ∃ p, t.timed? = some p ∧
      ∃ box ∈ p.member.outbound, ∃ a ∈ box.activities, a.time = p.member.nextSync) ∧
    (∀ t ∈ machine.threads, ∀ p, t.timed? = some p → p.HoldsFrom p.member.nextSync) ∧
    (∀ p round, Thread.syncing .timed p round ∈ machine.threads →
      ∀ box ∈ p.member.outbound, ∀ a ∈ box.activities,
        p.timeline.now ≤ a.time ∧ a.notBefore (round.horizon p.timeline) = a) ∧
    (∀ t ∈ machine.threads, ∀ shared t', t.step? machine.shared = some (shared, t') →
      t.partition.timeline.MovesOn t'.partition.timeline) ∧
    (∀ schedule later final, (Machine.system _).Run machine schedule later final →
      ∀ (i : Nat) (t t' : Thread _), machine.threads[i]? = some t → final.threads[i]? = some t' →
        t.partition.timeline.now ≤ t'.partition.timeline.now) ∧
    (∀ j, (System.seenOf j trace).Pairwise fun d e => d.activity.time ≤ e.activity.time) := by
  have h := Relay.reaches_run (Relay.simulation 1 2 2) [0]
  have hexact : ∀ d : Dispatch Ring.model, d.Exact := Dispatch.exact_of_panics rfl
  obtain ⟨hholds, hkept, hmoves, hgoes, horder⟩ :=
    causality (Relay.made 1 2) (Relay.build_eq 1 2) h fun entry _ => hexact entry.2
  refine ⟨_, _, h, fun entry _ => hexact entry.2, ?_, hholds, hkept,
    fun t ht => hmoves t ht fun d _ => hexact d,
    fun schedule later final hrun => hgoes schedule later final hrun fun entry _ => hexact entry.2,
    horder⟩
  exact ⟨_, List.mem_cons_self .., _, rfl, _, List.mem_cons_of_mem _ (List.mem_cons_self ..), _,
    List.mem_cons_self .., rfl⟩

end Simulation

end Lookahead
