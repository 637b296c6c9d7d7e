import Lookahead.Proofs.Gates
import Lookahead.Proofs.Meeting

/-!
How far the partitions of a run have come.

In a cohort everyone has concluded the same rounds, because everyone is ready for a round of the
same kind when it takes place (`Cohort.Agrees.convened`). A thread may be one round behind the
cohort, so it is where the cohort was at some time: what the partitions have gone through is one
course for all of them (`Simulation.Reaches.onCourse`).
-/

namespace Lookahead

variable {M : Model}

/-! ## Courses -/

/-- How far the partitions had come after each round, the latest first. -/
inductive Pace.Course : List Pace → Prop
  | start (pace : Pace) (h : pace.rounds = 0) : Course [pace]
  | next {pace : Pace} {past : List Pace} (epoch : Bool) (meeting : Time)
      (h : Course (pace :: past)) : Course (pace.next epoch meeting :: pace :: past)

namespace Pace.Course

variable {a b now : Pace} {past course : List Pace}

theorem le_now (h : Course (now :: past)) (ha : a ∈ past) :
    a.rounds < now.rounds ∧ a.epochs ≤ now.epochs := by
  generalize hcourse : now :: past = course at h
  induction h generalizing now past with
  | start pace h =>
    cases hcourse
    cases ha
  | @next pace past' epoch meeting h ih =>
    cases hcourse
    have hhead : pace.rounds < (pace.next epoch meeting).rounds ∧
        pace.epochs ≤ (pace.next epoch meeting).epochs := by
      refine ⟨by rw [rounds_next]; omega, ?_⟩
      cases epoch <;> simp [Pace.next]
    rcases List.mem_cons.mp ha with rfl | ha
    · exact hhead
    · obtain ⟨hrounds, hepochs⟩ := ih ha rfl
      omega

/-- After as many rounds everyone had come equally far. -/
theorem eq_of_rounds (h : Course course) (ha : a ∈ course) (hb : b ∈ course)
    (hrounds : a.rounds = b.rounds) : a = b := by
  induction h with
  | start pace h =>
    rw [List.mem_singleton] at ha hb
    rw [ha, hb]
  | @next pace past epoch meeting h ih =>
    have hcourse := Course.next epoch meeting h
    rcases List.mem_cons.mp ha with rfl | ha <;> rcases List.mem_cons.mp hb with rfl | hb
    · rfl
    · have := (hcourse.le_now hb).1
      omega
    · have := (hcourse.le_now ha).1
      omega
    · exact ih ha hb

/-- After as many epochs everyone had the same next meeting. -/
theorem nextSync_eq (h : Course course) (ha : a ∈ course) (hb : b ∈ course)
    (hepochs : a.epochs = b.epochs) : a.nextSync = b.nextSync := by
  induction h generalizing a b with
  | start pace h =>
    rw [List.mem_singleton] at ha hb
    rw [ha, hb]
  | @next pace past epoch meeting h ih =>
    -- What came before an epoch has fewer epochs, and an untimed round leaves the meeting alone.
    have hlatest : ∀ {c : Pace}, c ∈ pace :: past →
        c.epochs = (pace.next epoch meeting).epochs →
          c.nextSync = (pace.next epoch meeting).nextSync := by
      intro c hc heq
      have hle : c.epochs ≤ pace.epochs := by
        rcases List.mem_cons.mp hc with rfl | hc
        · exact Nat.le_refl _
        · exact (h.le_now hc).2
      cases epoch with
      | true =>
        simp only [Pace.next, ↓reduceIte] at heq
        omega
      | false =>
        show c.nextSync = pace.nextSync
        exact ih hc (List.mem_cons_self ..) heq
    rcases List.mem_cons.mp ha with rfl | ha <;> rcases List.mem_cons.mp hb with rfl | hb
    · rfl
    · exact (hlatest hb hepochs.symm).symm
    · exact hlatest ha hepochs
    · exact ih ha hb hepochs

end Pace.Course

/-! ## What everyone is ready for -/

/-- Everyone is ready for the same: a round of the first stage, a meeting, or a round of the last
stage. -/
inductive Party.Convened (S : Setting) (parties : List (Party M)) : Prop
  | init (phase : Nat) (h : ∀ q ∈ parties, ∃ p own, q = ⟨.init phase, p, .untimed own⟩)
  | meeting (least : Time) (hstays : ¬ S.Leaves least)
      (h : ∀ q ∈ parties, ∃ p, q = ⟨.timed, p, .epoch⟩ ∧ p.Meets S least)
  | complete (phase : Nat)
      (h : ∀ q ∈ parties, ∃ stop p own, q = ⟨.complete phase stop, p, .untimed own⟩)

theorem Cohort.Agrees.convened {parties : List (Party M)} {S : Setting} {m : Moment}
    (h : Cohort.Agrees (parties.map Stance.ready) S m) (hne : parties ≠ []) :
    Party.Convened S parties := by
  have hparty : ∀ q ∈ parties, Fits S m (.ready q) := fun q hq => h.fits_mem hq
  cases m with
  | init phase =>
    refine .init phase fun q hq => ?_
    obtain ⟨p, own, rfl, _⟩ := (hparty q hq).ready_init
    exact ⟨p, own, rfl⟩
  | complete phase =>
    refine .complete phase fun q hq => ?_
    obtain ⟨stop, p, own, rfl, _⟩ := (hparty q hq).ready_complete
    exact ⟨stop, p, own, rfl⟩
  | finished =>
    obtain ⟨q, hq⟩ := List.exists_mem_of_ne_nil parties hne
    cases hparty q hq
  | timed least =>
    by_cases hleaves : S.Leaves least
    · refine .complete 0 fun q hq => ?_
      rcases (hparty q hq).ready_timed with ⟨hstays, _⟩ | ⟨_, stop, p, own, rfl, _⟩
      · exact absurd hleaves hstays
      · exact ⟨stop, p, own, rfl⟩
    · refine .meeting least hleaves fun q hq => ?_
      rcases (hparty q hq).ready_timed with ⟨_, hwork, hkind, hmeets, _⟩ | ⟨hleft, _⟩
      · obtain ⟨work, p, kind⟩ := q
        cases hwork
        cases hkind
        exact ⟨p, rfl, hmeets⟩
      · exact absurd hleft hleaves

theorem Party.Convened.isEpoch_eq {S : Setting} {parties : List (Party M)}
    (h : Convened S parties) : ∃ epoch, ∀ q ∈ parties, q.kind.isEpoch = epoch := by
  cases h with
  | init phase h =>
    refine ⟨false, fun q hq => ?_⟩
    obtain ⟨p, own, rfl⟩ := h q hq
    rfl
  | meeting least hstays h =>
    refine ⟨true, fun q hq => ?_⟩
    obtain ⟨p, rfl, _⟩ := h q hq
    rfl
  | complete phase h =>
    refine ⟨false, fun q hq => ?_⟩
    obtain ⟨stop, p, own, rfl⟩ := h q hq
    rfl

/-! ## Concluding a round -/

namespace Party

variable {q : Party M} {incoming : List (Scheduled M.Payload)} {least : Time}

theorem pace_handed (q : Party M) : q.handed.pace = q.partition.pace := by
  obtain ⟨work, p, kind⟩ := q
  cases kind <;> rfl

theorem pace_taken (q : Party M) (incoming : List (Scheduled M.Payload)) :
    (q.taken incoming).pace = q.partition.pace := by
  obtain ⟨work, p, kind⟩ := q
  cases kind <;> rfl

theorem kind_roundTaken (q : Party M) (incoming : List (Scheduled M.Payload)) :
    (q.roundTaken incoming).kind = q.kind := by
  unfold roundTaken
  split <;> rfl

/-- The next meeting after a round, which is the old one if nothing is left to do. -/
def meeting (q : Party M) (least : Time) : Time :=
  if least = Time.never then q.partition.pace.nextSync
  else Seat.nextMeeting least q.partition.member.window

/-- Whoever concludes a round has come one round further. -/
theorem pace_conclude (q : Party M) (incoming : List (Scheduled M.Payload)) (least : Time) :
    (q.conclude incoming least).pace =
      q.partition.pace.next q.kind.isEpoch (q.meeting least) := by
  have hwindow := (Partition.Like.taken q incoming).window
  have hpace := pace_taken q incoming
  unfold conclude
  cases hkind : q.kind with
  | epoch =>
    by_cases hleast : least = Time.never
    · simp only [hleast, ↓reduceIte]
      rw [Thread.pace_finishTimed, ← hpace, meeting, if_pos rfl, ← hpace]
      rfl
    · simp only [hleast, ↓reduceIte]
      rw [meeting, if_neg hleast, ← hpace, hwindow]
      rfl
  | untimed own =>
    dsimp only
    rw [Thread.pace_afterRound, ← hpace]
    rfl

end Party

theorem Thread.partition_stance_pace (t : Thread M) : t.stance.partition.pace = t.pace := by
  cases t with
  | ended result p => cases result <;> rfl
  | _ => rfl

theorem Party.next_of_conclude (q : Party M) {incoming : List (Scheduled M.Payload)} {least : Time}
    {now : Pace} (h : (q.conclude incoming least).stance.partition.pace = now) :
    ∃ meeting, now =
      (q.taken incoming).pace.next (q.roundTaken incoming).kind.isEpoch meeting := by
  rw [Thread.partition_stance_pace, pace_conclude] at h
  exact ⟨_, by rw [kind_roundTaken, pace_taken, h]⟩

/-! ## Cohorts -/

namespace Cohort

def At (cohort : Cohort M) (pace : Pace) : Prop := ∀ (i : Nat) (s : Stance M),
  cohort[i]? = some s → s.partition.pace = pace

variable {cohort next : Cohort M} {S : Setting} {m : Moment} {now : Pace} {past : List Pace}

theorem At.work {i : PartitionId} (h : cohort.At now)
    (hstep : cohort.step? (some i) = some next) : next.At now := by
  obtain ⟨work, p, hi, rfl⟩ := step?_some_iff.mp hstep
  have hkeep : ∀ (j : Nat) (s : Stance M),
      (cohort.set i (Thread.workOn work p).stance)[j]? = some s → s.partition.pace = now := by
    refine forall_set (fun j s _ hs => h j s hs) ?_
    rw [Thread.partition_stance_pace, Thread.pace_workOn]
    exact h i _ hi
  exact hkeep

/-- With an exchange everyone comes one round further. -/
theorem At.exchange {parties : List (Party M)} (hne : parties ≠ [])
    (hagrees : Cohort.Agrees (parties.map Stance.ready) S m)
    (hconforms : Cohort.Conforms (parties.map Stance.ready) S)
    (h : Cohort.At (parties.map Stance.ready) now) :
    ∃ epoch meeting, (∀ q ∈ parties, q.kind.isEpoch = epoch) ∧
      (exchanged parties).At (now.next epoch meeting) := by
  obtain ⟨epoch, hepoch⟩ := (hagrees.convened hne).isEpoch_eq
  refine ⟨epoch, if Party.least parties = Time.never then now.nextSync
    else Seat.nextMeeting (Party.least parties) S.window, hepoch, ?_⟩
  intro j s hs
  obtain ⟨q, hq, rfl⟩ := Cohort.getElem?_exchanged hs
  have hpace : q.partition.pace = now :=
    h j (.ready q) (Cohort.getElem?_ready hq)
  have hwindow := (Agrees.conforms_party hconforms hq).window
  rw [Thread.partition_stance_pace, Party.pace_conclude, hpace,
    hepoch q (List.mem_of_getElem? hq), Party.meeting, hpace, hwindow]

theorem At.run {b : Builder M} {log : List (Planned M.Payload)} {simulation : Simulation M}
    (hb : b.Made log) (hbuild : b.build = .ok simulation)
    {labels more : List (Option PartitionId)} {trace seen : List (PartitionId × Dispatch M)}
    (hrun : (Cohort.system M).Run simulation.cohort labels trace cohort)
    (hmore : (Cohort.system M).Run cohort more seen next) (h : cohort.At now)
    (hcourse : Pace.Course (now :: past)) :
    ∃ now' past', next.At now' ∧ Pace.Course (now' :: past') ∧
      (now :: past) <:+ (now' :: past') := by
  induction hmore with
  | refl => exact ⟨now, past, h, hcourse, List.suffix_refl _⟩
  | @step labels seen x y label hfront hstep ih =>
    obtain ⟨now', past', hat, hcourse', hsuffix⟩ := ih
    cases label with
    | some i => exact ⟨now', past', hat.work hstep, hcourse', hsuffix⟩
    | none =>
      obtain ⟨parties, hne, rfl, rfl⟩ := exchange?_eq_some_iff.mp hstep
      obtain ⟨hconforms, m, hagrees⟩ := Simulation.agrees_run hb hbuild (hrun.trans hfront)
      obtain ⟨epoch, meeting, _, hexchanged⟩ := hat.exchange hne hagrees hconforms
      exact ⟨_, now' :: past', hexchanged, .next epoch meeting hcourse',
        hsuffix.trans (List.suffix_cons ..)⟩

end Cohort

/-! ## Threads -/

namespace Tracks

variable {machine : Machine M} {cohort : Cohort M} {i : Nat} {t : Thread M}

/-- Whoever has nothing left to do in a round is where the cohort says. -/
theorem partition_of_afresh (h : Tracks machine cohort) (ht : machine.threads[i]? = some t)
    (hafresh : t.Afresh) : ∃ s, cohort[i]? = some s ∧ s.partition = t.partition := by
  cases h with
  | gathering rounds h =>
    obtain ⟨s, hs, hgathers⟩ := h.stands i t ht
    refine ⟨s, hs, ?_⟩
    cases hgathers with
    | released q incoming generation hne =>
      generalize hround : (q.roundTaken incoming).moveTo (.waiting .published generation) = round
        at hafresh
      cases hafresh
      cases hround
    | reading q incoming slot least =>
      generalize hround : (q.roundTaken incoming).moveTo (.reading slot least) = round at hafresh
      cases hafresh
      cases hround
    | _ => rfl
  | handing rounds parties hne hready h =>
    obtain ⟨q, hq, hhands⟩ := h.stands i t ht
    subst hready
    refine ⟨.ready q, Cohort.getElem?_ready hq, ?_⟩
    cases hhands <;> first | rfl | cases hafresh
  | taking rounds parties hne hready h =>
    obtain ⟨q, _, _, hq, _, _, htakes⟩ := h.stands i t ht
    cases htakes <;> cases hafresh

/-- A thread is where the cohort is, or it has yet to conclude the last round of the cohort. -/
theorem pace_eq_or_lags (h : Tracks machine cohort) {now : Pace} (hat : cohort.At now)
    (ht : machine.threads[i]? = some t) :
    t.pace = now ∨ ∃ work p round meeting, t = .syncing work p round ∧ 2 ≤ round.position.gates ∧
      now = p.pace.next round.kind.isEpoch meeting := by
  cases h with
  | gathering rounds h =>
    obtain ⟨s, hs, hgathers⟩ := h.stands i t ht
    have hpace := hat i s hs
    cases hgathers with
    | released q incoming generation hne =>
      obtain ⟨meeting, hnow⟩ := q.next_of_conclude hpace
      exact Or.inr ⟨_, _, _, meeting, rfl, Nat.le_refl _, hnow⟩
    | reading q incoming slot least =>
      obtain ⟨meeting, hnow⟩ := q.next_of_conclude hpace
      exact Or.inr ⟨_, _, _, meeting, rfl, Nat.le_succ _, hnow⟩
    | _ => exact Or.inl hpace
  | handing rounds parties hne hready h =>
    subst hready
    obtain ⟨q, hq, hhands⟩ := h.stands i t ht
    have hpace : q.partition.pace = now := hat i (.ready q) (Cohort.getElem?_ready hq)
    refine Or.inl ?_
    cases hhands with
    | released q generation hne => exact hpace
    | handing q d => exact hpace
    | entering q => exact q.pace_handed.trans hpace
    | waiting q => exact q.pace_handed.trans hpace
  | taking rounds parties hne hready h =>
    subst hready
    obtain ⟨q, _, _, hq, _, _, htakes⟩ := h.stands i t ht
    have hpace : q.partition.pace = now := hat i (.ready q) (Cohort.getElem?_ready hq)
    refine Or.inl ?_
    cases htakes with
    | released q batches slot generation hne hbrought => exact q.pace_handed.trans hpace
    | collecting q batches slot got hbrought => exact q.pace_handed.trans hpace
    | publishing q slot => exact (Party.pace_taken ..).trans hpace
    | entering q => exact (Party.pace_taken ..).trans hpace
    | waiting q => exact (Party.pace_taken ..).trans hpace

end Tracks

structure Machine.OnCourse (machine : Machine M) (cohort : Cohort M) (now : Pace)
    (past : List Pace) : Prop where
  course : Pace.Course (now :: past)
  at_now : cohort.At now
  threads : ∀ (i : Nat) (t : Thread M), machine.threads[i]? = some t → t.pace ∈ now :: past

/-- Only the end of a round brings a thread further, and then it is where the cohort is. -/
theorem Machine.OnCourse.step {machine next : Machine M} {cohort cohort' : Cohort M}
    {now now' : Pace} {past past' : List Pace} {i : Nat} (h : machine.OnCourse cohort now past)
    (hstep : machine.step? i = some next) (hnext : Tracks next cohort') (hat : cohort'.At now')
    (hcourse : Pace.Course (now' :: past')) (hsuffix : (now :: past) <:+ (now' :: past')) :
    next.OnCourse cohort' now' past' := by
  refine ⟨hcourse, hat, ?_⟩
  obtain ⟨t, shared, t', ht, hmoves, rfl⟩ := moves_of_step? hstep
  have hkept : t'.pace = t.pace ∨ t'.Afresh := by
    cases hmoves with
    | work work p => exact Or.inl (Thread.pace_workOn work p)
    | arrive work p round gate hposition =>
      cases (machine.shared.barrier gate).arrive.2 <;> exact Or.inl rfl
    | look work p round gate generation hposition =>
      cases (machine.shared.barrier gate).look generation <;> exact Or.inl rfl
    | goes work p q round next _ hbarriers hpace => exact Or.inl hpace
    | lost work p q round target box batch hpace => exact Or.inl hpace
    | conclude work p round slot least _ meeting hposition hafresh => exact Or.inr hafresh
    | abort gate e p _ htarget =>
      rw [htarget]
      cases gate <;> exact Or.inl rfl
  show ∀ (j : Nat) (u : Thread M), (machine.threads.set i t')[j]? = some u → _
  refine forall_set (fun j u _ hu => hsuffix.subset (h.threads j u hu)) ?_
  rcases hkept with hsame | hafresh
  · rw [hsame]
    exact hsuffix.subset (h.threads i t ht)
  · obtain ⟨s, hs, hpartition⟩ :=
      hnext.partition_of_afresh (getElem?_set_of_some ht) hafresh
    have hpace := hat i s hs
    rw [hpartition] at hpace
    exact List.mem_cons.mpr (Or.inl hpace)

namespace Simulation

variable {b : Builder M} {log : List (Planned M.Payload)} {simulation : Simulation M}
  {trace : List (PartitionId × Dispatch M)} {machine : Machine M}

theorem onCourse_start (hb : b.Made log) (hbuild : b.build = .ok simulation) :
    simulation.machine.OnCourse simulation.cohort ⟨0, 0, Time.ofNat simulation.window⟩ [] := by
  refine ⟨.start _ rfl, ?_, ?_⟩
  · intro i s hs
    obtain ⟨p, hp, rfl⟩ := exists_stance_start hs
    have ht : simulation.machine.threads[i]? = some (Thread.start p) := by
      show (simulation.partitions.map Thread.start)[i]? = _
      rw [List.getElem?_map, hp]
      rfl
    exact (pace_start hb hbuild ht).2
  · intro i t ht
    rw [(pace_start hb hbuild ht).2]
    exact List.mem_cons_self ..

/-- After a step the course is the same or has gone on. -/
theorem onCourse_step (hb : b.Made log) (hbuild : b.build = .ok simulation) {x y : Machine M}
    {cohort next : Cohort M} {labels more : List (Option PartitionId)}
    {seen : List (PartitionId × Dispatch M)} {i : PartitionId} {now : Pace} {past : List Pace}
    (hrun : (Cohort.system M).Run simulation.cohort labels trace cohort)
    (hx : x.OnCourse cohort now past) (hstep : x.step? i = some y)
    (hmore : (Cohort.system M).Run cohort more seen next) (hnext : Tracks y next) :
    ∃ now' past', y.OnCourse next now' past' ∧ (now :: past) <:+ (now' :: past') := by
  obtain ⟨now', past', hat, hcourse, hsuffix⟩ := hx.at_now.run hb hbuild hrun hmore hx.course
  exact ⟨now', past', hx.step hstep hnext hat hcourse hsuffix, hsuffix⟩

/-- Wherever a run gets to, all partitions are on one course. -/
theorem Reaches.onCourse (hb : b.Made log) (hbuild : b.build = .ok simulation)
    (h : simulation.Reaches trace machine) :
    ∃ labels seen cohort now past, (Cohort.system M).Run simulation.cohort labels seen cohort ∧
      Tracks machine cohort ∧ machine.OnCourse cohort now past := by
  obtain ⟨schedule, hrun⟩ := h
  obtain ⟨labels, seen, cohort, hrun, htracks, _, now, past, hcourse⟩ :=
    follow (P := fun _ x cohort => ∃ now past, x.OnCourse cohort now past) rfl hb hbuild
      ⟨_, _, onCourse_start hb hbuild⟩ (by
        rintro _ x y cohort next labels more trace seen i hrun _ ⟨now, past, hx⟩ hstep hmore hnext
        obtain ⟨now', past', hy, _⟩ := onCourse_step hb hbuild hrun hx hstep hmore hnext
        exact ⟨now', past', hy⟩) hrun
  exact ⟨labels, seen, cohort, now, past, hrun, htracks, hcourse⟩

end Simulation

end Lookahead
