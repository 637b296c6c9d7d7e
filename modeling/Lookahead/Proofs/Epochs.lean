import Lookahead.Proofs.Attendance
import Lookahead.Proofs.Course
import Lookahead.Proofs.Determinacy
import Lookahead.Proofs.Relay

/-!
How often partitions meet.

A meeting takes place one window after the least instant at which anything was pending. So meetings
follow each other at least a window apart, and whatever was due at that instant is dispatched before
the next meeting, unless everyone stops before (`Cohort.Owing`). That is why no meeting is in vain:
there are at most as many as there were events and cycles of clocks, and one more
(`Simulation.meets_for_work`).
-/

namespace Lookahead

variable {M : Model}

/-! ## All partitions -/

namespace Cohort

/-- What has to happen before the next meeting: everyone stops, or someone has something to do that
is due earlier. -/
inductive Owing (cohort : Cohort M) (S : Setting) : Prop
  | stops (h : ∀ (j : Nat) (s : Stance M) (p : Partition M), cohort[j]? = some s →
      s.timed? = some p → ∃ time, S.stopAt = some time ∧ time ≤ p.member.nextSync)
  | works (j : Nat) (p : Partition M) (a : Scheduled M.Payload)
      (hj : cohort[j]? = some (.running .timed p)) (ha : a ∈ p.timeline.agenda)
      (hwork : a.payload.isWork = true) (hdue : a.time < p.member.nextSync)

/-- How the partitions stand when the meetings took place at these times. -/
structure OnSchedule (cohort : Cohort M) (S : Setting) (times : List Time)
    (trace : List (PartitionId × Dispatch M)) : Prop where
  each : ∀ (j : Nat) (s : Stance M), cohort[j]? = some s →
    s.OnSchedule S.window times (System.seenOf j trace)
  rising : times.Pairwise (· < ·)
  late : ∀ (k : Nat) (t : Time), times[k]? = some t → Time.ofNat ((k + 1) * S.window) ≤ t
  busy : ∀ k, 1 ≤ k → k < times.length → Busy k trace
  few : times.length ≤ 1 + labour trace
  current : times = [] ∨ (Busy times.length trace ∧ times.length ≤ labour trace) ∨
    cohort.Owing S

namespace OnSchedule

variable {cohort next : Cohort M} {S : Setting} {m : Moment} {times : List Time}
  {trace : List (PartitionId × Dispatch M)} {i : Nat} {work : Work} {p : Partition M}
  {parties : List (Party M)}

/-- Whoever is in the timed run goes to one and the same meeting. -/
theorem nextSync_of_timed? {s : Stance M} {q : Partition M} (h : Fits S m (.running .timed p))
    (hs : Fits S m s) (hq : s.timed? = some q) : q.member.nextSync = p.member.nextSync := by
  cases h with
  | running least p hontime hbuffers =>
    rw [hontime.nextSync]
    cases hs with
    | running _ q' hq' hbuffers' =>
      cases hq
      exact hq'.nextSync
    | meeting _ q' hmeets hbuffers' =>
      cases hq
      exact hmeets.nextSync
    | _ => cases hq

/-- The one that has something to do dispatches, or it stops and so will everyone. -/
theorem owing_of_dispatch {d : Dispatch M} {a : Scheduled M.Payload} {least : Time}
    (h : cohort.OnSchedule S times trace) (hagrees : cohort.Agrees S m)
    (hmany : 1 < S.partitions) (hi : cohort[i]? = some (.running .timed p))
    (hontime : p.OnTime S least) (hnext : p.next? = some d) (ha : a ∈ p.timeline.agenda)
    (hdue : a.time < p.member.nextSync) :
    (Busy times.length (trace ++ noteAt i (some d)) ∧
      times.length ≤ labour (trace ++ noteAt i (some d))) ∨
    Owing (cohort.set i (Thread.workOn .timed p).stance) S := by
  have hfirst : d.activity.time ≤ a.time := by
    rw [(Partition.agenda_of_next? hnext).1] at ha
    rcases List.mem_cons.mp ha with rfl | ha
    · exact Time.le_refl _
    · exact Activity.time_le_of_not_before
        (hontime.order.head_not_after (Partition.agenda_of_next? hnext).1 a ha)
  have hworked : d.isWork = true →
      Busy times.length (trace ++ noteAt i (some d)) ∧
        times.length ≤ labour (trace ++ noteAt i (some d)) := by
    intro hwork
    have hmeetings : meetings (System.seenOf i trace) = times := (h.each i _ hi).meetings
    refine ⟨⟨i, System.seenOf i trace, d, [], ?_, hwork, by rw [hmeetings]⟩, ?_⟩
    · rw [System.seenOf_append, seenOf_noteAt_self]
      rfl
    · have hone : labour (noteAt i (some d)) = 1 := by simp [labour_noteAt, hwork]
      rw [labour_append, hone]
      exact (Nat.add_comm 1 _) ▸ h.few
  cases hd : d.activity.payload with
  | deliver event => exact Or.inl (hworked (by simp [Dispatch.isWork, hd, Action.isWork]))
  | clock id => exact Or.inl (hworked (by simp [Dispatch.isWork, hd, Action.isWork]))
  | sync =>
    rw [(hontime.sync_eq hnext hd).2.1, ← hontime.nextSync] at hfirst
    exact absurd hdue (Time.lt_irrefl_of_le hfirst)
  | stop =>
    have hworkOn : Thread.workOn .timed p = Thread.finishTimed .stopAt d.partition := by
      simp only [Thread.workOn, Thread.dispatch_eq hnext, hd, Partition.act]
    obtain ⟨time, hat, hle⟩ := (hontime.leaves_of_stop hnext hd).1.resolve_left fun h => h hmany
    refine Or.inr (.stops fun k s q hs hq => ⟨time, hat, ?_⟩)
    refine forall_set (P := fun _ s => ∀ q, s.timed? = some q → time ≤ q.member.nextSync)
      (fun j s _ hs q hq => ?_) (fun q hq => ?_) k s hs q hq
    · rw [nextSync_of_timed? (hagrees i _ hi) (hagrees j s hs) hq, hontime.nextSync]
      exact hle
    · rw [hworkOn, Thread.timed?_finishTimed] at hq
      cases hq

/-- What has to happen still has to after a step of one partition, or it has just happened. -/
theorem owing_workOn (h : cohort.OnSchedule S times trace) (hagrees : cohort.Agrees S m)
    (hmany : 1 < S.partitions) (hi : cohort[i]? = some (.running work p))
    (howing : cohort.Owing S) :
    (Busy times.length (trace ++ noteAt i (work.dispatch? p)) ∧
      times.length ≤ labour (trace ++ noteAt i (work.dispatch? p))) ∨
    Owing (cohort.set i (Thread.workOn work p).stance) S := by
  cases howing with
  | stops hstops =>
    refine Or.inr (.stops ?_)
    have hset := forall_set (P := fun _ s => ∀ q, s.timed? = some q →
      ∃ time, S.stopAt = some time ∧ time ≤ q.member.nextSync) (i := i)
      (a := (Thread.workOn work p).stance) (fun j s _ hs q hq => hstops j s q hs hq) ?_
    · exact fun j s q hs hq => hset j s hs q hq
    · intro q hq
      obtain ⟨rfl, hnext⟩ := Thread.timed?_workOn hq
      rw [hnext]
      exact hstops i _ p hi rfl
  | works j q a hj ha hwork hdue =>
    by_cases hij : i = j
    · subst hij
      obtain ⟨rfl, rfl⟩ : work = .timed ∧ p = q := by
        rw [hi] at hj
        cases hj
        exact ⟨rfl, rfl⟩
      obtain ⟨least, hontime⟩ : ∃ least, p.OnTime S least := by
        cases hagrees i _ hi with
        | running least p hontime hbuffers => exact ⟨least, hontime⟩
      cases hnext : p.next? with
      | none => exact absurd hmany (hontime.alone_of_idle hnext)
      | some d =>
        have hdispatch : Work.dispatch? .timed p = some d := hnext
        rw [hdispatch]
        exact owing_of_dispatch h hagrees hmany hi hontime hnext ha hdue
    · refine Or.inr (.works j q a ?_ ha hwork hdue)
      rw [List.getElem?_set_ne hij]
      exact hj

theorem workOn (h : cohort.OnSchedule S times trace) (hagrees : cohort.Agrees S m)
    (hmany : 1 < S.partitions) (hi : cohort[i]? = some (.running work p)) :
    Broken (cohort.set i (Thread.workOn work p).stance) ∨
      OnSchedule (cohort.set i (Thread.workOn work p).stance) S times
        (trace ++ noteAt i (work.dispatch? p)) := by
  rcases Partition.onSchedule_workOn hmany (hagrees i _ hi) (h.each i _ hi) with
    ⟨e, q, hfailed⟩ | hself
  · exact Or.inl (.of_failed (i := i) (e := e) (p := q)
      (by rw [hfailed]; exact getElem?_set_of_some hi))
  refine Or.inr ⟨?_, h.rising, h.late, fun k hk hlt => (h.busy k hk hlt).append _, ?_, ?_⟩
  · exact forall_seen_set (P := fun _ s seen => Stance.OnSchedule S.window times seen s)
      h.each hself
  · rw [labour_append]
    exact Nat.le_trans h.few (by omega)
  · rcases h.current with hnone | ⟨hbusy, hle⟩ | howing
    · exact Or.inl hnone
    · refine Or.inr (Or.inl ⟨hbusy.append _, ?_⟩)
      rw [labour_append]
      exact Nat.le_trans hle (Nat.le_add_right _ _)
    · exact Or.inr (owing_workOn h hagrees hmany hi howing)

/-- Where there is something left to do at a meeting, it is due before the next one. -/
theorem owing_exchanged {least : Time} (hwindow : 1 ≤ S.window)
    (hmeets : ∀ q ∈ parties, ∃ p, q = ⟨.timed, p, .epoch⟩ ∧ p.Meets S least)
    (hincoming : ∀ j, ∀ a ∈ Party.incoming parties j,
      least.after S.window ≤ a.time ∧ a.priority = Priority.event ∧ a.isDelivery = true)
    (hconforms : Cohort.Conforms (parties.map Stance.ready) S) :
    Owing (exchanged parties) S := by
  have hparty : ∀ {j : Nat} {q : Party M}, parties[j]? = some q →
      ∃ p, q = ⟨.timed, p, .epoch⟩ ∧ p.Meets S least ∧ p.Conforms S j := by
    intro j q hq
    obtain ⟨p, rfl, hp⟩ := hmeets q (List.mem_of_getElem? hq)
    exact ⟨p, rfl, hp, Agrees.conforms_party hconforms hq⟩
  by_cases hnever : Party.least parties = Time.never
  · refine .stops fun j s p hs hp => ?_
    obtain ⟨q, hq, rfl⟩ := getElem?_exchanged hs
    obtain ⟨p', rfl, _⟩ := hparty hq
    obtain ⟨_, hstance, _⟩ := Party.conclude_drained p' (Party.incoming parties j)
    rw [hnever, hstance, Thread.timed?_finishTimed] at hp
    cases hp
  · have hresumed : ∀ (j : Nat) (s : Stance M), (exchanged parties)[j]? = some s →
        ∃ q, s = .running .timed q ∧ q.member.nextSync = (Party.least parties).after S.window := by
      intro j s hs
      obtain ⟨q, hq, rfl⟩ := getElem?_exchanged hs
      obtain ⟨p, rfl, _, hp⟩ := hparty hq
      obtain ⟨r, hstance, hnext, _⟩ :=
        Party.conclude_resumed hp (Party.incoming parties j) hnever
      exact ⟨r, hstance, hnext⟩
    have hepoch : ∀ q ∈ parties, q.kind = .epoch := by
      intro q hq
      obtain ⟨p, rfl, _⟩ := hmeets q hq
      rfl
    -- Whoever has the least activity has it to do, unless that is the stop.
    obtain ⟨j, q, hq, a, hmem, hleast⟩ := Party.exists_least hepoch hnever
    obtain ⟨p, rfl, hp, hpconforms⟩ := hparty hq
    have hpending : a ∈ (p.timeline.addAll (Party.incoming parties j)).agenda := hmem
    have htaken := hp.taken (q := ⟨.timed, p, .epoch⟩) rfl (hincoming j)
    rcases htaken.isWork_or_stop hpending with hwork | ⟨time, htime, rfl⟩
    · obtain ⟨r, hstance, hnext, _, _, hkept⟩ :=
        Party.conclude_resumed hpconforms (Party.incoming parties j) hnever
      refine .works j r a ?_ (hkept a hpending) hwork ?_
      · rw [exchanged, List.getElem?_mapIdx, hq]
        exact congrArg some hstance
      · rw [hnext, hleast]
        exact Time.lt_after_of_pos hnever hwindow
    · refine .stops fun k s r hs hr => ⟨time, htime, ?_⟩
      obtain ⟨q, rfl, hq⟩ := hresumed k s hs
      cases hr
      rw [hq, ← hleast]
      exact Time.le_after _ _

/-- Unless everyone is about to stop, what had to happen since the last meeting has happened when
all are at the next one. -/
theorem settled (h : OnSchedule (parties.map Stance.ready) S times trace) {least : Time}
    (hstays : ¬ S.Leaves least) (hfirst : parties[0]? = some ⟨.timed, p, .epoch⟩)
    (hp : p.Meets S least) :
    times = [] ∨ (Busy times.length trace ∧ times.length ≤ labour trace) := by
  rcases h.current with hnone | hbusy | howing
  · exact Or.inl hnone
  · exact Or.inr hbusy
  · cases howing with
    | stops hstops =>
      obtain ⟨time, hat, hle⟩ := hstops 0 _ p (getElem?_ready hfirst) rfl
      rw [hp.nextSync] at hle
      exact absurd (Or.inr ⟨time, hat, hle⟩) hstays
    | works j q a hj =>
      rw [List.getElem?_map] at hj
      obtain ⟨_, _, hq⟩ := Option.map_eq_some_iff.mp hj
      cases hq

/-- At a meeting everyone comes to the next entry of the schedule. -/
theorem meet {least : Time} (h : OnSchedule (parties.map Stance.ready) S times trace)
    (hne : parties ≠ []) (hwindow : 1 ≤ S.window) (hstays : ¬ S.Leaves least)
    (hmeets : ∀ q ∈ parties, ∃ p, q = ⟨.timed, p, .epoch⟩ ∧ p.Meets S least ∧
      p.Buffers S.exact (least.after S.window))
    (hconforms : Cohort.Conforms (parties.map Stance.ready) S) :
    OnSchedule (exchanged parties) S (times ++ [least.after S.window]) trace := by
  have hall : ∀ q ∈ parties, q.kind = .epoch ∧ q.partition.Meets S least ∧
      q.partition.Buffers S.exact (least.after S.window) := by
    intro q hq
    obtain ⟨p, rfl, hp, hbuffers⟩ := hmeets q hq
    exact ⟨rfl, hp, hbuffers⟩
  have hincoming := Party.mem_incoming hall
  have hmeets' : ∀ q ∈ parties, ∃ p, q = ⟨.timed, p, .epoch⟩ ∧ p.Meets S least := by
    intro q hq
    obtain ⟨p, rfl, hp, _⟩ := hmeets q hq
    exact ⟨p, rfl, hp⟩
  obtain ⟨first, rest, rfl⟩ := List.exists_cons_of_ne_nil hne
  obtain ⟨p, rfl, hp, _⟩ := hmeets first (List.mem_cons_self ..)
  obtain ⟨hrising, hlate⟩ := (h.each 0 _ (getElem?_ready rfl)).ahead rfl
  have hcurrent := h.settled hstays rfl hp
  have hlength : (times ++ [least.after S.window]).length = times.length + 1 := by simp
  constructor
  case each =>
    intro j s hs
    obtain ⟨q, hq, rfl⟩ := getElem?_exchanged hs
    obtain ⟨p, rfl, hp⟩ := hmeets' q (List.mem_of_getElem? hq)
    refine (h.each j _ (getElem?_ready hq)).conclude_epoch hwindow hp
      (Agrees.conforms_party hconforms hq) _ (Party.meeting_le_least hall)
  case rising =>
    refine List.pairwise_append.mpr ⟨h.rising, List.pairwise_singleton .., ?_⟩
    intro t ht u hu
    obtain rfl := List.mem_singleton.mp hu
    rw [← hp.nextSync]
    exact hrising t ht
  case late =>
    refine forall_getElem?_concat h.late ?_
    rw [← hp.nextSync]
    exact hlate
  case busy =>
    intro k hk hlt
    rw [hlength] at hlt
    rcases Nat.lt_or_eq_of_le (Nat.le_of_lt_succ hlt) with hbefore | rfl
    · exact h.busy k hk hbefore
    · rcases hcurrent with rfl | ⟨hbusy, _⟩
      · cases hk
      · exact hbusy
  case few =>
    rw [hlength]
    rcases hcurrent with rfl | ⟨_, hle⟩
    · exact Nat.le_add_right 1 _
    · omega
  case current =>
    exact Or.inr (Or.inr (owing_exchanged hwindow hmeets' hincoming hconforms))

/-- Nobody has met anyone before the timed run. -/
theorem times_eq_nil (h : cohort.OnSchedule S times trace) {s : Stance M}
    (hi : cohort[i]? = some s) (hearly : s.exit? = none)
    (hnext : s.partition.member.nextSync = Time.zero.after S.window) : times = [] := by
  cases htimes : times with
  | nil => rfl
  | cons t rest =>
    have hlt := ((h.each i s hi).ahead hearly).1 t (by rw [htimes]; exact List.mem_cons_self ..)
    have hle := h.late 0 t (by rw [htimes]; rfl)
    rw [hnext] at hlt
    simp only [Time.le_def, Time.lt_def, Time.ticks_ofNat, Time.ticks_after, Time.ticks_zero] at *
    omega

/-- A round of an untimed stage leaves everyone on schedule. -/
theorem untimed (h : OnSchedule (parties.map Stance.ready) S times trace)
    (huntimed : ∀ q ∈ parties, ∃ work p own, q = ⟨work, p, .untimed own⟩ ∧ work ≠ .timed)
    (hcurrent : times = [] ∨ ∀ q ∈ parties, ∃ phase stop p own,
      q = ⟨.complete phase stop, p, .untimed own⟩) :
    OnSchedule (exchanged parties) S times trace := by
  refine ⟨?_, h.rising, h.late, h.busy, h.few, ?_⟩
  · intro j s hs
    obtain ⟨q, hq, rfl⟩ := getElem?_exchanged hs
    obtain ⟨work, p, own, rfl, hwork⟩ := huntimed q (List.mem_of_getElem? hq)
    exact Stance.OnSchedule.conclude_untimed hwork
      (h.each j _ (Cohort.getElem?_ready hq)) _ _
  · refine hcurrent.imp_right fun hcomplete => Or.inr (.stops fun j s p hs hp => ?_)
    obtain ⟨q, hq, rfl⟩ := getElem?_exchanged hs
    obtain ⟨phase, stop, p', own, rfl⟩ := hcomplete q (List.mem_of_getElem? hq)
    rw [Party.timed?_conclude_complete] at hp
    cases hp

theorem exchange (h : OnSchedule (parties.map Stance.ready) S times trace)
    (hne : parties ≠ []) (hwindow : 1 ≤ S.window)
    (hagrees : Agrees (parties.map Stance.ready) S m)
    (hconforms : Cohort.Conforms (parties.map Stance.ready) S) :
    ∃ times', OnSchedule (exchanged parties) S times' trace := by
  have hfits : ∀ q ∈ parties, Fits S m (.ready q) := fun q hq => hagrees.fits_mem hq
  cases m with
  | init phase =>
    have hinit : ∀ q ∈ parties, ∃ p own, q = ⟨.init phase, p, .untimed own⟩ ∧
        p.OnTime S Time.zero := fun q hq => (hfits q hq).ready_init
    refine ⟨times, h.untimed (fun q hq => ?_) (Or.inl ?_)⟩
    · obtain ⟨p, own, rfl, _⟩ := hinit q hq
      exact ⟨.init phase, p, own, rfl, by simp⟩
    · obtain ⟨first, rest, rfl⟩ := List.exists_cons_of_ne_nil hne
      obtain ⟨p, own, rfl, hp⟩ := hinit first (List.mem_cons_self ..)
      exact h.times_eq_nil (i := 0) rfl rfl hp.nextSync
  | complete phase =>
    have hcomplete : ∀ q ∈ parties, ∃ stop p own,
        q = ⟨.complete phase stop, p, .untimed own⟩ := by
      intro q hq
      obtain ⟨stop, p, own, rfl, _⟩ := (hfits q hq).ready_complete
      exact ⟨stop, p, own, rfl⟩
    refine ⟨times, h.untimed (fun q hq => ?_) (Or.inr fun q hq => ⟨phase, hcomplete q hq⟩)⟩
    obtain ⟨stop, p, own, rfl⟩ := hcomplete q hq
    exact ⟨.complete phase stop, p, own, rfl, by simp⟩
  | finished =>
    obtain ⟨first, rest, rfl⟩ := List.exists_cons_of_ne_nil hne
    cases hfits first (List.mem_cons_self ..)
  | timed least =>
    by_cases hleaves : S.Leaves least
    · have hleft : ∀ q ∈ parties, ∃ stop p own, q = ⟨.complete 0 stop, p, .untimed own⟩ := by
        intro q hq
        rcases (hfits q hq).ready_timed with ⟨hstays, _⟩ | ⟨_, stop, p, own, rfl, _⟩
        · exact absurd hleaves hstays
        · exact ⟨stop, p, own, rfl⟩
      refine ⟨times, h.untimed (fun q hq => ?_) (Or.inr fun q hq => ⟨0, hleft q hq⟩)⟩
      obtain ⟨stop, p, own, rfl⟩ := hleft q hq
      exact ⟨.complete 0 stop, p, own, rfl, by simp⟩
    · refine ⟨_, h.meet hne hwindow hleaves (fun q hq => ?_) hconforms⟩
      rcases (hfits q hq).ready_timed with ⟨_, hwork, hkind, hp, hbuffers⟩ | ⟨hleft, _⟩
      · obtain ⟨work, p, kind⟩ := q
        cases hwork
        cases hkind
        exact ⟨p, rfl, hp, hbuffers⟩
      · exact absurd hleft hleaves

end OnSchedule

end Cohort

/-! ## Runs -/

namespace Simulation

variable {b : Builder M} {log : List (Planned M.Payload)} {simulation : Simulation M}

/-- Before the first step everyone is on schedule. -/
theorem onSchedule_start (hb : b.Made log) (hbuild : b.build = .ok simulation) :
    simulation.cohort.OnSchedule (b.setting simulation) [] [] := by
  refine ⟨?_, .nil, by simp, by simp, by simp, Or.inl rfl⟩
  intro j s hs
  obtain ⟨p, hp, rfl⟩ := exists_stance_start hs
  have hfresh := ((hb.build hbuild).2.2 j p hp).2
  obtain ⟨profile, hmember⟩ := hfresh.member
  have hawaits : (Thread.start p).stance.awaits = false := by
    unfold Thread.start
    cases p.lifecycle <;> rfl
  refine ⟨by rw [hawaits]; rfl, ?_, ?_, fun _ => ⟨by simp, ?_⟩⟩
  · show p.member.epochs = 0
    rw [hmember]
    rfl
  · show p.tally.events + p.tally.clockFires = 0
    rw [hfresh.tally]
    rfl
  · show _ ≤ p.member.nextSync
    rw [hmember, List.length_nil, Nat.zero_add, Nat.one_mul]
    exact Time.le_refl _

/-- Wherever a run of the cohort gets to that has not failed, everyone is on schedule. -/
theorem onSchedule_run (hb : b.Made log) (hbuild : b.build = .ok simulation)
    (hmany : 1 < simulation.partitions.length) {labels : List (Option PartitionId)}
    {trace : List (PartitionId × Dispatch M)} {cohort : Cohort M}
    (hrun : (Cohort.system M).Run simulation.cohort labels trace cohort) :
    cohort.Broken ∨ ∃ times, cohort.OnSchedule (b.setting simulation) times trace := by
  induction hrun with
  | refl => exact Or.inr ⟨[], onSchedule_start hb hbuild⟩
  | @step labels trace x y label hrun hstep ih =>
    obtain ⟨hconforms, m, hagrees⟩ := agrees_run hb hbuild hrun
    cases label with
    | none =>
      obtain ⟨parties, hne, rfl, rfl⟩ := Cohort.exchange?_eq_some_iff.mp hstep
      have hnote : (Cohort.system M).note (parties.map Stance.ready) none = [] := rfl
      rw [hnote, List.append_nil]
      rcases ih with hbroken | ⟨times, h⟩
      · exact absurd hbroken (Cohort.not_broken_ready parties)
      · exact Or.inr (h.exchange hne (hb.build hbuild).2.1 hagrees hconforms)
    | some i =>
      obtain ⟨work, p, hi, rfl⟩ := Cohort.step?_some_iff.mp hstep
      rw [Cohort.note_of_running hi]
      rcases ih with hbroken | ⟨times, h⟩
      · exact Or.inl (hbroken.set hi (Or.inl fun _ _ h => by cases h))
      · exact (h.workOn hagrees hmany hi).imp_right fun h' => ⟨times, h'⟩

theorem total_work {window : Nat} {report : RunReport} {machine : Machine M}
    {trace : List (PartitionId × Dispatch M)} {times : List Time} {cohort : Cohort M}
    {S : Setting} (h : cohort.OnSchedule S times trace) (htracks : Tracks machine cohort)
    (hreport : machine.outcome? window = some (.ok report))
    (hplaces : ∀ entry ∈ trace, entry.1 < machine.threads.length) :
    total PartitionReport.work report.partitions = labour trace := by
  obtain ⟨hsucceeded, rfl⟩ := Machine.outcome?_eq_ok_iff.mp hreport
  have hcohort := htracks.cohort_of_succeeded hsucceeded
  have heach : ∀ (j : Nat) (r : PartitionReport),
      (machine.threads.filterMap Machine.reportOf?)[j]? = some r →
        r.work = total (fun entry => if entry.2.isWork then 1 else 0)
          (trace.filter fun entry => entry.1 == j) := by
    intro j r hr
    obtain ⟨stop, p, ht, rfl⟩ := hsucceeded.exists_of_report hr
    have hs : cohort[j]? = some (.ended stop p) := by
      rw [hcohort, List.getElem?_map, ht]
      rfl
    have hworked : p.worked = (System.seenOf j trace).countP Dispatch.isWork :=
      (h.each j _ hs).worked
    show p.worked = _
    rw [hworked, System.seenOf_eq_map, List.countP_map, countP_eq_total]
    rfl
  rw [total_eq_range _ heach, hsucceeded.length_reports, total_filter _ _ _ hplaces, labour,
    countP_eq_total]

/-- No meeting is in vain. The partitions of a run that succeeds meet at the same times, which rise
and leave at least a window between two of them. After each meeting but the last some partition
dispatches an event or a cycle of a clock before the next one, so there is at most one meeting more
than there were events and cycles of clocks. -/
theorem meets_for_work (hb : b.Made log) (hbuild : b.build = .ok simulation)
    (hmany : 1 < simulation.partitions.length) {trace : List (PartitionId × Dispatch M)}
    {machine : Machine M} (h : simulation.Reaches trace machine) {report : RunReport}
    (hreport : machine.outcome? simulation.window = some (.ok report)) :
    ∃ times : List Time,
      (∀ j < simulation.partitions.length, meetings (System.seenOf j trace) = times) ∧
      (∀ r ∈ report.partitions, r.epochs = times.length) ∧
      times.Pairwise (· < ·) ∧
      (∀ (k : Nat) (t : Time), times[k]? = some t →
        Time.ofNat ((k + 1) * simulation.window) ≤ t) ∧
      (∀ k, 1 ≤ k → k < times.length →
        ∃ j < simulation.partitions.length, WorkedAfter k (System.seenOf j trace)) ∧
      times.length ≤ 1 + total PartitionReport.work report.partitions := by
  obtain ⟨labels, cohort, hrun, htracks, _⟩ := h.cohort hb hbuild
  obtain ⟨hsucceeded, rfl⟩ := Machine.outcome?_eq_ok_iff.mp hreport
  have hcohort := htracks.cohort_of_succeeded hsucceeded
  have hsize := h.length_threads
  have hended : ∀ j < simulation.partitions.length, ∃ stop p,
      machine.threads[j]? = some (.ended (.ok stop) p) ∧
        cohort[j]? = some (.ended stop p) := by
    intro j hj
    have ht := List.getElem?_eq_getElem (hsize ▸ hj)
    obtain ⟨stop, p, hstop⟩ := hsucceeded _ (List.mem_of_getElem? ht)
    rw [hstop] at ht
    refine ⟨stop, p, ht, ?_⟩
    rw [hcohort, List.getElem?_map, ht]
    rfl
  rcases onSchedule_run hb hbuild hmany hrun with ⟨j, e, p, hfailed⟩ | ⟨times, hschedule⟩
  · have hj : j < simulation.partitions.length := by
      rw [← hsize, ← List.length_map Thread.stance, ← hcohort]
      exact (List.getElem?_eq_some_iff.mp hfailed).1
    obtain ⟨stop, q, _, hstance⟩ := hended j hj
    rw [hfailed] at hstance
    cases hstance
  refine ⟨times, ?_, ?_, hschedule.rising, hschedule.late, ?_, ?_⟩
  · intro j hj
    obtain ⟨stop, p, _, hs⟩ := hended j hj
    exact (hschedule.each j _ hs).meetings
  · intro r hr
    obtain ⟨j, hj⟩ := List.mem_iff_getElem?.mp hr
    obtain ⟨stop, p, ht, rfl⟩ := hsucceeded.exists_of_report hj
    refine (hschedule.each j (.ended stop p) ?_).epochs
    rw [hcohort, List.getElem?_map, ht]
    rfl
  · intro k hk hlt
    obtain ⟨j, hj⟩ := hschedule.busy k hk hlt
    refine ⟨j, ?_, hj⟩
    obtain ⟨front, d, back, hseen, _⟩ := hj
    exact lt_of_mem_seenOf hb hbuild hrun (d := d) (by rw [hseen]; simp)
  · rw [total_work hschedule htracks hreport fun entry hentry => ?_]
    · exact hschedule.few
    · rw [hsize]
      exact (dispatched_run hb hbuild hrun False.elim entry hentry).1

/-- In a relay there is a meeting for each of the three times that the token is delivered. -/
theorem meets_for_work_relay : ∃ trace machine report times,
    (Relay.simulation 1 2 2).Reaches trace machine ∧ machine.outcome? 2 = some (.ok report) ∧
    (∀ j < (Relay.simulation 1 2 2).partitions.length,
      meetings (System.seenOf j trace) = times) ∧
    times = [2, 4, 6].map Time.ofNat ∧
    (∀ r ∈ report.partitions, r.epochs = times.length) ∧
    times.Pairwise (· < ·) ∧
    (∀ (k : Nat) (t : Time), times[k]? = some t → Time.ofNat ((k + 1) * 2) ≤ t) ∧
    (∀ k, 1 ≤ k → k < times.length → ∃ j < (Relay.simulation 1 2 2).partitions.length,
      WorkedAfter k (System.seenOf j trace)) ∧
    times.length ≤ 1 + total PartitionReport.work report.partitions := by
  have h := Relay.reaches_run (Relay.simulation 1 2 2) (Relay.turns 0)
  obtain ⟨report, hreport⟩ : ∃ report,
      (Relay.run (Relay.simulation 1 2 2) (Relay.turns 0)).2.outcome? 2 = some (.ok report) :=
    ⟨_, rfl⟩
  obtain ⟨times, hmeetings, hepochs, hrising, hlate, hworked, hfew⟩ :=
    meets_for_work (Relay.made 1 2) (Relay.build_eq 1 2) (by decide) h hreport
  have htimes : times = [2, 4, 6].map Time.ofNat := by
    rw [← hmeetings 0 (by decide)]
    decide +kernel
  exact ⟨_, _, report, times, h, hreport, hmeetings, htimes, hepochs, hrising, hlate, hworked,
    hfew⟩

end Simulation

end Lookahead
