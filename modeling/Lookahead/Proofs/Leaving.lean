import Lookahead.Proofs.Pace

/-!
How partitions leave the timed run.

Partitions that are not alone leave it for one reason and at one instant: each of them at the
configured stop, or all together when nothing is left to do (`Cohort.Departs.exits`). The last stage
follows if some partition has untimed handlers, and nobody ends before everyone has gone through it.
-/

namespace Lookahead

variable {M : Model}

/-! ## Exits -/

namespace Stance

/-- Why and when a partition has left the timed run. -/
def exit? : Stance M → Option (StopReason × Time)
  | .running (.complete _ stop) p => some (stop, p.timeline.now)
  | .ready ⟨.complete _ stop, p, _⟩ => some (stop, p.timeline.now)
  | .ended stop p => some (stop, p.timeline.now)
  | _ => none

def completes : Stance M → Bool
  | .running (.complete _ _) _ => true
  | .ready ⟨.complete _ _, _, _⟩ => true
  | _ => false

def isEnded : Stance M → Bool
  | .ended _ _ => true
  | _ => false

def isFailed : Stance M → Bool
  | .failed _ _ => true
  | _ => false

theorem exit?_of_isFailed {s : Stance M} (h : s.isFailed = true) : s.exit? = none := by
  cases s with
  | failed e p => rfl
  | _ => cases h

end Stance

namespace Thread

variable {p : Partition M} {stop : StopReason}

theorem exit?_finishTimed (stop : StopReason) (p : Partition M) :
    (finishTimed stop p).stance.exit? = some (stop, p.timeline.now) := by
  unfold finishTimed
  split <;> rfl

theorem completes_finishTimed (stop : StopReason) (p : Partition M) :
    (finishTimed stop p).stance.completes = p.lifecycle ∧
      (finishTimed stop p).stance.isEnded = !p.lifecycle := by
  unfold finishTimed
  cases p.lifecycle <;> exact ⟨rfl, rfl⟩

end Thread

/-! ## Leaving in a cohort -/

/-- Partitions that are not alone leave as configured, or together with everyone else. -/
def Cohort.Exit (cohort : Cohort M) (S : Setting) (stop : StopReason) (time : Time) : Prop :=
  stop = .stopAt ∧ S.stopAt = some time ∨
  stop = .drained ∧ ∀ (j : Nat) (s : Stance M), cohort[j]? = some s →
    s.exit? = some (stop, time) ∨ s.isFailed = true

/-- How partitions leave the timed run: nobody has a last stage unless some partition has untimed
handlers, and then all end together; partitions that are not alone stop as configured, or all of
them at once. -/
structure Cohort.Departs (cohort : Cohort M) (S : Setting) : Prop where
  stages : ∀ (i : Nat) (s : Stance M), cohort[i]? = some s → s.completes = true →
    S.lifecycle = true
  ends : S.lifecycle = true → ∀ (i : Nat) (s : Stance M), cohort[i]? = some s →
    s.isEnded = true → ∀ (j : Nat) (s' : Stance M), cohort[j]? = some s' →
      s'.isEnded = true ∨ s'.isFailed = true
  exits : 1 < S.partitions → ∀ (i : Nat) (s : Stance M) (stop : StopReason) (time : Time),
    cohort[i]? = some s → s.exit? = some (stop, time) → cohort.Exit S stop time

/-- What can become of a partition that works, as to leaving. -/
structure Stance.Proceeds (S : Setting) (s s' : Stance M) : Prop where
  stages : s'.completes = true → s.completes = true ∨ S.lifecycle = true
  ends : s'.isEnded = true → S.lifecycle = false
  exits : 1 < S.partitions → s'.isFailed = true ∨ s'.exit? = s.exit? ∨
    ∃ time, s.exit? = none ∧ s'.exit? = some (.stopAt, time) ∧ S.stopAt = some time

namespace Stance

variable {S : Setting} {m : Moment} {p : Partition M} {work : Work} {i : Nat}

theorem proceeds_runPhase (S : Setting) (work : Work) (stage : Stage) (phase : Nat)
    (p : Partition M) :
    Proceeds S (.running work p) (Thread.runPhase work stage phase p).stance := by
  have hphases := Thread.phases_runPhase work stage phase p
  generalize Thread.runPhase work stage phase p = t at hphases
  cases hphases with
  | failed e q hphased =>
    exact ⟨fun h => (by cases h), fun h => (by cases h), fun _ => Or.inl rfl⟩
  | ready own q hphased =>
    have htimeline := Partition.timeline_phased hphased
    cases work with
    | complete phase stop =>
      refine ⟨fun _ => Or.inl rfl, fun h => (by cases h), fun _ => Or.inr (Or.inl ?_)⟩
      show some (stop, q.timeline.now) = some (stop, p.timeline.now)
      rw [htimeline]
    | _ => exact ⟨fun h => (by cases h), fun h => (by cases h), fun _ => Or.inr (Or.inl rfl)⟩

/-- Whoever works in the timed run goes on with it, stops as configured, or fails. -/
theorem proceeds_workOn (h : Fits S m (.running work p)) (hconforms : p.Conforms S i) :
    Proceeds S (.running work p) (Thread.workOn work p).stance := by
  cases h with
  | preparing phase p h => exact proceeds_runPhase ..
  | leaving least stop p hleaves h => exact proceeds_runPhase ..
  | completing phase stop p h => exact proceeds_runPhase ..
  | running least p h hbuffers =>
    have hworks := Thread.works_workOn p
    generalize Thread.workOn .timed p = t at hworks
    have hleaves : ∀ (stop : StopReason) (q : Partition M), q.lifecycle = S.lifecycle →
        ((Thread.finishTimed stop q).stance.completes = true → S.lifecycle = true) ∧
          ((Thread.finishTimed stop q).stance.isEnded = true → S.lifecycle = false) := by
      intro stop q hq
      obtain ⟨hcompletes, hended⟩ := Thread.completes_finishTimed stop q
      rw [hcompletes, hended, hq]
      exact ⟨id, by simp⟩
    cases hworks with
    | idle hnext =>
      obtain ⟨hcompletes, hended⟩ := hleaves .exhausted p hconforms.lifecycle
      refine ⟨fun hc => Or.inr (hcompletes hc), hended, fun hmany => ?_⟩
      have hsyncs := h.syncs
      rw [Partition.next?_eq_none_iff.mp hnext, if_pos hmany] at hsyncs
      cases hsyncs
    | work d e hnext =>
      exact ⟨fun hc => (by cases hc), fun hc => (by cases hc), fun _ => Or.inr (Or.inl rfl)⟩
    | failed d e err hnext =>
      exact ⟨fun hc => (by cases hc), fun hc => (by cases hc), fun _ => Or.inl rfl⟩
    | sync d hnext =>
      exact ⟨fun hc => (by cases hc), fun hc => (by cases hc), fun _ => Or.inr (Or.inl rfl)⟩
    | stop d hnext hstop =>
      obtain ⟨hat, _⟩ := h.stop_eq hnext hstop
      obtain ⟨_, hnow, _⟩ := Partition.agenda_of_next? hnext
      obtain ⟨hcompletes, hended⟩ := hleaves .stopAt d.partition
        ((Partition.Like.next? hnext).lifecycle.trans hconforms.lifecycle)
      refine ⟨fun hc => Or.inr (hcompletes hc), hended, fun _ => Or.inr (Or.inr ?_)⟩
      exact ⟨_, rfl, Thread.exit?_finishTimed .stopAt d.partition, by rw [hnow]; exact hat⟩

end Stance

namespace Cohort.Departs

variable {cohort next : Cohort M} {S : Setting} {m : Moment}

theorem work (h : cohort.Departs S) (hagrees : cohort.Agrees S m) (hconforms : cohort.Conforms S)
    {i : Nat} {work : Work} {p : Partition M} (hi : cohort[i]? = some (.running work p)) :
    Departs (cohort.set i (Thread.workOn work p).stance) S := by
  have hproceeds := Stance.proceeds_workOn (hagrees i _ hi) (hconforms.each i _ hi)
  generalize (Thread.workOn work p).stance = s' at hproceeds
  constructor
  case stages =>
    refine forall_set (fun j s _ hs => h.stages j s hs) fun hcompletes => ?_
    rcases hproceeds.stages hcompletes with hcompletes | hlifecycle
    · exact h.stages i _ hi hcompletes
    · exact hlifecycle
  case ends =>
    intro hlifecycle
    refine forall_set ?_ fun hended => ?_
    · intro j s hji hs hended
      -- Where somebody has ended nobody works.
      rcases h.ends hlifecycle j s hs hended i _ hi with hrunning | hrunning <;> cases hrunning
    · rw [hproceeds.ends hended] at hlifecycle
      cases hlifecycle
  case exits =>
    intro hmany
    have hkeep : ∀ {stop : StopReason} {time : Time}, cohort.Exit S stop time →
        Exit (cohort.set i s') S stop time := by
      intro stop time hexit
      refine hexit.imp_right (And.imp_right fun hall => ?_)
      refine forall_set (fun k s _ hs => hall k s hs) ?_
      have hexited : (Stance.running work p).exit? = some (stop, time) := by
        rcases hall i _ hi with hexited | hfailed
        · exact hexited
        · cases hfailed
      rcases hproceeds.exits hmany with hfailed | hsame | ⟨_, hnone, _⟩
      · exact Or.inr hfailed
      · exact Or.inl (hsame.trans hexited)
      · rw [hnone] at hexited
        cases hexited
    have hexits : ∀ (j : Nat) (s : Stance M), (cohort.set i s')[j]? = some s →
        ∀ (stop : StopReason) (time : Time), s.exit? = some (stop, time) →
          Exit (cohort.set i s') S stop time := by
      refine forall_set ?_ ?_
      · intro j s _ hs stop time hexit
        exact hkeep (h.exits hmany j s stop time hs hexit)
      · intro stop time hexit
        rcases hproceeds.exits hmany with hfailed | hsame | ⟨time', _, hexit', hat⟩
        · rw [Stance.exit?_of_isFailed hfailed] at hexit
          cases hexit
        · rw [hsame] at hexit
          exact hkeep (h.exits hmany i _ stop time hi hexit)
        · rw [hexit'] at hexit
          cases hexit
          exact Or.inl ⟨rfl, hat⟩
    exact fun j s stop time hs hexit => hexits j s hs stop time hexit

/-! ## Exchanges -/

/-- What becomes of someone who concludes a round of an untimed stage. -/
theorem stance_conclude_untimed (work : Work) (p : Partition M) (own : Nat)
    (incoming : List (Scheduled M.Payload)) (least : Time) :
    ∃ q : Partition M,
      ((Party.conclude ⟨work, p, .untimed own⟩ incoming least).stance =
        match work with
        | .init phase =>
          if least = Time.never then .running .timed q else .running (.init (phase + 1)) q
        | .timed => .running .timed q
        | .complete phase stop =>
          if least = Time.never then .ended stop q
          else .running (.complete (phase + 1) stop) q) ∧
      q.timeline = p.timeline := by
  unfold Party.conclude
  by_cases hleast : least = Time.never
  · cases work <;> simp only [hleast, ne_eq, not_true_eq_false, decide_false, ↓reduceIte] <;>
      exact ⟨_, rfl, rfl⟩
  · cases work <;> simp only [hleast, ne_eq, not_false_eq_true, decide_true, ↓reduceIte] <;>
      exact ⟨_, rfl, rfl⟩

theorem stance_conclude_epoch {S : Setting} {p : Partition M} {meeting : Time} {i : Nat}
    (h : p.Meets S meeting) (hconforms : p.Conforms S i) (incoming : List (Scheduled M.Payload))
    (least : Time) :
    (least ≠ Time.never ∧
      ∃ q, (Party.conclude ⟨.timed, p, .epoch⟩ incoming least).stance = .running .timed q) ∨
    (least = Time.never ∧ ∃ q,
      (Party.conclude ⟨.timed, p, .epoch⟩ incoming least).stance =
        (Thread.finishTimed .drained q).stance ∧
      q.lifecycle = S.lifecycle ∧ q.timeline.now = meeting.after S.window) := by
  have hlike := Partition.Like.taken ⟨.timed, p, .epoch⟩ incoming
  unfold Party.conclude
  by_cases hleast : least = Time.never
  · refine Or.inr ⟨hleast, ?_⟩
    simp only [hleast, ↓reduceIte]
    refine ⟨_, rfl, hlike.lifecycle.trans hconforms.lifecycle, ?_⟩
    show (p.timeline.addAll incoming).now = _
    rw [Timeline.now_addAll]
    exact h.now
  · refine Or.inl ⟨hleast, ?_⟩
    simp only [hleast, ↓reduceIte]
    exact ⟨_, rfl⟩

theorem of_present (h : ∀ (i : Nat) (s : Stance M), cohort[i]? = some s →
    ∃ work p, s = .running work p ∧ s.completes = false) : cohort.Departs S := by
  constructor
  case stages =>
    intro i s hs hcompletes
    obtain ⟨work, p, _, hnot⟩ := h i s hs
    rw [hnot] at hcompletes
    cases hcompletes
  case ends =>
    intro _ i s hs hended
    obtain ⟨work, p, rfl, _⟩ := h i s hs
    cases hended
  case exits =>
    intro _ i s stop time hs hexit
    obtain ⟨work, p, rfl, hnot⟩ := h i s hs
    cases work with
    | complete phase stop => cases hnot
    | _ => cases hexit

/-- If the epoch finds nothing left to do, everyone leaves at once. -/
theorem of_drained (time : Time) (h : ∀ (i : Nat) (s : Stance M), cohort[i]? = some s →
    ∃ q : Partition M, s = (Thread.finishTimed .drained q).stance ∧ q.lifecycle = S.lifecycle ∧
      q.timeline.now = time) : cohort.Departs S := by
  have hexit : ∀ (i : Nat) (s : Stance M), cohort[i]? = some s →
      s.exit? = some (.drained, time) := by
    intro i s hs
    obtain ⟨q, rfl, _, rfl⟩ := h i s hs
    exact Thread.exit?_finishTimed ..
  constructor
  case stages =>
    intro i s hs hcompletes
    obtain ⟨q, rfl, hlifecycle, _⟩ := h i s hs
    rw [(Thread.completes_finishTimed ..).1, hlifecycle] at hcompletes
    exact hcompletes
  case ends =>
    intro hlifecycle i s hs hended
    obtain ⟨q, rfl, hq, _⟩ := h i s hs
    rw [(Thread.completes_finishTimed ..).2, hq, hlifecycle] at hended
    cases hended
  case exits =>
    intro _ i s stop time' hs hexit'
    rw [hexit i s hs] at hexit'
    cases hexit'
    exact Or.inr ⟨rfl, fun j s hs => Or.inl (hexit j s hs)⟩

/-- A round of the last stage changes nothing about how anyone has left. -/
theorem of_completed {parties : List (Party M)} (least : Time)
    (h : Departs (parties.map Stance.ready) S)
    (hstands : ∀ (i : Nat) (s : Stance M), cohort[i]? = some s →
      ∃ phase stop p own q, parties[i]? = some ⟨.complete phase stop, p, .untimed own⟩ ∧
        (s = if least = Time.never then .ended stop q
          else .running (.complete (phase + 1) stop) q) ∧
        q.timeline = p.timeline) : cohort.Departs S := by
  have hsame : ∀ (i : Nat) (s : Stance M), cohort[i]? = some s →
      ∃ s', (parties.map Stance.ready)[i]? = some s' ∧ s'.completes = true ∧
        s.exit? = s'.exit? ∧ (s.isEnded = true ↔ least = Time.never) := by
    intro i s hs
    obtain ⟨phase, stop, p, own, q, hparty, rfl, htimeline⟩ := hstands i s hs
    refine ⟨.ready ⟨.complete phase stop, p, .untimed own⟩, ?_, rfl, ?_, ?_⟩
    · exact getElem?_ready hparty
    · by_cases hleast : least = Time.never <;>
        simp [hleast, Stance.exit?, htimeline]
    · by_cases hleast : least = Time.never <;> simp [hleast, Stance.isEnded]
  constructor
  case stages =>
    intro i s hs _
    obtain ⟨s', hs', hcompletes, _, _⟩ := hsame i s hs
    exact h.stages i s' hs' hcompletes
  case ends =>
    intro _ i s hs hended j s' hs'
    obtain ⟨_, _, _, _, hiff⟩ := hsame i s hs
    obtain ⟨_, _, _, _, hiff'⟩ := hsame j s' hs'
    exact Or.inl (hiff'.mpr (hiff.mp hended))
  case exits =>
    intro hmany i s stop time hs hexit
    obtain ⟨s', hs', _, heq, _⟩ := hsame i s hs
    rw [heq] at hexit
    refine (h.exits hmany i s' stop time hs' hexit).imp_right (And.imp_right fun hall => ?_)
    intro j u hu
    obtain ⟨u', hu', hcompletes, heq', _⟩ := hsame j u hu
    rw [heq']
    rcases hall j u' hu' with hexited | hfailed
    · exact Or.inl hexited
    · cases u' with
      | failed e p => cases hcompletes
      | _ => cases hfailed

theorem exchange {parties : List (Party M)} (h : Departs (parties.map Stance.ready) S)
    (hne : parties ≠ []) (hagrees : Agrees (parties.map Stance.ready) S m)
    (hconforms : Conforms (parties.map Stance.ready) S) : (exchanged parties).Departs S := by
  cases hagrees.convened hne with
  | init phase hall =>
    refine of_present fun i s hs => ?_
    obtain ⟨q, hq, rfl⟩ := getElem?_exchanged hs
    obtain ⟨p, own, rfl⟩ := hall q (List.mem_of_getElem? hq)
    obtain ⟨q', hstance, _⟩ := stance_conclude_untimed (.init phase) p own
      (Party.incoming parties i) (Party.least parties)
    rw [hstance]
    by_cases hleast : Party.least parties = Time.never
    · exact ⟨.timed, q', by simp [hleast], by simp [hleast, Stance.completes]⟩
    · exact ⟨.init (phase + 1), q', by simp [hleast], by simp [hleast, Stance.completes]⟩
  | meeting least hstays hall =>
    have hparty : ∀ (i : Nat) (s : Stance M), (exchanged parties)[i]? = some s →
        ∃ p, p.Meets S least ∧ p.Conforms S i ∧ s = (Party.conclude ⟨.timed, p, .epoch⟩
          (Party.incoming parties i) (Party.least parties)).stance := by
      intro i s hs
      obtain ⟨q, hq, rfl⟩ := getElem?_exchanged hs
      obtain ⟨p, rfl, hmeets⟩ := hall q (List.mem_of_getElem? hq)
      exact ⟨p, hmeets, Agrees.conforms_party hconforms hq, rfl⟩
    by_cases hleast : Party.least parties = Time.never
    · refine of_drained (least.after S.window) fun i s hs => ?_
      obtain ⟨p, hmeets, hp, rfl⟩ := hparty i s hs
      rcases stance_conclude_epoch hmeets hp (Party.incoming parties i) (Party.least parties) with
        ⟨hnot, _⟩ | ⟨_, hdrained⟩
      · exact absurd hleast hnot
      · exact hdrained
    · refine of_present fun i s hs => ?_
      obtain ⟨p, hmeets, hp, rfl⟩ := hparty i s hs
      rcases stance_conclude_epoch hmeets hp (Party.incoming parties i) (Party.least parties) with
        ⟨_, q, hstance⟩ | ⟨hnever, _⟩
      · rw [hstance]
        exact ⟨.timed, q, rfl, rfl⟩
      · exact absurd hnever hleast
  | complete phase hall =>
    refine of_completed (Party.least parties) h fun i s hs => ?_
    obtain ⟨q, hq, rfl⟩ := getElem?_exchanged hs
    obtain ⟨stop, p, own, rfl⟩ := hall q (List.mem_of_getElem? hq)
    obtain ⟨q', hstance, htimeline⟩ := stance_conclude_untimed (.complete phase stop) p own
      (Party.incoming parties i) (Party.least parties)
    exact ⟨phase, stop, p, own, q', hq, hstance, htimeline⟩

end Cohort.Departs

namespace Simulation

variable {b : Builder M} {log : List (Planned M.Payload)} {simulation : Simulation M}

/-- Wherever a run of the cohort gets to, this is how partitions leave. -/
theorem departs_run (hb : b.Made log) (hbuild : b.build = .ok simulation)
    {labels : List (Option PartitionId)} {trace : List (PartitionId × Dispatch M)}
    {cohort : Cohort M} (hrun : (Cohort.system M).Run simulation.cohort labels trace cohort) :
    cohort.Departs (b.setting simulation) := by
  induction hrun with
  | refl =>
    refine .of_present fun i s hs => ?_
    obtain ⟨p, _, rfl⟩ := exists_stance_start hs
    refine ⟨_, _, rfl, ?_⟩
    unfold Thread.start
    cases p.lifecycle <;> rfl
  | @step labels seen x y label hrun hstep ih =>
    obtain ⟨hconforms, m, hagrees⟩ := agrees_run hb hbuild hrun
    cases label with
    | some i =>
      obtain ⟨work, p, hi, rfl⟩ := Cohort.step?_some_iff.mp hstep
      exact ih.work hagrees hconforms hi
    | none =>
      obtain ⟨parties, hne, rfl, rfl⟩ := Cohort.exchange?_eq_some_iff.mp hstep
      exact ih.exchange hne hagrees hconforms

end Simulation

end Lookahead
