import Lookahead.Proofs.Interlude
import Lookahead.Proofs.Stages

/-!
The chronicle of a run with untimed stages.

All partitions go through the phases of the first stage together, each goes through the timed run,
and they go through the phases of the last stage together. What is done on the way are the phases of
the rows of both stages and the dispatches in between (`Cohort.Told.step`).
-/

namespace Lookahead

variable {M : Model}

/-- What can be had at each of `n` positions can be had as a list. -/
theorem exists_list {α : Type} {n : Nat} {P : Nat → α → Prop} (h : ∀ j < n, ∃ a, P j a) :
    ∃ items : List α, items.length = n ∧ ∀ (j : Nat) (a : α), items[j]? = some a → P j a := by
  induction n with
  | zero => exact ⟨[], rfl, fun j a ha => by simp at ha⟩
  | succ n ih =>
    obtain ⟨items, hlength, hitems⟩ := ih fun j hj => h j (Nat.lt_succ_of_lt hj)
    obtain ⟨last, hlast⟩ := h n (Nat.lt_succ_self n)
    refine ⟨items ++ [last], by rw [List.length_append, hlength]; rfl, ?_⟩
    exact forall_getElem?_concat hitems (hlength ▸ hlast)

/-! ## A phase of one partition -/

def Stage.deedsBefore (stage : Stage) (rows : Nat → Row M) (k : Nat) (j : PartitionId) :
    List (Deed M) :=
  (List.range k).flatMap fun i => ((rows i)[j]?.map (Deed.phase stage i)).toList

theorem Stage.deedsBefore_succ {stage : Stage} {rows : Nat → Row M} {k j : Nat} {p : Partition M}
    (hp : (rows k)[j]? = some p) :
    stage.deedsBefore rows (k + 1) j = stage.deedsBefore rows k j ++ [.phase stage k p] := by
  unfold deedsBefore
  rw [Stage.flatMap_range_succ, hp]
  rfl

theorem Stage.deedsBefore_congr {stage : Stage} {rows others : Nat → Row M} {k : Nat}
    (h : ∀ i < k, others i = rows i) (j : PartitionId) :
    stage.deedsBefore others k j = stage.deedsBefore rows k j := by
  unfold deedsBefore
  rw [List.flatMap_def, List.flatMap_def]
  congr 1
  refine List.map_congr_left fun i hi => ?_
  rw [h i (List.mem_range.mp hi)]

/-- Where a partition stands in a phase that it has begun as `p`, and what it has done then if these
were its deeds before. -/
inductive Stance.InPhase (stage : Stage) (k : Nat) (p : Partition M) (before : List (Deed M)) :
    List (Deed M) → Stance M → Prop
  | begun (work : Work) (hwork : work.phase? = some (stage, k)) :
      InPhase stage k p before before (.running work p)
  | done (work : Work) (q : Partition M) (own : Nat) (hwork : work.phase? = some (stage, k))
      (hrun : p.runPhase stage k = (.ok own, q)) :
      InPhase stage k p before (before ++ [.phase stage k p]) (.ready ⟨work, q, .untimed own⟩)

namespace Stance.InPhase

variable {stage : Stage} {k : Nat} {p : Partition M}

theorem workOn_eq {work : Work} (hwork : work.phase? = some (stage, k)) :
    Thread.workOn work p = Thread.runPhase work stage k p := by
  cases work <;> cases hwork <;> rfl

/-- A partition calls its untimed handlers, unless one of them fails. -/
theorem work {work : Work} (hwork : work.phase? = some (stage, k)) :
    (∃ e q, (Thread.workOn work p).stance = .failed e q) ∨
      ∃ own q, p.runPhase stage k = (.ok own, q) ∧
        (Thread.workOn work p).stance = .ready ⟨work, q, .untimed own⟩ := by
  rw [workOn_eq hwork]
  unfold Thread.runPhase
  cases hrun : p.runPhase stage k with
  | mk result q =>
    cases result with
    | ok own => exact Or.inr ⟨own, q, rfl, rfl⟩
    | error e => exact Or.inl ⟨e, q, rfl⟩

end Stance.InPhase

/-! ## A phase of all partitions -/

/-- All partitions are in phase `k` of a stage, and `Before` says what a partition has done before
that stage. -/
structure Cohort.Phase (cohort : Cohort M) (tables : List RouteTable) (stage : Stage)
    (rows : Nat → Row M) (k : Nat) (Before : PartitionId → List (Deed M) → Prop)
    (deeds : List (PartitionId × Deed M)) : Prop where
  ran : stage.Ran tables cohort.length rows k
  busy : ∀ i < k, (rows i).Busy stage i
  stands : ∀ (j : Nat) (s : Stance M), cohort[j]? = some s → ∃ p before,
    (rows k)[j]? = some p ∧ Before j before ∧
      s.InPhase stage k p (before ++ stage.deedsBefore rows k j) (System.seenOf j deeds)

/-- A stage has ended with phase `k`, the first in which nobody has sent anything. -/
structure Stage.Ended (stage : Stage) (tables : List RouteTable) (n : Nat) (rows : Nat → Row M)
    (k : Nat) : Prop where
  ran : stage.Ran tables n rows (k + 1)
  busy : ∀ i < k, (rows i).Busy stage i
  quiet : ¬ (rows k).Busy stage k

namespace Cohort.Phase

variable {cohort : Cohort M} {tables : List RouteTable} {pending : List (String × LinkEnd)}
  {stage : Stage} {rows : Nat → Row M} {k : Nat} {Before : PartitionId → List (Deed M) → Prop}
  {deeds : List (PartitionId × Deed M)}

/-- A partition calls its untimed handlers. -/
theorem work {i : Nat} {work : Work} {p : Partition M}
    (h : cohort.Phase tables stage rows k Before deeds)
    (hs : cohort[i]? = some (.running work p)) :
    Broken (cohort.set i (Thread.workOn work p).stance) ∨
      (work.phase? = some (stage, k) ∧
        Cohort.Phase (cohort.set i (Thread.workOn work p).stance) tables stage rows k Before
          (deeds ++ deedAt i (work.deed? p))) := by
  obtain ⟨q, before, hq, hbefore, hin⟩ := h.stands i _ hs
  generalize hseen : System.seenOf i deeds = seen at hin
  cases hin with
  | begun _ hwork =>
    rcases Stance.InPhase.work (p := p) hwork with ⟨e, r, hfailed⟩ | ⟨own, r, hrun, hready⟩
    · exact Or.inl (.of_failed (i := i) (e := e) (p := r)
        (by rw [hfailed]; exact getElem?_set_of_some hs))
    · refine Or.inr ⟨hwork, ?_, h.busy, ?_⟩
      · rw [List.length_set]
        exact h.ran
      · refine forall_set (fun j s hji hsj => ?_) ?_
        · rw [System.seenOf_append, seenOf_deedAt_of_ne (Ne.symm hji), List.append_nil]
          exact h.stands j s hsj
        · rw [System.seenOf_append, seenOf_deedAt_self, Work.deed?_of_phase? hwork, hready, hseen]
          exact ⟨p, before, hq, hbefore, .done work r own hwork hrun⟩

/-- Whoever is ready has gone through the phase. -/
theorem ready {parties : List (Party M)} {j : Nat} {q : Party M}
    (h : Cohort.Phase (parties.map Stance.ready) tables stage rows k Before deeds)
    (hq : parties[j]? = some q) : ∃ p work r own before, (rows k)[j]? = some p ∧
      work.phase? = some (stage, k) ∧ q = ⟨work, r, .untimed own⟩ ∧
      p.runPhase stage k = (.ok own, r) ∧ Before j before ∧
      System.seenOf j deeds = before ++ stage.deedsBefore rows (k + 1) j := by
  obtain ⟨p, before, hp, hbefore, hin⟩ := h.stands j _ (getElem?_ready hq)
  generalize hseen : System.seenOf j deeds = seen at hin
  cases hin with
  | done work r own hwork hrun =>
    refine ⟨p, work, r, own, before, hp, hwork, rfl, hrun, hbefore, ?_⟩
    rw [Stage.deedsBefore_succ hp, List.append_assoc]

theorem posts {parties : List (Party M)}
    (h : Cohort.Phase (parties.map Stance.ready) tables stage rows k Before deeds) :
    (rows k).Posts stage k parties := by
  have hlength := h.ran.length k (Nat.le_refl k)
  rw [List.length_map] at hlength
  refine ⟨hlength.symm, fun j p hp => ?_⟩
  obtain ⟨q, hq⟩ : ∃ q, parties[j]? = some q :=
    ⟨_, List.getElem?_eq_getElem (hlength ▸ (List.getElem?_eq_some_iff.mp hp).1)⟩
  obtain ⟨p', work, r, own, _, hp', hwork, rfl, hrun, _⟩ := h.ready hq
  rw [hp] at hp'
  cases hp'
  exact ⟨work, r, own, hq, ((h.ran.clear k (Nat.le_refl k)).each j p hp).posts hrun⟩

/-- What becomes of a partition in the round behind the phase. -/
theorem exchanged {parties : List (Party M)} {j : Nat} {s : Stance M}
    (h : Cohort.Phase (parties.map Stance.ready) tables stage rows k Before deeds)
    (hs : (Cohort.exchanged parties)[j]? = some s) : ∃ work r own before,
      work.phase? = some (stage, k) ∧
      ((rows k).next stage k parties)[j]? =
        some (r.arrive own ((Party.incoming parties j).filterMap fun a => a.payload.event?)) ∧
      s = (Party.conclude ⟨work, r, .untimed own⟩ (Party.incoming parties j)
        (Party.least parties)).stance ∧
      Before j before ∧ System.seenOf j deeds = before ++ stage.deedsBefore rows (k + 1) j := by
  obtain ⟨q, hq, rfl⟩ := Cohort.getElem?_exchanged hs
  obtain ⟨p, work, r, own, before, _, hwork, rfl, _, hbefore, hseen⟩ := h.ready hq
  refine ⟨work, r, own, before, hwork, ?_, rfl, hbefore, hseen⟩
  unfold Row.next
  rw [List.getElem?_mapIdx, hq, h.posts.incoming_eq]
  rfl

theorem deedsBefore_extended {next : Row M} (j : PartitionId) :
    stage.deedsBefore (Stage.extended rows k next) (k + 1) j = stage.deedsBefore rows (k + 1) j :=
  Stage.deedsBefore_congr (fun _ hi => Stage.extended_le (Nat.le_of_lt_succ hi)) j

/-- If someone has sent anything, all go through another phase. -/
theorem exchange_busy {parties : List (Party M)}
    (h : Cohort.Phase (parties.map Stance.ready) tables stage rows k Before deeds)
    (hwiring : Wiring tables pending) (hleast : Party.least parties ≠ Time.never) :
    Cohort.Phase (Cohort.exchanged parties) tables stage
      (Stage.extended rows k ((rows k).next stage k parties)) (k + 1) Before deeds := by
  have hlength := Cohort.length_exchanged parties
  constructor
  case ran =>
    rw [hlength]
    exact h.ran.extend hwiring h.posts
  case busy =>
    intro i hi
    rw [Stage.extended_le (Nat.le_of_lt_succ hi)]
    rcases Nat.lt_or_eq_of_le (Nat.le_of_lt_succ hi) with hi | rfl
    · exact h.busy i hi
    · exact h.posts.least_ne_never_iff.mp hleast
  case stands =>
    intro j s hs
    obtain ⟨work, r, own, before, hwork, hnext, rfl, hbefore, hseen⟩ := h.exchanged hs
    obtain ⟨work', hwork', hconclude⟩ := Party.conclude_busy hwork hleast
    refine ⟨_, before, by rw [Stage.extended_succ]; exact hnext, hbefore, ?_⟩
    rw [hconclude, deedsBefore_extended, ← hseen]
    exact .begun work' hwork'

theorem exchange_quiet {parties : List (Party M)}
    (h : Cohort.Phase (parties.map Stance.ready) tables stage rows k Before deeds)
    (hwiring : Wiring tables pending) (hleast : Party.least parties = Time.never) :
    stage.Ended tables (Cohort.exchanged parties).length
      (Stage.extended rows k ((rows k).next stage k parties)) k := by
  have hlength := Cohort.length_exchanged parties
  constructor
  case ran =>
    rw [hlength]
    exact h.ran.extend hwiring h.posts
  case busy =>
    intro i hi
    rw [Stage.extended_le (Nat.le_of_lt hi)]
    exact h.busy i hi
  case quiet =>
    rw [Stage.extended_le (Nat.le_refl k)]
    exact fun hbusy => h.posts.least_ne_never_iff.mpr hbusy hleast

end Cohort.Phase

/-! ## The whole run -/

def Deed.IsInit (d : Deed M) : Prop := ∃ k, d.phase? = some (.init, k)

def InitFirst (deeds : List (PartitionId × Deed M)) : Prop :=
  ∃ front back, deeds = front ++ back ∧ (∀ entry ∈ front, entry.2.IsInit) ∧
    ∀ entry ∈ back, ¬ entry.2.IsInit

namespace InitFirst

variable {deeds more : List (PartitionId × Deed M)}

theorem of_init (h : ∀ entry ∈ deeds, entry.2.IsInit) : InitFirst deeds :=
  ⟨deeds, [], by rw [List.append_nil], h, fun _ hentry => by cases hentry⟩

theorem append (h : InitFirst deeds) (hmore : ∀ entry ∈ more, ¬ entry.2.IsInit) :
    InitFirst (deeds ++ more) := by
  obtain ⟨front, back, rfl, hfront, hback⟩ := h
  refine ⟨front, back ++ more, by rw [List.append_assoc], hfront, fun entry hentry => ?_⟩
  rcases List.mem_append.mp hentry with hentry | hentry
  · exact hback entry hentry
  · exact hmore entry hentry

end InitFirst

theorem phase?_of_mem_deedAt {i : PartitionId} {work : Work} {p : Partition M}
    {entry : PartitionId × Deed M} (h : entry ∈ deedAt i (work.deed? p)) :
    entry.2.phase? = work.phase? := by
  unfold deedAt at h
  obtain ⟨d, hd, rfl⟩ := List.mem_map.mp h
  have hdeed := Option.mem_toList.mp hd
  cases work with
  | init k =>
    cases hdeed
    rfl
  | complete k stop =>
    cases hdeed
    rfl
  | timed =>
    obtain ⟨_, _, rfl⟩ := Option.map_eq_some_iff.mp hdeed
    rfl

/-- What a party has done that came out of the first stage as `p`, with these deeds, and has gone
through the first phase of the last one, which it began as `q`. -/
inductive Party.Began (p : Partition M) (before : List (Deed M)) (q : Partition M) :
    List (Deed M) → Party M → Prop
  | intro (ds : List (Dispatch M)) (stop : StopReason) (r : Partition M) (own : Nat)
      (h : p.Carries ds q) (hboxes : ∀ j, q.box j = [])
      (hrun : q.runPhase .complete 0 = (.ok own, r)) :
      Began p before q (before ++ ds.map .dispatch ++ [.phase .complete 0 q])
        ⟨.complete 0 stop, r, .untimed own⟩

/-- Where a partition stands that has come out of the first stage as `p`, and what it has done then
if these were its deeds in that stage. -/
inductive Stance.Travels (p : Partition M) (before : List (Deed M)) :
    List (Deed M) → Stance M → Prop
  | between (ds : List (Dispatch M)) (s : Stance M) (h : s.Between p ds) :
      Travels p before (before ++ ds.map .dispatch) s
  | left (q : Partition M) (seen : List (Deed M)) (party : Party M)
      (h : party.Began p before q seen) : Travels p before seen (.ready party)

/-- What a partition has done when the last stage begins with the row `last`, and what it has
carried through the timed run, if the first stage has led to the row `row`. -/
def Joined (rows : Nat → Row M) (k : Nat) (last : Row M) (j : PartitionId)
    (before : List (Deed M)) : Prop :=
  ∃ p q ds, (rows k)[j]? = some p ∧ last[j]? = some q ∧ p.dropUnread.Carries ds q ∧
    before = Stage.init.deedsBefore rows k j ++ ds.map .dispatch

/-- How far a run has come, and what has been done then. -/
inductive Cohort.Told (cohort : Cohort M) (tables : List RouteTable) (first : Row M)
    (deeds : List (PartitionId × Deed M)) : Prop
  | init (rows : Nat → Row M) (k : Nat) (hfirst : rows 0 = first)
      (hphase : cohort.Phase tables .init rows k (fun _ before => before = []) deeds)
      (honly : ∀ entry ∈ deeds, entry.2.IsInit)
  | timed (rows : Nat → Row M) (k : Nat) (hfirst : rows 0 = first)
      (hended : Stage.init.Ended tables cohort.length rows k)
      (hstands : ∀ (j : Nat) (s : Stance M), cohort[j]? = some s → ∃ p,
        (rows (k + 1))[j]? = some p ∧ s.Travels p.dropUnread
          (Stage.init.deedsBefore rows (k + 1) j) (System.seenOf j deeds))
      (horder : InitFirst deeds)
  | complete (rows lasts : Nat → Row M) (k l : Nat) (hfirst : rows 0 = first)
      (hended : Stage.init.Ended tables cohort.length rows k)
      (hphase : cohort.Phase tables .complete lasts l (Joined rows (k + 1) (lasts 0)) deeds)
      (horder : InitFirst deeds)
  | finished (rows lasts : Nat → Row M) (k l : Nat) (hfirst : rows 0 = first)
      (hended : Stage.init.Ended tables cohort.length rows k)
      (hlast : Stage.complete.Ended tables cohort.length lasts l)
      (hstands : ∀ (j : Nat) (s : Stance M), cohort[j]? = some s → ∃ p stop before,
        (lasts (l + 1))[j]? = some p ∧ s = .ended stop p.dropUnread ∧
          Joined rows (k + 1) (lasts 0) j before ∧ System.seenOf j deeds =
            before ++ Stage.complete.deedsBefore lasts (l + 1) j)
      (horder : InitFirst deeds)

/-- A run that is over: the rows of both stages, and what every partition has done. -/
structure Cohort.Recorded (cohort : Cohort M) (tables : List RouteTable) (first : Row M)
    (deeds : List (PartitionId × Deed M)) (rows : Stage → Nat → Row M) (last : Stage → Nat) :
    Prop where
  first : rows .init 0 = first
  ended : ∀ stage : Stage, stage.Ended tables cohort.length (rows stage) (last stage)
  stands : ∀ (j : Nat) (s : Stance M), cohort[j]? = some s → ∃ p q r stop ds,
    (rows .init (last .init + 1))[j]? = some p ∧ (rows .complete 0)[j]? = some q ∧
      (rows .complete (last .complete + 1))[j]? = some r ∧ p.dropUnread.Carries ds q ∧
        s = .ended stop r.dropUnread ∧ System.seenOf j deeds =
          Stage.init.deedsBefore (rows .init) (last .init + 1) j ++ ds.map .dispatch ++
            Stage.complete.deedsBefore (rows .complete) (last .complete + 1) j
  places : ∀ entry ∈ deeds, entry.1 < cohort.length
  order : InitFirst deeds

namespace Cohort.Told

variable {cohort next : Cohort M} {tables : List RouteTable} {pending : List (String × LinkEnd)}
  {first : Row M} {deeds : List (PartitionId × Deed M)} {S : Setting} {m : Moment}

/-- A partition on its way between the stages works on. -/
theorem travels_workOn {p q : Partition M} {work : Work} {before seen : List (Deed M)} {i : Nat}
    (h : (Stance.running work q).Travels p before seen) (hlifecycle : q.lifecycle = true)
    (hfits : Fits S m (.running work q)) (hconforms : q.Conforms S i) (hi : i < S.partitions) :
    (∃ e r, (Thread.workOn work q).stance = .failed e r) ∨
      ((Thread.workOn work q).stance.Travels p before (seen ++ (work.deed? q).toList) ∧
        ∀ k, work.phase? ≠ some (.init, k)) := by
  generalize hs : Stance.running work q = s at h
  cases h with
  | left q seen party hbegan => cases hs
  | between ds s hbetween =>
    cases hbetween with
    | meeting q hcarries => cases hs
    | running q hcarries =>
      cases hs
      rcases Stance.Between.work hcarries hlifecycle hfits hconforms hi with hfailed | hbetween
      · exact Or.inl hfailed
      · refine Or.inr ⟨?_, fun k => by simp [Work.phase?]⟩
        have hdeeds : before ++ ds.map .dispatch ++ (Work.timed.deed? q).toList =
            before ++ (ds ++ q.next?.toList).map .dispatch := by
          rw [List.append_assoc, List.map_append]
          unfold Work.deed?
          cases q.next? <;> rfl
        rw [hdeeds]
        exact .between _ _ hbetween
    | leaving stop q hcarries hboxes =>
      cases hs
      have hwork : (Work.complete 0 stop).phase? = some (.complete, 0) := rfl
      rcases Stance.InPhase.work (p := q) hwork with hfailed | ⟨own, r, hrun, hready⟩
      · exact Or.inl hfailed
      · rw [hready]
        exact Or.inr ⟨.left q _ _ (.intro ds stop r own hcarries hboxes hrun),
          fun k => by simp [Work.phase?]⟩

theorem work {i : Nat} {work : Work} {p : Partition M} (h : cohort.Told tables first deeds)
    (hagrees : cohort.Agrees S m) (hconforms : cohort.Conforms S) (hlifecycle : S.lifecycle = true)
    (hs : cohort[i]? = some (.running work p)) :
    Broken (cohort.set i (Thread.workOn work p).stance) ∨
      Cohort.Told (cohort.set i (Thread.workOn work p).stance) tables first
        (deeds ++ deedAt i (work.deed? p)) := by
  have hlength : (cohort.set i (Thread.workOn work p).stance).length = cohort.length :=
    List.length_set ..
  have hnew : (∀ k, work.phase? ≠ some (.init, k)) →
      ∀ entry ∈ deedAt i (work.deed? p), ¬ entry.2.IsInit := by
    rintro hne entry hentry ⟨k, hk⟩
    rw [phase?_of_mem_deedAt hentry] at hk
    exact hne k hk
  cases h with
  | init rows k hfirst hphase honly =>
    rcases hphase.work hs with hbroken | ⟨hwork, hphase⟩
    · exact Or.inl hbroken
    · refine Or.inr (.init rows k hfirst hphase fun entry hentry => ?_)
      rcases List.mem_append.mp hentry with hentry | hentry
      · exact honly entry hentry
      · exact ⟨k, by rw [phase?_of_mem_deedAt hentry, hwork]⟩
  | timed rows k hfirst hended hstands horder =>
    have hlt : i < S.partitions := by
      rw [← hconforms.length]
      exact (List.getElem?_eq_some_iff.mp hs).1
    have hconform := hconforms.each i _ hs
    obtain ⟨q, hq, htravels⟩ := hstands i _ hs
    rcases travels_workOn htravels (hconform.lifecycle.trans hlifecycle) (hagrees i _ hs) hconform
      hlt with ⟨e, r, hfailed⟩ | ⟨hnext, hne⟩
    · exact Or.inl (.of_failed (i := i) (e := e) (p := r)
        (by rw [hfailed]; exact getElem?_set_of_some hs))
    · refine Or.inr (.timed rows k hfirst (hlength ▸ hended) ?_ (horder.append (hnew hne)))
      refine forall_set (fun j s hji hsj => ?_) ?_
      · rw [System.seenOf_append, seenOf_deedAt_of_ne (Ne.symm hji), List.append_nil]
        exact hstands j s hsj
      · rw [System.seenOf_append, seenOf_deedAt_self]
        exact ⟨q, hq, hnext⟩
  | complete rows lasts k l hfirst hended hphase horder =>
    rcases hphase.work hs with hbroken | ⟨hwork, hphase⟩
    · exact Or.inl hbroken
    · refine Or.inr (.complete rows lasts k l hfirst (hlength ▸ hended) hphase
        (horder.append (hnew fun j => ?_)))
      rw [hwork]
      simp
  | finished rows lasts k l hfirst hended hlast hstands horder =>
    obtain ⟨q, stop, before, _, hended, _⟩ := hstands i _ hs
    cases hended

theorem began_of_travels {p : Partition M} {before seen : List (Deed M)} {party : Party M}
    (h : (Stance.ready party).Travels p before seen) (huntimed : ∃ own, party.kind = .untimed own) :
    ∃ q, party.Began p before q seen := by
  generalize hs : Stance.ready party = s at h
  cases h with
  | left q seen party hbegan =>
    cases hs
    exact ⟨q, hbegan⟩
  | between ds s hbetween =>
    cases hbetween with
    | running q hcarries => cases hs
    | leaving stop q hcarries hboxes => cases hs
    | meeting q hcarries =>
      cases hs
      obtain ⟨own, hkind⟩ := huntimed
      cases hkind

/-- What a party has begun the last stage as. -/
theorem clear_of_began {p q : Partition M} {before seen : List (Deed M)} {party : Party M} {j : Nat}
    (h : party.Began p before q seen) (hconforms : party.partition.Conforms S j) :
    q.inbox = {} ∧ q.Clear j ∧ q.routes = party.partition.routes := by
  cases h with
  | intro ds stop r own hcarries hboxes hrun =>
    have hphased := Partition.phased_runPhase q .complete 0
    rw [hrun] at hphased
    have hlike : r.Like q := .phased hphased
    refine ⟨hcarries.inbox, ⟨hlike.id.symm.trans hconforms.id, ?_, ?_, hboxes⟩, hlike.routes.symm⟩
    · rw [← hlike.routes]
      exact ⟨hconforms.table, fun link route peer hget hdelivery =>
        (hconforms.crossing link route peer hget hdelivery).2.1⟩
    · rw [hcarries.inbox]

/-- All who have gone through the first phase of the last stage have begun it somehow. -/
theorem exists_last {parties : List (Party M)} {rows : Nat → Row M} {k : Nat}
    (hstands : ∀ (j : Nat) (s : Stance M), (parties.map Stance.ready)[j]? = some s → ∃ p,
      (rows k)[j]? = some p ∧ s.Travels p.dropUnread
        (Stage.init.deedsBefore rows k j) (System.seenOf j deeds))
    (huntimed : ∀ q ∈ parties, ∃ own, q.kind = .untimed own) :
    ∃ last : Row M, last.length = parties.length ∧
      ∀ (j : Nat) (q : Partition M), last[j]? = some q → ∃ p party,
        (rows k)[j]? = some p ∧ parties[j]? = some party ∧ party.Began p.dropUnread
          (Stage.init.deedsBefore rows k j) q (System.seenOf j deeds) := by
  refine exists_list fun j hj => ?_
  obtain ⟨party, hparty⟩ : ∃ party, parties[j]? = some party := ⟨_, List.getElem?_eq_getElem hj⟩
  obtain ⟨p, hp, htravels⟩ := hstands j _ (getElem?_ready hparty)
  obtain ⟨q, hq⟩ := began_of_travels htravels (huntimed party (List.mem_of_getElem? hparty))
  exact ⟨q, p, party, hp, hparty, hq⟩

/-- The last stage begins with nothing that waits, whatever the timed run has left. -/
theorem ran_last {parties : List (Party M)} {rows : Nat → Row M} {k : Nat} {last : Row M}
    (hlength : last.length = parties.length)
    (hlast : ∀ (j : Nat) (q : Partition M), last[j]? = some q → ∃ p party,
      (rows k)[j]? = some p ∧ parties[j]? = some party ∧ party.Began p.dropUnread
        (Stage.init.deedsBefore rows k j) q (System.seenOf j deeds))
    (hconforms : Cohort.Conforms (parties.map Stance.ready) S)
    (htables : ∀ (j : Nat) (s : Stance M), (parties.map Stance.ready)[j]? = some s →
      tables[j]? = some s.partition.routes) :
    Stage.complete.Ran tables (parties.map Stance.ready).length (fun _ => last) 0 := by
  have hclear : ∀ (j : Nat) (q : Partition M), last[j]? = some q →
      q.inbox = {} ∧ q.Clear j ∧ tables[j]? = some q.routes := by
    intro j q hq
    obtain ⟨p, party, _, hparty, hq⟩ := hlast j q hq
    obtain ⟨hinbox, hclear, hroutes⟩ :=
      clear_of_began hq (hconforms.each j _ (getElem?_ready hparty))
    rw [hroutes]
    exact ⟨hinbox, hclear, htables j _ (getElem?_ready hparty)⟩
  constructor
  case first =>
    intro q hq
    obtain ⟨j, hj⟩ := List.mem_iff_getElem?.mp hq
    exact (hclear j q hj).1
  case length => exact fun i _ => by rw [hlength, List.length_map]
  case clear =>
    exact fun i _ => ⟨fun j q hq => (hclear j q hq).2.1, fun j q hq => (hclear j q hq).2.2⟩
  case passed => exact fun i hi => absurd hi (Nat.not_lt_zero i)

/-- When all have left the timed run, they are in the first phase of the last stage. -/
theorem convene {parties : List (Party M)} {rows : Nat → Row M} {k : Nat}
    (hstands : ∀ (j : Nat) (s : Stance M), (parties.map Stance.ready)[j]? = some s → ∃ p,
      (rows k)[j]? = some p ∧ s.Travels p.dropUnread
        (Stage.init.deedsBefore rows k j) (System.seenOf j deeds))
    (hconforms : Cohort.Conforms (parties.map Stance.ready) S)
    (htables : ∀ (j : Nat) (s : Stance M), (parties.map Stance.ready)[j]? = some s →
      tables[j]? = some s.partition.routes)
    (huntimed : ∀ q ∈ parties, ∃ own, q.kind = .untimed own) :
    ∃ last : Row M, Cohort.Phase (parties.map Stance.ready) tables .complete (fun _ => last) 0
      (Joined rows k last) deeds := by
  obtain ⟨last, hlength, hlast⟩ := exists_last hstands huntimed
  refine ⟨last, ran_last hlength hlast hconforms htables,
    fun i hi => absurd hi (Nat.not_lt_zero i), fun j s hs => ?_⟩
  obtain ⟨q, hq⟩ : ∃ q, last[j]? = some q := by
    have hj := (List.getElem?_eq_some_iff.mp hs).1
    rw [List.length_map] at hj
    exact ⟨_, List.getElem?_eq_getElem (hlength ▸ hj)⟩
  obtain ⟨p, party, hp, hparty, hbegan⟩ := hlast j q hq
  rw [getElem?_ready hparty] at hs
  cases hs
  generalize hseen : System.seenOf j deeds = seen at hbegan ⊢
  cases hbegan with
  | intro ds stop r own hcarries hboxes hrun =>
    refine ⟨q, _, hq, ⟨p, q, ds, hp, hq, hcarries, rfl⟩, ?_⟩
    have hnone : Stage.complete.deedsBefore (fun _ => last) 0 j = [] := rfl
    rw [hnone, List.append_nil]
    exact .done (.complete 0 stop) r own rfl hrun

/-- Everyone goes on in the first stage, or comes out of it. -/
theorem go_on {parties : List (Party M)} {rows : Nat → Row M} {k : Nat} (hfirst : rows 0 = first)
    (hphase : Cohort.Phase (parties.map Stance.ready) tables .init rows k
      (fun _ before => before = []) deeds)
    (honly : ∀ entry ∈ deeds, entry.2.IsInit) (hwiring : Wiring tables pending) :
    (exchanged parties).Told tables first deeds := by
  have hzero : ∀ next, Stage.extended rows k next 0 = first :=
    fun next => (Stage.extended_le (Nat.zero_le k)).trans hfirst
  by_cases hleast : Party.least parties = Time.never
  · refine .timed _ k (hzero _) (hphase.exchange_quiet hwiring hleast) (fun j s hs => ?_)
      (.of_init honly)
    obtain ⟨work, r, own, before, hwork, hnext, rfl, rfl, hseen⟩ := hphase.exchanged hs
    cases work with
    | timed => cases hwork
    | complete i stop => cases hwork
    | init i =>
      refine ⟨_, by rw [Stage.extended_succ]; exact hnext, ?_⟩
      rw [Party.conclude_init hleast, hseen, Cohort.Phase.deedsBefore_extended, List.nil_append]
      have hcarries : (r.arrive own ((Party.incoming parties j).filterMap fun a =>
          a.payload.event?)).dropUnread.Carries [] _ :=
        .start rfl (total_size_empty _)
      have htravels := @Stance.Travels.between M _ (Stage.init.deedsBefore rows (k + 1) j)
        [] _ (.running _ hcarries)
      rw [List.map_nil, List.append_nil] at htravels
      exact htravels
  · exact .init _ (k + 1) (hzero _) (hphase.exchange_busy hwiring hleast) honly

/-- An epoch keeps everyone between the stages. -/
theorem meet {parties : List (Party M)} {rows : Nat → Row M} {k : Nat}
    (hstands : ∀ (j : Nat) (s : Stance M), (parties.map Stance.ready)[j]? = some s → ∃ p,
      (rows k)[j]? = some p ∧ s.Travels p.dropUnread
        (Stage.init.deedsBefore rows k j) (System.seenOf j deeds))
    (hconforms : Cohort.Conforms (parties.map Stance.ready) S) (hlifecycle : S.lifecycle = true)
    (hepoch : ∀ q ∈ parties, q.kind = .epoch) :
    ∀ (j : Nat) (s : Stance M), (exchanged parties)[j]? = some s → ∃ p, (rows k)[j]? = some p ∧
      s.Travels p.dropUnread (Stage.init.deedsBefore rows k j) (System.seenOf j deeds) := by
  intro j s hs
  obtain ⟨party, hparty, rfl⟩ := Cohort.getElem?_exchanged hs
  have hready := getElem?_ready hparty
  obtain ⟨p, hp, htravels⟩ := hstands j _ hready
  have hkind := hepoch party (List.mem_of_getElem? hparty)
  have hlife := (hconforms.each j _ hready).lifecycle.trans hlifecycle
  refine ⟨p, hp, ?_⟩
  generalize hs : Stance.ready party = s at htravels
  generalize System.seenOf j deeds = seen at htravels ⊢
  cases htravels with
  | left q seen party hbegan =>
    cases hs
    cases hbegan
    cases hkind
  | between ds s hbetween =>
    cases hbetween with
    | running q hcarries => cases hs
    | leaving stop q hcarries hboxes => cases hs
    | meeting q hcarries =>
      cases hs
      exact .between ds _ (.conclude hcarries hlife _ _)

theorem finish {parties : List (Party M)} {rows lasts : Nat → Row M} {k l : Nat}
    (hfirst : rows 0 = first)
    (hended : Stage.init.Ended tables (parties.map Stance.ready).length rows k)
    (hphase : Cohort.Phase (parties.map Stance.ready) tables .complete lasts l
      (Joined rows (k + 1) (lasts 0)) deeds)
    (hwiring : Wiring tables pending) (horder : InitFirst deeds) :
    (exchanged parties).Told tables first deeds := by
  have hlength := length_exchanged parties
  have hzero : ∀ next, Stage.extended lasts l next 0 = lasts 0 :=
    fun next => Stage.extended_le (Nat.zero_le l)
  by_cases hleast : Party.least parties = Time.never
  · refine .finished rows _ k l hfirst (hlength ▸ hended)
      (hphase.exchange_quiet hwiring hleast) (fun j s hs => ?_) horder
    obtain ⟨work, r, own, before, hwork, hnext, rfl, hbefore, hseen⟩ := hphase.exchanged hs
    cases work with
    | init i => cases hwork
    | timed => cases hwork
    | complete i stop =>
      refine ⟨_, stop, before, by rw [Stage.extended_succ]; exact hnext,
        Party.conclude_complete hleast, ?_, ?_⟩
      · rw [hzero]
        exact hbefore
      · rw [Cohort.Phase.deedsBefore_extended]
        exact hseen
  · refine .complete rows (Stage.extended lasts l ((lasts l).next .complete l parties)) k (l + 1)
      hfirst (hlength ▸ hended) ?_ horder
    rw [hzero]
    exact hphase.exchange_busy hwiring hleast

theorem exchange {parties : List (Party M)}
    (h : Cohort.Told (parties.map Stance.ready) tables first deeds) (hne : parties ≠ [])
    (hagrees : Cohort.Agrees (parties.map Stance.ready) S m)
    (hconforms : Cohort.Conforms (parties.map Stance.ready) S) (hlifecycle : S.lifecycle = true)
    (htables : ∀ (j : Nat) (s : Stance M), (parties.map Stance.ready)[j]? = some s →
      tables[j]? = some s.partition.routes)
    (hwiring : Wiring tables pending) : (exchanged parties).Told tables first deeds := by
  have hlength := length_exchanged parties
  cases h with
  | complete rows lasts k l hfirst hended hphase horder =>
    exact finish hfirst hended hphase hwiring horder
  | finished rows lasts k l hfirst hended hlast hstands horder =>
    obtain ⟨q, rest, rfl⟩ := List.exists_cons_of_ne_nil hne
    obtain ⟨_, _, _, _, hs, _⟩ := hstands 0 (.ready q) rfl
    cases hs
  | init rows k hfirst hphase honly => exact go_on hfirst hphase honly hwiring
  | timed rows k hfirst hended hstands horder =>
    rcases hagrees.kinds with hepoch | huntimed
    · refine .timed rows k hfirst (hlength ▸ hended) ?_ horder
      exact meet hstands hconforms hlifecycle fun q hq => (hepoch q hq).1
    · obtain ⟨last, hphase⟩ := convene hstands hconforms htables huntimed
      exact finish hfirst hended hphase hwiring horder

theorem step {label : Option PartitionId} (h : cohort.Broken ∨ cohort.Told tables first deeds)
    (hagrees : cohort.Agrees S m) (hconforms : cohort.Conforms S) (hlifecycle : S.lifecycle = true)
    (htables : ∀ (j : Nat) (s : Stance M), cohort[j]? = some s →
      tables[j]? = some s.partition.routes)
    (hwiring : Wiring tables pending) (hstep : cohort.step? label = some next) :
    next.Broken ∨ next.Told tables first (deeds ++ (Cohort.deeds M).note cohort label) := by
  cases label with
  | none =>
    obtain ⟨parties, hne, rfl, rfl⟩ := exchange?_eq_some_iff.mp hstep
    rcases h with hbroken | htold
    · exact absurd hbroken (not_broken_ready parties)
    · have hnote : (Cohort.deeds M).note (parties.map Stance.ready) none = [] := rfl
      rw [hnote, List.append_nil]
      exact Or.inr (htold.exchange hne hagrees hconforms hlifecycle htables hwiring)
  | some i =>
    obtain ⟨work, p, hi, rfl⟩ := step?_some_iff.mp hstep
    have hnote : (Cohort.deeds M).note cohort (some i) = deedAt i (work.deed? p) := by
      show deedAt i (cohort[i]?.bind Stance.deed?) = _
      rw [hi]
      rfl
    rw [hnote]
    rcases h with hbroken | htold
    · exact Or.inl (hbroken.set hi (Or.inl fun _ _ h => by cases h))
    · exact htold.work hagrees hconforms hlifecycle hi

theorem recorded (h : cohort.Told tables first deeds) (hpos : 0 < cohort.length)
    (hplaces : ∀ entry ∈ deeds, entry.1 < cohort.length)
    (hended : ∀ s ∈ cohort, ∃ stop p, s = .ended stop p) :
    ∃ rows last, cohort.Recorded tables first deeds rows last := by
  obtain ⟨s, hs⟩ : ∃ s, cohort[0]? = some s := ⟨_, List.getElem?_eq_getElem hpos⟩
  obtain ⟨stop, p, rfl⟩ := hended s (List.mem_of_getElem? hs)
  cases h with
  | init rows k hfirst hphase honly =>
    obtain ⟨_, _, _, _, hin⟩ := hphase.stands 0 _ hs
    generalize System.seenOf 0 deeds = seen at hin
    cases hin
  | timed rows k hfirst hinit hstands horder =>
    obtain ⟨_, _, htravels⟩ := hstands 0 _ hs
    generalize System.seenOf 0 deeds = seen at htravels
    cases htravels with
    | between ds s hbetween => cases hbetween
  | complete rows lasts k l hfirst hinit hphase horder =>
    obtain ⟨_, _, _, _, hin⟩ := hphase.stands 0 _ hs
    generalize System.seenOf 0 deeds = seen at hin
    cases hin
  | finished rows lasts k l hfirst hinit hlast hstands horder =>
    let all : Stage → Nat → Row M
      | .init => rows
      | .complete => lasts
    let last : Stage → Nat
      | .init => k
      | .complete => l
    refine ⟨all, last, hfirst, fun stage => ?_, fun j s hs => ?_, hplaces, horder⟩
    · cases stage with
      | init => exact hinit
      | complete => exact hlast
    · obtain ⟨r, stop, before, hr, rfl, ⟨p, q, ds, hp, hq, hcarries, rfl⟩, hseen⟩ := hstands j s hs
      exact ⟨p, q, r, stop, ds, hp, hq, hr, hcarries, rfl, hseen⟩

end Cohort.Told

/-! ## Runs -/

namespace Simulation

variable {b : Builder M} {log : List (Planned M.Payload)} {simulation : Simulation M}

def row (simulation : Simulation M) : Row M := simulation.partitions.map Partition.start

/-- Each of them as it was set up. -/
theorem row_eq (hbuild : b.build = .ok simulation) : ∃ window, simulation.row =
    b.setups.mapIdx fun j setup => (b.partition window j setup).start := by
  obtain ⟨_, window, _, rfl⟩ := Builder.build_eq_ok hbuild
  refine ⟨window, List.ext_getElem? fun j => ?_⟩
  unfold row
  rw [List.getElem?_map, List.getElem?_mapIdx, List.getElem?_mapIdx, Option.map_map]
  rfl

/-- Nothing untimed waits anywhere at the start. -/
theorem ran_start (hb : b.Made log) (hbuild : b.build = .ok simulation) :
    Stage.init.Ran b.tables simulation.cohort.length (fun _ => simulation.row) 0 := by
  obtain ⟨window, hrow⟩ := row_eq hbuild
  have hsetup : ∀ (j : Nat) (q : Partition M), simulation.row[j]? = some q →
      q.id = j ∧ q.inbox = {} ∧ b.tables[j]? = some q.routes ∧
        ∃ n, q.member.outbound = List.replicate n {} := by
    intro j q hq
    rw [hrow, List.getElem?_mapIdx] at hq
    obtain ⟨setup, hsetup, rfl⟩ := Option.map_eq_some_iff.mp hq
    exact ⟨rfl, rfl, hb.sound.table hsetup, _, rfl⟩
  constructor
  case first =>
    intro q hq
    obtain ⟨j, hj⟩ := List.mem_iff_getElem?.mp hq
    exact (hsetup j q hj).2.1
  case length =>
    intro i _
    rw [row, cohort, List.length_map, List.length_map]
  case clear =>
    intro i _
    refine ⟨fun j q hq => ?_, fun j q hq => (hsetup j q hq).2.2.1⟩
    obtain ⟨hid, hinbox, htable, n, houtbound⟩ := hsetup j q hq
    refine ⟨hid, hb.sound.wiring.serves htable, by rw [hinbox], ?_⟩
    intro i
    unfold Partition.box
    rw [houtbound, List.getElem?_replicate]
    split <;> rfl
  case passed => exact fun i hi => absurd hi (Nat.not_lt_zero i)

theorem told_start (hb : b.Made log) (hbuild : b.build = .ok simulation)
    (hlifecycle : b.lifecycle = true) : simulation.cohort.Told b.tables simulation.row [] := by
  refine .init (fun _ => simulation.row) 0 rfl ?_ (fun entry hentry => by cases hentry)
  constructor
  case ran => exact ran_start hb hbuild
  case busy => exact fun i hi => absurd hi (Nat.not_lt_zero i)
  case stands =>
    intro j s hs
    obtain ⟨p, hp, rfl⟩ := exists_stance_start hs
    have hstart : (Thread.start p).stance = .running (.init 0) p.start := by
      unfold Thread.start
      rw [((hb.build hbuild).2.2 j p hp).1, if_pos hlifecycle]
      rfl
    rw [hstart]
    refine ⟨p.start, [], ?_, rfl, .begun (.init 0) rfl⟩
    rw [row, List.getElem?_map, hp]
    rfl

/-- Every run with untimed stages is told, unless a partition has failed. -/
theorem told_run (hb : b.Made log) (hbuild : b.build = .ok simulation)
    (hlifecycle : b.lifecycle = true) {labels : List (Option PartitionId)}
    {deeds : List (PartitionId × Deed M)} {cohort : Cohort M}
    (hrun : (Cohort.deeds M).Run simulation.cohort labels deeds cohort) :
    cohort.Broken ∨ cohort.Told b.tables simulation.row deeds := by
  induction hrun with
  | refl => exact Or.inr (told_start hb hbuild hlifecycle)
  | step hrun hstep ih =>
    have htimed := Cohort.run_timedOf hrun
    obtain ⟨hconforms, m, hagrees⟩ := agrees_run hb hbuild htimed
    refine Cohort.Told.step ih hagrees hconforms hlifecycle (fun j s hs => ?_) hb.sound.wiring hstep
    rw [routes_run hbuild htimed j s hs]
    have hlt := (List.getElem?_eq_some_iff.mp hs).1
    rw [hconforms.length] at hlt
    obtain ⟨setup, hsetup⟩ : ∃ setup, b.setups[j]? = some setup := by
      have hsize : simulation.partitions.length = b.setups.length := by
        obtain ⟨_, window, _, rfl⟩ := Builder.build_eq_ok hbuild
        exact List.length_mapIdx ..
      exact ⟨_, List.getElem?_eq_getElem (hsize ▸ hlt)⟩
    exact hb.sound.table hsetup

end Simulation

end Lookahead
