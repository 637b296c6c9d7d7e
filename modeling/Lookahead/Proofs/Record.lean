import Lookahead.Proofs.Chronicle
import Lookahead.Proofs.Delivery

/-!
What is to be seen of the untimed stages of a run that is over.

Which handlers are called in a phase, what they send and read and what becomes of it is told by the
deeds alone; the rows of partitions that the run went through only serve to prove it.
-/

namespace Lookahead

variable {M : Model}

/-! ## What deeds show -/

section

variable (deeds : List (PartitionId × Deed M)) (stage : Stage) (k : Nat)

def callsIn (j : PartitionId) : List (PhaseCall M) :=
  ((System.seenOf j deeds).filter fun d => d.phase? = some (stage, k)).flatMap Deed.calls

def actsIn (j : PartitionId) : List (PhaseAct M.Payload) :=
  (callsIn deeds stage k j).flatMap fun call => call.acts

def sentUntil (e : LinkEnd) : List M.Payload :=
  (List.range k).flatMap fun i => PhaseAct.sentOn e.link (actsIn deeds stage i e.partition)

def readUntil (f : LinkEnd) : List M.Payload :=
  (List.range k).flatMap fun i => PhaseAct.readOn f.link (actsIn deeds stage i f.partition)

def mailIn (j : PartitionId) : List (Event M.Payload) :=
  deeds.flatMap fun entry => PhaseAct.mailTo j entry.2.mails

def readIn (j : PartitionId) : List M.Payload := (System.seenOf j deeds).flatMap Deed.reads

end

/-- A stage goes through so many phases in each of `n` partitions, the last of which is the first
one in which nobody sends anything. Whoever reads on a link end gets what was sent on the other end
in the phases before, one after the other. -/
structure Stage.Unfolds (stage : Stage) (tables : List RouteTable) (n phases : Nat)
    (deeds : List (PartitionId × Deed M)) : Prop where
  positive : 1 ≤ phases
  quiet : ∀ k < phases,
    (∀ j < n, ∀ act ∈ actsIn deeds stage k j, ¬ act.IsSent) ↔ k + 1 = phases
  answers : ∀ e f, Wired tables e f → ∀ k < phases,
    ∀ (before after : List (PhaseAct M.Payload)) (answer : Option M.Payload),
      actsIn deeds stage k f.partition = before ++ .read f.link answer :: after →
        answer = (sentUntil deeds stage k e)[(readUntil deeds stage k f).length +
          (PhaseAct.readOn f.link before).length]?
  in_order : ∀ e f, Wired tables e f →
    readUntil deeds stage phases f <+: sentUntil deeds stage phases e

/-- A partition goes through the phases of the first stage, makes its dispatches and goes through
the phases of the last stage. In each phase it calls each of its untimed handlers once and in order
and tells them how many phases are over, and each of them goes on as what it was after its call
before. -/
structure Attends (participants : List M.Participant) (phases : Stage → Nat)
    (deeds : List (PartitionId × Deed M)) (j : PartitionId) : Prop where
  order : ∃ dispatches, (System.seenOf j deeds).map Deed.phase? =
    (List.range (phases .init)).map (fun k => some (.init, k)) ++
      List.replicate dispatches none ++
        (List.range (phases .complete)).map fun k => some (.complete, k)
  once : ∀ stage, ∀ k < phases stage, (callsIn deeds stage k j).length = participants.length
  told : ∀ stage, ∀ k < phases stage, ∀ call ∈ callsIn deeds stage k j,
    call.view = .after j stage k
  first : (callsIn deeds .init 0 j).map (·.participant) = participants
  next : ∀ stage k, k + 1 < phases stage → (callsIn deeds stage k j).map (·.next?) =
    (callsIn deeds stage (k + 1) j).map fun call => some call.participant
  between : (callsIn deeds .init (phases .init - 1) j).map (·.next?) =
    (callsIn deeds .complete 0 j).map fun call => some call.participant

/-- A report counts the untimed events for its partition and the ones that were not read there, and
none of them among the timed ones. -/
structure PartitionReport.Counts (r : PartitionReport) (deeds : List (PartitionId × Deed M))
    (j : PartitionId) : Prop where
  partition : r.partition = j
  received : r.tally.untimedReceived = (mailIn deeds j).length
  dropped : r.tally.untimedDropped + (readIn deeds j).length = r.tally.untimedReceived
  fires : r.tally.clockFires = total Dispatch.cycles (System.seenOf j (timedOf deeds))
  exchanged : r.exchanged + total Dispatch.discarded (System.seenOf j (timedOf deeds)) =
    total Dispatch.leaving (System.seenOf j (timedOf deeds))

/-! ## Deeds of one stage -/

namespace Stage

variable {rows : Nat → Row M} {k : Nat}

theorem deedsBefore_next (stage : Stage) (rows : Nat → Row M) (k : Nat) (j : PartitionId) :
    stage.deedsBefore rows (k + 1) j =
      stage.deedsBefore rows k j ++ ((rows k)[j]?.map (Deed.phase stage k)).toList :=
  flatMap_range_succ _ k

theorem filter_deedsBefore (stage other : Stage) (rows : Nat → Row M) (phases k : Nat)
    (j : PartitionId) :
    (stage.deedsBefore rows phases j).filter (fun d => d.phase? = some (other, k)) =
      if stage = other ∧ k < phases then ((rows k)[j]?.map (Deed.phase stage k)).toList
      else [] := by
  induction phases with
  | zero => simp [deedsBefore]
  | succ phases ih =>
    have hlast : (((rows phases)[j]?.map (Deed.phase stage phases)).toList).filter
        (fun d => d.phase? = some (other, k)) =
          if stage = other ∧ k = phases then ((rows k)[j]?.map (Deed.phase stage k)).toList
          else [] := by
      by_cases hk : k = phases
      · subst hk
        cases (rows k)[j]? <;> by_cases hstage : stage = other <;> simp [hstage]
      · cases (rows phases)[j]? <;> simp [hk, Ne.symm hk]
    rw [deedsBefore_next, List.filter_append, ih, hlast]
    by_cases hstage : stage = other
    · rcases Nat.lt_trichotomy k phases with hk | hk | hk
      · simp [hstage, hk, Nat.ne_of_lt hk, Nat.lt_succ_of_lt hk]
      · simp [hstage, hk]
      · simp [hstage, Nat.not_lt.mpr (Nat.le_of_lt hk), Nat.ne_of_gt hk, Nat.not_lt.mpr hk]
    · simp [hstage]

theorem map_phase?_deedsBefore (stage : Stage) {phases : Nat} {j : PartitionId}
    (h : ∀ i < phases, ∃ p, (rows i)[j]? = some p) :
    (stage.deedsBefore rows phases j).map Deed.phase? =
      (List.range phases).map fun k => some (stage, k) := by
  induction phases with
  | zero => rfl
  | succ phases ih =>
    obtain ⟨p, hp⟩ := h phases (Nat.lt_succ_self phases)
    rw [deedsBefore_succ hp, List.map_append, ih fun i hi => h i (Nat.lt_succ_of_lt hi),
      List.range_succ, List.map_append]
    rfl

theorem dispatch?_deedsBefore (stage : Stage) (rows : Nat → Row M) (phases : Nat)
    (j : PartitionId) : (stage.deedsBefore rows phases j).filterMap Deed.dispatch? = [] := by
  induction phases with
  | zero => rfl
  | succ phases ih =>
    rw [deedsBefore_next, List.filterMap_append, ih]
    cases (rows phases)[j]? <;> rfl

theorem reads_deedsBefore (stage : Stage) (rows : Nat → Row M) (phases : Nat) (j : PartitionId) :
    (stage.deedsBefore rows phases j).flatMap Deed.reads = stage.readsBefore rows phases j := by
  unfold deedsBefore readsBefore
  rw [List.flatMap_assoc]
  congr 1
  funext i
  unfold actsAt
  cases (rows i)[j]? with
  | none => rfl
  | some p => exact List.flatMap_singleton ..

/-- What all partitions do in a stage adds up to what is done in all its phases. -/
theorem total_deedsBefore (stage : Stage) {n phases : Nat} (figure : Deed M → Nat)
    (h : ∀ i < phases, (rows i).length = n) :
    total (fun j => total figure (stage.deedsBefore rows phases j)) (List.range n) =
      total (fun i => total (fun p => figure (.phase stage i p)) (rows i)) (List.range phases) := by
  have hone : ∀ j, total figure (stage.deedsBefore rows phases j) =
      total (fun i => (rows i)[j]?.elim 0 fun p => figure (.phase stage i p))
        (List.range phases) := by
    intro j
    unfold deedsBefore
    rw [total_flatMap]
    refine total_congr fun i _ => ?_
    cases (rows i)[j]? <;> rfl
  rw [total_congr fun j _ => hone j, total_comm]
  refine total_congr fun i hi => ?_
  rw [← h i (List.mem_range.mp hi)]
  exact (total_eq_range _ fun j p hp => by rw [hp]; rfl).symm

theorem length_mailBefore (stage : Stage) (rows : Nat → Row M) (phases : Nat) (j : PartitionId) :
    (stage.mailBefore rows phases j).length =
      total (fun i => total (fun p => (PhaseAct.mailTo j (p.mails stage i)).length) (rows i))
        (List.range phases) := by
  unfold mailBefore Row.mailTo
  simp only [length_eq_total, total_flatMap]

end Stage

/-! ## Runs that are over -/

namespace Cohort.Recorded

variable {cohort : Cohort M} {tables : List RouteTable} {pending : List (String × LinkEnd)}
  {first : Row M} {deeds : List (PartitionId × Deed M)} {rows : Stage → Nat → Row M}
  {last : Stage → Nat} {stage : Stage} {k : Nat} {j : PartitionId} {p r : Partition M}

theorem exists_stance (hj : j < cohort.length) : ∃ s, cohort[j]? = some s :=
  ⟨_, List.getElem?_eq_getElem hj⟩

theorem seenOf_eq (h : cohort.Recorded tables first deeds rows last) (hj : j < cohort.length) :
    ∃ ds : List (Dispatch M), System.seenOf j deeds =
      Stage.init.deedsBefore (rows .init) (last .init + 1) j ++ ds.map .dispatch ++
        Stage.complete.deedsBefore (rows .complete) (last .complete + 1) j := by
  obtain ⟨s, hs⟩ := exists_stance hj
  obtain ⟨_, _, _, _, ds, _, _, _, _, _, hseen⟩ := h.stands j s hs
  exact ⟨ds, hseen⟩

/-- The calls of a phase are those of the partition that begins it. -/
theorem callsIn_eq (h : cohort.Recorded tables first deeds rows last) (hk : k ≤ last stage)
    (j : PartitionId) :
    callsIn deeds stage k j = (rows stage k)[j]?.elim [] fun p => p.calls stage k := by
  rcases Nat.lt_or_ge j cohort.length with hj | hj
  · obtain ⟨ds, hseen⟩ := h.seenOf_eq hj
    have hnone : (ds.map Deed.dispatch).filter (fun d => d.phase? = some (stage, k)) = [] := by
      rw [List.filter_eq_nil_iff]
      intro d hd
      obtain ⟨_, _, rfl⟩ := List.mem_map.mp hd
      simp
    have hone : (System.seenOf j deeds).filter (fun d => d.phase? = some (stage, k)) =
        ((rows stage k)[j]?.map (Deed.phase stage k)).toList := by
      rw [hseen, List.filter_append, List.filter_append, hnone, Stage.filter_deedsBefore,
        Stage.filter_deedsBefore]
      cases stage <;> simp [Nat.lt_succ_of_le hk]
    unfold callsIn
    rw [hone]
    cases (rows stage k)[j]? with
    | none => rfl
    | some p => exact List.flatMap_singleton ..
  · have hseen : System.seenOf j deeds = [] := by
      rw [List.eq_nil_iff_forall_not_mem]
      intro d hd
      exact absurd (h.places _ (System.mem_seenOf.mp hd)) (Nat.not_lt.mpr hj)
    have hnone : (rows stage k)[j]? = none :=
      List.getElem?_eq_none ((h.ended stage).ran.length k (Nat.le_succ_of_le hk) ▸ hj)
    rw [callsIn, hseen, hnone]
    rfl

theorem actsIn_eq (h : cohort.Recorded tables first deeds rows last) (hk : k ≤ last stage)
    (j : PartitionId) : actsIn deeds stage k j = stage.actsAt (rows stage) k j := by
  unfold actsIn Stage.actsAt
  rw [h.callsIn_eq hk]
  cases (rows stage k)[j]? <;> rfl

theorem sentUntil_eq (h : cohort.Recorded tables first deeds rows last)
    (hk : k ≤ last stage + 1) (e : LinkEnd) :
    sentUntil deeds stage k e = stage.sentBefore (rows stage) k e := by
  unfold sentUntil Stage.sentBefore
  rw [List.flatMap_def, List.flatMap_def]
  congr 1
  refine List.map_congr_left fun i hi => ?_
  have hlt := List.mem_range.mp hi
  rw [h.actsIn_eq (by omega), Stage.sentOn_eq]

theorem readUntil_eq (h : cohort.Recorded tables first deeds rows last)
    (hk : k ≤ last stage + 1) (f : LinkEnd) :
    readUntil deeds stage k f = stage.readBefore (rows stage) k f := by
  unfold readUntil Stage.readBefore
  rw [List.flatMap_def, List.flatMap_def]
  congr 1
  refine List.map_congr_left fun i hi => ?_
  have hlt := List.mem_range.mp hi
  rw [h.actsIn_eq (by omega)]

/-! ### Stages -/

/-- Nobody sends anything in a phase if and only if it is the last one. -/
theorem quiet_iff (h : cohort.Recorded tables first deeds rows last) (hk : k ≤ last stage) :
    (∀ j < cohort.length, ∀ act ∈ actsIn deeds stage k j, ¬ act.IsSent) ↔ k = last stage := by
  have hran := (h.ended stage).ran
  have hbusy : (∀ j < cohort.length, ∀ act ∈ actsIn deeds stage k j, ¬ act.IsSent) ↔
      ¬ (rows stage k).Busy stage k := by
    constructor
    · rintro hnone ⟨p, hp, hmails⟩
      obtain ⟨j, hj⟩ := List.mem_iff_getElem?.mp hp
      refine hmails (((hran.clear k (Nat.le_succ_of_le hk)).each j p hj).mails_eq_nil_iff.mpr ?_)
      rw [← Stage.actsAt_of_some hj, ← h.actsIn_eq hk]
      exact hnone j (hran.lt_of_some (Nat.le_succ_of_le hk) hj)
    · intro hquiet j hj
      obtain ⟨p, hp⟩ := hran.exists_of_lt (Nat.le_succ_of_le hk) hj
      rw [h.actsIn_eq hk, Stage.actsAt_of_some hp]
      refine ((hran.clear k (Nat.le_succ_of_le hk)).each j p hp).mails_eq_nil_iff.mp ?_
      exact Classical.byContradiction fun hmails =>
        hquiet ⟨p, List.mem_of_getElem? hp, hmails⟩
  rw [hbusy]
  constructor
  · intro hquiet
    rcases Nat.lt_or_eq_of_le hk with hlt | heq
    · exact absurd ((h.ended stage).busy k hlt) hquiet
    · exact heq
  · rintro rfl
    exact (h.ended stage).quiet

theorem unfolds (h : cohort.Recorded tables first deeds rows last)
    (hsize : tables.length = cohort.length) (hwiring : Wiring tables pending) (stage : Stage) :
    stage.Unfolds tables cohort.length (last stage + 1) deeds := by
  have hran := (h.ended stage).ran
  constructor
  case positive => exact Nat.succ_pos _
  case quiet =>
    intro k hk
    rw [h.quiet_iff (Nat.le_of_lt_succ hk)]
    omega
  case answers =>
    intro e f hwired k hk before after answer hacts
    rw [h.actsIn_eq (Nat.le_of_lt_succ hk)] at hacts
    rw [h.sentUntil_eq (Nat.le_of_lt hk), h.readUntil_eq (Nat.le_of_lt hk)]
    exact (hran.mono hk).answer_eq hwired hacts
  case in_order =>
    intro e f hwired
    have hlt : f.partition < cohort.length := by
      rw [← hsize]
      exact (hwiring.wired_symm hwired).lt
    obtain ⟨r, hr⟩ := hran.exists_of_lt (Nat.le_refl _) hlt
    rw [h.sentUntil_eq (Nat.le_refl _), h.readUntil_eq (Nat.le_refl _), hran.sent_eq hwired hr]
    exact List.prefix_append ..

/-! ### Partitions -/

theorem callsIn_of_some (h : cohort.Recorded tables first deeds rows last) (hk : k ≤ last stage)
    (hp : (rows stage k)[j]? = some p) : callsIn deeds stage k j = p.calls stage k := by
  rw [h.callsIn_eq hk, hp]
  rfl

/-- A phase calls all handlers, and leaves them as they are after it. -/
theorem called (h : cohort.Recorded tables first deeds rows last) (hk : k ≤ last stage)
    (hp : (rows stage k)[j]? = some p) (hr : (rows stage (k + 1))[j]? = some r) :
    (callsIn deeds stage k j).map (·.participant) = p.participants ∧
      (callsIn deeds stage k j).map (·.next?) = r.participants.map some := by
  have hpassed := (h.ended stage).ran.passed k (Nat.lt_succ_of_le hk) j p r hp hr
  rw [h.callsIn_of_some hk hp]
  exact ⟨hpassed.called, hpassed.nexts⟩

theorem exists_row (h : cohort.Recorded tables first deeds rows last) (hj : j < cohort.length)
    (stage : Stage) (k : Nat) (hk : k ≤ last stage + 1) : ∃ p, (rows stage k)[j]? = some p :=
  (h.ended stage).ran.exists_of_lt hk hj

/-- In the next phase the same handlers are called, as they are by then. -/
theorem next (h : cohort.Recorded tables first deeds rows last) (hj : j < cohort.length)
    (hk : k < last stage) : (callsIn deeds stage k j).map (·.next?) =
      (callsIn deeds stage (k + 1) j).map fun call => some call.participant := by
  obtain ⟨p, hp⟩ := h.exists_row hj stage k (by omega)
  obtain ⟨q, hq⟩ := h.exists_row hj stage (k + 1) (by omega)
  obtain ⟨r, hr⟩ := h.exists_row hj stage (k + 2) (by omega)
  rw [(h.called (by omega) hp hq).2, ← (h.called hk hq hr).1, List.map_map]
  rfl

theorem between (h : cohort.Recorded tables first deeds rows last) (hj : j < cohort.length) :
    (callsIn deeds .init (last .init) j).map (·.next?) =
      (callsIn deeds .complete 0 j).map fun call => some call.participant := by
  obtain ⟨s, hs⟩ := exists_stance hj
  obtain ⟨m, q, _, _, ds, hm, hq, _, hcarries, _⟩ := h.stands j s hs
  obtain ⟨p, hp⟩ := h.exists_row hj .init (last .init) (Nat.le_succ _)
  obtain ⟨r, hr⟩ := h.exists_row hj .complete 1 (by omega)
  have hparticipants : q.participants = m.participants := hcarries.participants
  rw [(h.called (Nat.le_refl _) hp hm).2, ← hparticipants, ← (h.called (Nat.zero_le _) hq hr).1,
    List.map_map]
  rfl

theorem length_callsIn (h : cohort.Recorded tables first deeds rows last)
    (hj : j < cohort.length) (hk : k ≤ last stage) :
    (callsIn deeds stage k j).length = (callsIn deeds stage 0 j).length := by
  induction k with
  | zero => rfl
  | succ k ih =>
    have hsame := congrArg List.length (h.next hj hk)
    rw [List.length_map, List.length_map] at hsame
    rw [← hsame]
    exact ih (Nat.le_of_lt hk)

theorem phases_in_order (h : cohort.Recorded tables first deeds rows last)
    (hj : j < cohort.length) :
    ∃ dispatches, (System.seenOf j deeds).map Deed.phase? =
      (List.range (last .init + 1)).map (fun k => some (.init, k)) ++
        List.replicate dispatches none ++
          (List.range (last .complete + 1)).map fun k => some (.complete, k) := by
  obtain ⟨ds, hseen⟩ := h.seenOf_eq hj
  have hnone : (ds.map Deed.dispatch).map Deed.phase? = List.replicate ds.length none := by
    rw [List.map_map, List.eq_replicate_iff]
    refine ⟨List.length_map .., fun x hx => ?_⟩
    obtain ⟨_, _, rfl⟩ := List.mem_map.mp hx
    rfl
  refine ⟨ds.length, ?_⟩
  rw [hseen, List.map_append, List.map_append, hnone,
    Stage.map_phase?_deedsBefore .init fun i hi => h.exists_row hj _ i (Nat.le_of_lt hi),
    Stage.map_phase?_deedsBefore .complete fun i hi => h.exists_row hj _ i (Nat.le_of_lt hi)]

theorem attends (h : cohort.Recorded tables first deeds rows last)
    (hj : j < cohort.length) (hp : first[j]? = some p) :
    Attends p.participants (fun stage => last stage + 1) deeds j := by
  have hcalled : (callsIn deeds .init 0 j).map (·.participant) = p.participants := by
    obtain ⟨r, hr⟩ := h.exists_row hj .init 1 (by omega)
    exact (h.called (Nat.zero_le _) (by rw [h.first]; exact hp) hr).1
  have hinit : ∀ k ≤ last .init, (callsIn deeds .init k j).length = p.participants.length := by
    intro k hk
    rw [h.length_callsIn hj hk, ← hcalled, List.length_map]
  constructor
  case order => exact h.phases_in_order hj
  case once =>
    intro stage k hk
    cases stage with
    | init => exact hinit k (Nat.le_of_lt_succ hk)
    | complete =>
      have hsame := congrArg List.length (h.between hj)
      rw [List.length_map, List.length_map] at hsame
      rw [h.length_callsIn hj (Nat.le_of_lt_succ hk), ← hsame]
      exact hinit _ (Nat.le_refl _)
  case told =>
    intro stage k hk call hcall
    obtain ⟨q, hq⟩ := h.exists_row hj stage k (Nat.le_of_lt hk)
    rw [h.callsIn_of_some (Nat.le_of_lt_succ hk) hq] at hcall
    rw [view_of_mem_phaseCalls hcall,
      (((h.ended stage).ran.clear k (Nat.le_of_lt hk)).each j q hq).id]
  case first => exact hcalled
  case next => exact fun stage k hk => h.next hj (Nat.lt_of_succ_lt_succ hk)
  case between => exact h.between hj

/-! ### Reports -/

/-- Whatever was sent to a partition was sent in a phase of one of the stages. -/
theorem length_mailIn (h : cohort.Recorded tables first deeds rows last) (j : PartitionId) :
    (mailIn deeds j).length =
      (Stage.init.mailBefore (rows .init) (last .init + 1) j).length +
        (Stage.complete.mailBefore (rows .complete) (last .complete + 1) j).length := by
  let figure (d : Deed M) : Nat := (PhaseAct.mailTo j d.mails).length
  have hsum : (mailIn deeds j).length = total (fun entry => figure entry.2) deeds := by
    unfold mailIn
    simp only [length_eq_total, total_flatMap, figure]
  have hseen : ∀ i ∈ List.range cohort.length, total figure (System.seenOf i deeds) =
      total figure (Stage.init.deedsBefore (rows .init) (last .init + 1) i) +
        total figure (Stage.complete.deedsBefore (rows .complete) (last .complete + 1) i) := by
    intro i hi
    obtain ⟨ds, hseen⟩ := h.seenOf_eq (List.mem_range.mp hi)
    have hnone : total figure (ds.map Deed.dispatch) = 0 := by
      rw [total_map]
      exact total_zero ds
    rw [hseen, total_append, total_append, hnone, Nat.add_zero]
  have hlength : ∀ stage, ∀ i < last stage + 1, (rows stage i).length = cohort.length :=
    fun stage i hi => (h.ended stage).ran.length i (Nat.le_of_lt hi)
  rw [hsum, ← System.total_seenOf figure h.places, total_congr hseen, total_add,
    Stage.total_deedsBefore _ _ (hlength .init), Stage.total_deedsBefore _ _ (hlength .complete),
    Stage.length_mailBefore, Stage.length_mailBefore]
  rfl

theorem length_readIn (h : cohort.Recorded tables first deeds rows last)
    (hj : j < cohort.length) :
    (readIn deeds j).length =
      (Stage.init.readsBefore (rows .init) (last .init + 1) j).length +
        (Stage.complete.readsBefore (rows .complete) (last .complete + 1) j).length := by
  obtain ⟨ds, hseen⟩ := h.seenOf_eq hj
  have hnone : (ds.map Deed.dispatch).flatMap Deed.reads = [] := by
    rw [List.flatMap_eq_nil_iff]
    intro d hd
    obtain ⟨_, _, rfl⟩ := List.mem_map.mp hd
    rfl
  unfold readIn
  rw [hseen, List.flatMap_append, List.flatMap_append, hnone, Stage.reads_deedsBefore,
    Stage.reads_deedsBefore, List.append_nil, List.length_append]

/-- A partition that was built without figures reports what the run has added to them. -/
theorem counts (h : cohort.Recorded tables first deeds rows last) {stop : StopReason}
    (hs : cohort[j]? = some (.ended stop r)) (hp : first[j]? = some p) (htally : p.tally = {})
    (hexchanged : p.member.exchanged = 0) : (r.report stop).Counts deeds j := by
  obtain ⟨m, q, r, _, ds, hm, hq, hr, hcarries, hends, hseen⟩ := h.stands j _ hs
  cases hends
  have hinit := (h.ended .init).ran
  have hcomplete := (h.ended .complete).ran
  have hfirst : (rows .init 0)[j]? = some p := by
    rw [h.first]
    exact hp
  have hdispatches : System.seenOf j (timedOf deeds) = ds := by
    rw [seenOf_timedOf, hseen, List.filterMap_append, List.filterMap_append,
      Stage.dispatch?_deedsBefore, Stage.dispatch?_deedsBefore, List.filterMap_map]
    simp [Function.comp_def, Deed.dispatch?]
  -- The figures after the first stage, then those that the timed run keeps, then those at the end.
  have hm_tally := hinit.tally_eq hfirst hm
  have hr_tally := hcomplete.tally_eq hq hr
  have hq_received := hcarries.received
  have hq_dropped := hcarries.dropped
  have hq_fires := hcarries.fires
  rw [htally] at hm_tally
  simp only [Partition.tally_dropUnread, hm_tally, Nat.zero_add] at hq_received hq_dropped hq_fires
  have hreceived : r.tally.untimedReceived = (mailIn deeds j).length := by
    rw [hr_tally, h.length_mailIn]
    exact congrArg (· + _) hq_received
  constructor
  case partition => exact ((hcomplete.clear _ (Nat.le_refl _)).each j r hr).id
  case received => exact hreceived
  case dropped =>
    have hdropped : r.dropUnread.tally.untimedDropped = m.inbox.unread + r.inbox.unread := by
      simp only [Partition.tally_dropUnread, hr_tally, hq_dropped]
    have hlengthInit := hinit.length_mailBefore hm
    have hlengthComplete := hcomplete.length_mailBefore hr
    show r.dropUnread.tally.untimedDropped + _ = r.tally.untimedReceived
    rw [hdropped, hreceived, h.length_mailIn,
      h.length_readIn (List.getElem?_eq_some_iff.mp hs).1]
    omega
  case fires =>
    show r.tally.clockFires = _
    rw [hr_tally, hdispatches]
    exact hq_fires
  case exchanged =>
    have hempty : total Outbox.size q.member.outbound = 0 :=
      total_size_eq_zero ((hcomplete.clear 0 (Nat.zero_le _)).each j q hq).boxes
    have hcarried := hcarries.exchanged
    rw [hempty, Nat.add_zero, Partition.member_dropUnread, hinit.exchanged_eq hfirst hm, hexchanged,
      Nat.zero_add] at hcarried
    show r.member.exchanged + _ = _
    rw [hdispatches, hcomplete.exchanged_eq hq hr]
    exact hcarried

end Cohort.Recorded

end Lookahead
