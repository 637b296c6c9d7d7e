import Lookahead.Proofs.Mail

/-!
Untimed stages, phase after phase.

Each link end is a queue across the phases of a stage: at the beginning of a phase it holds what was
sent to it in the phases before and has not been read since, in the order of sending
(`Stage.Ran.sent_eq`).
-/

namespace Lookahead

variable {M : Model}

namespace Stage

/-! ## What happens before a phase -/

section

variable (stage : Stage) (rows : Nat → Row M) (k : Nat)

def actsAt (j : PartitionId) : List (PhaseAct M.Payload) :=
  (rows k)[j]?.elim [] fun p => p.acts stage k

def sentBefore (e : LinkEnd) : List M.Payload :=
  (List.range k).flatMap fun i => (rows i).sentOn stage i e

def readBefore (f : LinkEnd) : List M.Payload :=
  (List.range k).flatMap fun i => PhaseAct.readOn f.link (stage.actsAt rows i f.partition)

def mailBefore (j : PartitionId) : List (Event M.Payload) :=
  (List.range k).flatMap fun i => (rows i).mailTo stage i j

def readsBefore (j : PartitionId) : List M.Payload :=
  (List.range k).flatMap fun i => PhaseAct.reads (stage.actsAt rows i j)

end

variable {stage : Stage} {rows : Nat → Row M} {k : Nat}

theorem flatMap_range_succ {α : Type} (f : Nat → List α) (k : Nat) :
    (List.range (k + 1)).flatMap f = (List.range k).flatMap f ++ f k := by
  rw [List.range_succ, List.flatMap_append, List.flatMap_singleton]

theorem actsAt_of_some {j : PartitionId} {p : Partition M} (hp : (rows k)[j]? = some p) :
    stage.actsAt rows k j = p.acts stage k := by
  unfold actsAt
  rw [hp]
  rfl

theorem sentOn_eq (e : LinkEnd) :
    (rows k).sentOn stage k e = PhaseAct.sentOn e.link (stage.actsAt rows k e.partition) := by
  unfold Row.sentOn actsAt
  cases (rows k)[e.partition]? <;> rfl

/-! ## Phase after phase -/

def extended (rows : Nat → Row M) (k : Nat) (next : Row M) (i : Nat) : Row M :=
  if i ≤ k then rows i else next

theorem extended_le {next : Row M} {i : Nat} (hi : i ≤ k) : extended rows k next i = rows i :=
  if_pos hi

theorem extended_succ {next : Row M} : extended rows k next (k + 1) = next :=
  if_neg (Nat.not_succ_le_self k)

/-- The phases of a stage up to the beginning of phase `k`: all partitions at the beginning of each
of them. -/
structure Ran (stage : Stage) (tables : List RouteTable) (n : Nat) (rows : Nat → Row M) (k : Nat) :
    Prop where
  first : ∀ p ∈ rows 0, p.inbox = {}
  length : ∀ i ≤ k, (rows i).length = n
  clear : ∀ i ≤ k, (rows i).Clear tables
  passed : ∀ i < k, ∀ (j : Nat) (p r : Partition M), (rows i)[j]? = some p →
    (rows (i + 1))[j]? = some r → p.Passed stage i tables (rows i) j r

namespace Ran

variable {tables : List RouteTable} {n : Nat}

theorem mono (h : Ran stage tables n rows k) {i : Nat} (hi : i ≤ k) :
    Ran stage tables n rows i where
  first := h.first
  length l hl := h.length l (Nat.le_trans hl hi)
  clear l hl := h.clear l (Nat.le_trans hl hi)
  passed l hl := h.passed l (Nat.lt_of_lt_of_le hl hi)

theorem exists_of_lt (h : Ran stage tables n rows k) {i : Nat} (hi : i ≤ k) {j : Nat}
    (hj : j < n) : ∃ p, (rows i)[j]? = some p :=
  ⟨_, List.getElem?_eq_getElem (h.length i hi ▸ hj)⟩

theorem lt_of_some (h : Ran stage tables n rows k) {i : Nat} (hi : i ≤ k) {j : Nat}
    {p : Partition M} (hp : (rows i)[j]? = some p) : j < n :=
  h.length i hi ▸ (List.getElem?_eq_some_iff.mp hp).1

theorem exists_passed (h : Ran stage tables n rows (k + 1)) {j : Nat} {r : Partition M}
    (hr : (rows (k + 1))[j]? = some r) :
    ∃ p, (rows k)[j]? = some p ∧ p.Passed stage k tables (rows k) j r := by
  obtain ⟨p, hp⟩ := h.exists_of_lt (Nat.le_succ k) (h.lt_of_some (Nat.le_refl _) hr)
  exact ⟨p, hp, h.passed k (Nat.lt_succ_self k) j p r hp hr⟩

theorem sent_eq (h : Ran stage tables n rows k) {e f : LinkEnd} (hwired : Wired tables e f)
    {p : Partition M} (hp : (rows k)[f.partition]? = some p) :
    stage.sentBefore rows k e = stage.readBefore rows k f ++ p.inbox.on f.link := by
  induction k generalizing p with
  | zero =>
    rw [h.first p (List.mem_of_getElem? hp), Inbox.on_empty]
    rfl
  | succ k ih =>
    obtain ⟨q, hq, hpassed⟩ := h.exists_passed hp
    have hbefore := ih (h.mono (Nat.le_succ k)) hq
    have hqueue := hpassed.queues e f.link hwired
    unfold sentBefore readBefore at hbefore ⊢
    rw [flatMap_range_succ, flatMap_range_succ, hbefore, actsAt_of_some hq, List.append_assoc,
      hqueue, List.append_assoc]

/-- What is read on a link end is what was sent on the other end before, one after the other. -/
theorem answer_eq (h : Ran stage tables n rows (k + 1)) {e f : LinkEnd}
    (hwired : Wired tables e f) {before after : List (PhaseAct M.Payload)}
    {answer : Option M.Payload}
    (hacts : stage.actsAt rows k f.partition = before ++ .read f.link answer :: after) :
    answer = (stage.sentBefore rows k e)[(stage.readBefore rows k f).length +
      (PhaseAct.readOn f.link before).length]? := by
  cases hp : (rows k)[f.partition]? with
  | none =>
    unfold actsAt at hacts
    rw [hp] at hacts
    simp at hacts
  | some p =>
    obtain ⟨r, hr⟩ := h.exists_of_lt (Nat.le_refl _) (h.lt_of_some (Nat.le_succ k) hp)
    rw [actsAt_of_some hp] at hacts
    rw [(h.passed k (Nat.lt_succ_self k) _ p r hp hr).answers before after f.link answer hacts,
      (h.mono (Nat.le_succ k)).sent_eq hwired hp, List.getElem?_append_right (by omega)]
    congr 1
    omega

theorem length_mailBefore (h : Ran stage tables n rows k) {j : Nat} {p : Partition M}
    (hp : (rows k)[j]? = some p) :
    (stage.mailBefore rows k j).length =
      (stage.readsBefore rows k j).length + p.inbox.unread := by
  have hreadable : (stage.mailBefore rows k j).length =
      (stage.readsBefore rows k j).length + p.inbox.readable.length := by
    induction k generalizing p with
    | zero =>
      rw [h.first p (List.mem_of_getElem? hp)]
      rfl
    | succ k ih =>
      obtain ⟨q, hq, hpassed⟩ := h.exists_passed hp
      have hbefore := ih (h.mono (Nat.le_succ k)) hq
      have hunread := hpassed.unread
      unfold mailBefore readsBefore at hbefore ⊢
      rw [flatMap_range_succ, flatMap_range_succ, actsAt_of_some hq, List.length_append,
        List.length_append]
      omega
  have hheld := ((h.clear k (Nat.le_refl k)).each j p hp).held
  rw [hreadable, Inbox.unread, hheld, List.length_nil, Nat.add_zero]

/-- A partition counts all that it got, and nothing else. -/
theorem tally_eq (h : Ran stage tables n rows k) {j : Nat} {p r : Partition M}
    (hp : (rows 0)[j]? = some p) (hr : (rows k)[j]? = some r) :
    r.tally =
      { p.tally with
        untimedReceived := p.tally.untimedReceived + (stage.mailBefore rows k j).length } := by
  induction k generalizing r with
  | zero =>
    rw [hp] at hr
    cases hr
    rfl
  | succ k ih =>
    obtain ⟨q, hq, hpassed⟩ := h.exists_passed hr
    have hbefore := ih (h.mono (Nat.le_succ k)) hq
    rw [hpassed.tally, hbefore]
    unfold mailBefore
    rw [flatMap_range_succ, List.length_append, Nat.add_assoc]

theorem exchanged_eq (h : Ran stage tables n rows k) {j : Nat} {p r : Partition M}
    (hp : (rows 0)[j]? = some p) (hr : (rows k)[j]? = some r) :
    r.member.exchanged = p.member.exchanged := by
  induction k generalizing r with
  | zero =>
    rw [hp] at hr
    cases hr
    rfl
  | succ k ih =>
    obtain ⟨q, hq, hpassed⟩ := h.exists_passed hr
    rw [hpassed.exchanged]
    exact ih (h.mono (Nat.le_succ k)) hq

/-- Another phase, and the round behind it. -/
theorem extend {pending : List (String × LinkEnd)} {parties : List (Party M)}
    (h : Ran stage tables n rows k) (hwiring : Wiring tables pending)
    (hposts : (rows k).Posts stage k parties) :
    Ran stage tables n (extended rows k ((rows k).next stage k parties)) (k + 1) := by
  have hclear := h.clear k (Nat.le_refl k)
  have hlast : ∀ (j : Nat) (r : Partition M), ((rows k).next stage k parties)[j]? = some r →
      ∃ p, (rows k)[j]? = some p ∧ p.Passed stage k tables (rows k) j r :=
    fun j r hr => hclear.passed_of_next hwiring hposts hr
  constructor
  case first =>
    rw [extended_le (Nat.zero_le k)]
    exact h.first
  case length =>
    intro i hi
    rcases Nat.lt_or_eq_of_le hi with hi | rfl
    · rw [extended_le (Nat.le_of_lt_succ hi)]
      exact h.length i (Nat.le_of_lt_succ hi)
    · rw [extended_succ, Row.length_next, hposts.length]
      exact h.length k (Nat.le_refl k)
  case clear =>
    intro i hi
    rcases Nat.lt_or_eq_of_le hi with hi | rfl
    · rw [extended_le (Nat.le_of_lt_succ hi)]
      exact h.clear i (Nat.le_of_lt_succ hi)
    · rw [extended_succ]
      constructor
      case each =>
        intro j r hr
        obtain ⟨p, _, hpassed⟩ := hlast j r hr
        exact hpassed.clear
      case routes =>
        intro j r hr
        obtain ⟨p, hp, hpassed⟩ := hlast j r hr
        rw [hpassed.routes]
        exact hclear.routes j p hp
  case passed =>
    intro i hi j p r hp hr
    rw [extended_le (Nat.le_of_lt_succ hi)] at hp ⊢
    rcases Nat.lt_or_eq_of_le hi with hi | hi
    · rw [extended_le (Nat.le_of_lt_succ hi)] at hr
      exact h.passed i (Nat.lt_of_succ_lt_succ hi) j p r hp hr
    · cases hi
      rw [extended_succ] at hr
      obtain ⟨q, hq, hpassed⟩ := hlast j r hr
      rw [hp] at hq
      cases hq
      exact hpassed

end Ran

end Stage

end Lookahead
