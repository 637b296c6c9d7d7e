import Lookahead.Time

/-!
Periods: how many base units one cycle lasts. A period is never zero, so that every instant lies in
some cycle, and it fits 64 bits like the instants do.
-/

namespace Lookahead

/-- The length of one cycle in base units. -/
@[ext] structure Period where
  factor : Nat
  factor_pos : 0 < factor
  factor_le : factor ≤ lastTick

namespace Period

instance : DecidableEq Period := fun a b =>
  decidable_of_iff (a.factor = b.factor) Period.ext_iff.symm

/-- The period of `factor` base units, unless that is none at all. -/
def ofFactor (factor : Nat) : Except TimeError Period :=
  if h : 0 < factor then
    .ok ⟨min factor lastTick, Nat.lt_min.mpr ⟨h, by decide⟩, Nat.min_le_right ..⟩
  else .error .zeroFactor

/-- How many base units `cycles` whole cycles last. -/
def unitsOf (period : Period) (cycles : Nat) : Nat := cycles * period.factor

/-- When `cycles` whole cycles are over. -/
def timeOf (period : Period) (cycles : Nat) : Time := Time.ofNat (period.unitsOf cycles)

/-- How many whole cycles are over at `time`. -/
def cyclesAt (period : Period) (time : Time) : Nat := time.ticks / period.factor

/-- The boundary after `time`, as far as 64 bits can say. -/
def nextAfter (period : Period) (time : Time) : Time :=
  Time.wrapping (period.unitsOf (period.cyclesAt time + 1))

/-- The boundary after `time` does not fit 64 bits. -/
def overflowsAfter (period : Period) (time : Time) : Bool :=
  lastTick < period.unitsOf (period.cyclesAt time + 1)

@[simp] theorem ofFactor_eq_error_iff {factor : Nat} {e : TimeError} :
    ofFactor factor = .error e ↔ factor = 0 ∧ e = .zeroFactor := by
  unfold ofFactor
  split
  · constructor
    · intro h; cases h
    · rintro ⟨rfl, _⟩; omega
  · constructor
    · intro h; cases h; exact ⟨by omega, rfl⟩
    · rintro ⟨_, rfl⟩; rfl

theorem lt_unitsOf_cyclesAt (period : Period) (time : Time) :
    time.ticks < period.unitsOf (period.cyclesAt time + 1) := by
  unfold unitsOf cyclesAt
  rw [Nat.mul_comm]
  exact Nat.lt_mul_div_succ _ period.factor_pos

theorem overflowsAfter_zero (period : Period) : period.overflowsAfter Time.zero = false := by
  have hfits := period.factor_le
  simp only [overflowsAfter, unitsOf, cyclesAt, Time.ticks_zero, Nat.zero_div, Nat.zero_add,
    Nat.one_mul, decide_eq_false_iff_not]
  omega

section Fits

variable {period : Period} {time : Time} (h : period.overflowsAfter time = false)
include h

theorem nextAfter_of_fits :
    period.nextAfter time = period.timeOf (period.cyclesAt time + 1) :=
  Time.wrapping_eq_ofNat (Nat.le_of_not_lt (of_decide_eq_false h))

theorem ticks_nextAfter :
    (period.nextAfter time).ticks = period.unitsOf (period.cyclesAt time + 1) :=
  Time.ticks_wrapping_of_le (Nat.le_of_not_lt (of_decide_eq_false h))

theorem lt_nextAfter : time < period.nextAfter time := by
  rw [Time.lt_def, ticks_nextAfter h]
  exact period.lt_unitsOf_cyclesAt time

theorem cyclesAt_nextAfter :
    period.cyclesAt (period.nextAfter time) = period.cyclesAt time + 1 := by
  rw [cyclesAt, ticks_nextAfter h]
  exact Nat.mul_div_cancel _ period.factor_pos

end Fits

end Period

end Lookahead
