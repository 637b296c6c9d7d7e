/-!
Instants of simulated time.

An instant is a number of base units below `2 ^ 64`. The last one, `Time.never`, also says that
nothing is going to happen. Moving an instant forward by a duration stays at the end of time. Where
arithmetic is not guarded like that, a number of 64 bits or more is an overflow.
-/

namespace Lookahead

/-- The number of base units at the end of time, the largest that fits 64 bits. -/
def lastTick : Nat := 18446744073709551615

/-- An instant of simulated time, in base units since the start. -/
@[ext] structure Time where
  ticks : Nat
  ticks_le : ticks ≤ lastTick
deriving DecidableEq

/-- What a build does about an overflow: the thread panics, or it goes on with the lower 64 bits. -/
inductive Overflow where
  | panics
  | wraps
deriving DecidableEq

/-- What can be wrong with a period given as a factor or as text. -/
inductive TimeError where
  | invalidFormat (input : String)
  | unknownUnit (unit : String)
  | belowTimebase (input : String)
  | zeroFactor
deriving DecidableEq

def TimeError.message : TimeError → String
  | .invalidFormat input => s!"invalid time specification '{input}'"
  | .unknownUnit unit => s!"unknown time unit '{unit}'"
  | .belowTimebase input => s!"'{input}' is finer than the timebase"
  | .zeroFactor => "time conversion factor must be at least 1"

namespace Time

/-- The instant `n` base units after the start, or the end of time if `n` is beyond it. -/
def ofNat (n : Nat) : Time := ⟨min n lastTick, Nat.min_le_right n lastTick⟩

/-- The instant that the lower 64 bits of `n` say. -/
def wrapping (n : Nat) : Time := ⟨n % (lastTick + 1), Nat.le_of_lt_succ (Nat.mod_lt _ (by decide))⟩

def zero : Time := ⟨0, Nat.zero_le _⟩

/-- The end of time, which stands for "no such instant". -/
def never : Time := ⟨lastTick, Nat.le_refl _⟩

instance : Inhabited Time := ⟨zero⟩

instance : LE Time := ⟨fun a b => a.ticks ≤ b.ticks⟩

instance : LT Time := ⟨fun a b => a.ticks < b.ticks⟩

instance (a b : Time) : Decidable (a ≤ b) := inferInstanceAs (Decidable (a.ticks ≤ b.ticks))

instance (a b : Time) : Decidable (a < b) := inferInstanceAs (Decidable (a.ticks < b.ticks))

instance : Min Time := minOfLe

instance : Max Time := maxOfLe

/-- The instant `duration` after `t`, or the end of time if that comes first. -/
def after (t : Time) (duration : Nat) : Time := ofNat (t.ticks + duration)

theorem le_def {a b : Time} : a ≤ b ↔ a.ticks ≤ b.ticks := Iff.rfl

theorem lt_def {a b : Time} : a < b ↔ a.ticks < b.ticks := Iff.rfl

@[simp] theorem ticks_ofNat (n : Nat) : (ofNat n).ticks = min n lastTick := rfl

@[simp] theorem ticks_zero : zero.ticks = 0 := rfl

@[simp] theorem ticks_never : never.ticks = lastTick := rfl

@[simp] theorem ticks_after (t : Time) (duration : Nat) :
    (t.after duration).ticks = min (t.ticks + duration) lastTick := rfl

theorem ticks_wrapping_of_le {n : Nat} (h : n ≤ lastTick) : (wrapping n).ticks = n :=
  Nat.mod_eq_of_lt (Nat.lt_succ_of_le h)

theorem wrapping_eq_ofNat {n : Nat} (h : n ≤ lastTick) : wrapping n = ofNat n :=
  Time.ext ((ticks_wrapping_of_le h).trans (Nat.min_eq_left h).symm)

theorem ofNat_ticks (t : Time) : ofNat t.ticks = t :=
  Time.ext (Nat.min_eq_left t.ticks_le)

theorem le_never (t : Time) : t ≤ never := t.ticks_le

theorem le_after (t : Time) (duration : Nat) : t ≤ t.after duration := by
  have := t.ticks_le
  simp only [le_def, ticks_after]
  omega

theorem ticks_min (a b : Time) : (min a b).ticks = min a.ticks b.ticks := by
  show (if a.ticks ≤ b.ticks then a else b).ticks = _
  split <;> omega

theorem ticks_max (a b : Time) : (max a b).ticks = max a.ticks b.ticks := by
  show (if a.ticks ≤ b.ticks then b else a).ticks = _
  split <;> omega

end Time

end Lookahead
