import Lookahead.Time.Timebase
import Mathlib.Tactic.Ring

/-!
Which decimal numerals round to a positive finite binary64 number.

The least positive binary64 number is `2 ^ -1074`, and whatever is no more than half of it goes to
zero. The largest finite one is `2 ^ 1024 - 2 ^ 971`, and whatever is at least half a last place
above it goes to infinity. A numeral stands for an amount exactly if it has no minus and lies
between these two (`Text.Numeral.isAmount_nearest`).
-/

namespace Lookahead.Binary64

/-! ## Rounding to whole numbers -/

/-- A quotient is rounded to no more than `k` exactly if it is below the middle between `k` and the
next number, or in the middle with `k` even. -/
theorem divNearest_le_iff {n d k : Nat} (hd : 0 < d) : divNearest n d ≤ k ↔
    2 * n < (2 * k + 1) * d ∨ 2 * n = (2 * k + 1) * d ∧ k % 2 = 0 := by
  have hsplit := Nat.div_add_mod n d
  have hrest := Nat.mod_lt n hd
  have hexpand : (2 * k + 1) * d = 2 * (k * d) + d := by ring
  rw [Nat.mul_comm] at hsplit
  rw [hexpand]
  unfold divNearest
  simp only [Bool.or_eq_true, Bool.and_eq_true, decide_eq_true_eq]
  rcases Nat.lt_trichotomy k (n / d) with hk | rfl | hk
  · have hle : (k + 1) * d ≤ n / d * d := Nat.mul_le_mul_right d hk
    rw [Nat.add_mul, Nat.one_mul] at hle
    split <;> omega
  · split <;> omega
  · have hle : (n / d + 1) * d ≤ k * d := Nat.mul_le_mul_right d hk
    rw [Nat.add_mul, Nat.one_mul] at hle
    split <;> omega

/-- The middle below an even number is rounded up to it. -/
theorem divNearest_lt_iff {n d k : Nat} (hd : 0 < d) (hk : k % 2 = 1) :
    divNearest n d < k + 1 ↔ 2 * n < (2 * k + 1) * d := by
  rw [Nat.lt_succ_iff, divNearest_le_iff hd]
  omega

/-- A quotient that is at least a whole number is not rounded below it. -/
theorem le_divNearest {n d k : Nat} (hd : 0 < d) (h : k * d ≤ n) : k ≤ divNearest n d := by
  have hle : k ≤ n / d := (Nat.le_div_iff_mul_le hd).mpr h
  unfold divNearest
  dsimp only
  split <;> omega

/-- A quotient that is at most a whole number is not rounded above it. -/
theorem divNearest_le {n d k : Nat} (hd : 0 < d) (h : n ≤ k * d) : divNearest n d ≤ k := by
  rw [divNearest_le_iff hd, Nat.add_mul, Nat.mul_assoc]
  left
  omega

/-! ## Rounding to binary64 -/

/-- The worth of the last place when `n / d` is rounded to 53 bits, in units of `2 ^ -e`. -/
def lastPlace (e n d : Nat) : Nat :=
  let guess := n.log2 + e - d.log2 - 53
  if n <<< e < (d <<< guess) <<< 53 then guess else guess + 1

theorem nearestBits_eq {n : Nat} (hn : n ≠ 0) (d : Nat) : nearestBits n d =
    min ((lastPlace 1074 n d <<< 52) + divNearest (n <<< 1074) (d <<< lastPlace 1074 n d))
      (0x7FF <<< 52) := by
  rw [nearestBits, if_neg hn]
  rfl

theorem nearestBits_le (n d : Nat) : nearestBits n d ≤ 0x7FF <<< 52 := by
  by_cases hn : n = 0
  · rw [nearestBits, if_pos hn]
    exact Nat.zero_le _
  · rw [nearestBits_eq hn]
    exact Nat.min_le_right ..

section

variable {e n d : Nat}

/-- There are at most 53 bits in front of the last place, and exactly so many unless it is that of
the smallest number. -/
theorem lastPlace_bounds (hn : n ≠ 0) (hd : d ≠ 0) :
    n * 2 ^ e < d * 2 ^ (lastPlace e n d + 53) ∧
      (lastPlace e n d ≠ 0 → d * 2 ^ (lastPlace e n d + 52) ≤ n * 2 ^ e) := by
  have hnlow := Nat.log2_self_le hn
  have hnhigh := Nat.lt_log2_self (n := n)
  have hdlow := Nat.log2_self_le hd
  have hdhigh := Nat.lt_log2_self (n := d)
  unfold lastPlace
  dsimp only
  generalize hguess : n.log2 + e - d.log2 - 53 = guess
  have hshifted : (d <<< guess) <<< 53 = d * 2 ^ (guess + 53) := by
    rw [Nat.shiftLeft_eq, Nat.shiftLeft_eq, Nat.mul_assoc, ← Nat.pow_add]
  rw [hshifted, Nat.shiftLeft_eq n]
  split
  · rename_i hless
    refine ⟨hless, fun hne => ?_⟩
    calc d * 2 ^ (guess + 52) ≤ 2 ^ (d.log2 + 1) * 2 ^ (guess + 52) :=
          Nat.mul_le_mul_right _ hdhigh.le
      _ = 2 ^ n.log2 * 2 ^ e := by
          have hexponent : d.log2 + 1 + (guess + 52) = n.log2 + e := by omega
          rw [← Nat.pow_add, ← Nat.pow_add, hexponent]
      _ ≤ n * 2 ^ e := Nat.mul_le_mul_right _ hnlow
  · rename_i hless
    refine ⟨?_, fun _ => ?_⟩
    · calc n * 2 ^ e < 2 ^ (n.log2 + 1) * 2 ^ e :=
            Nat.mul_lt_mul_of_pos_right hnhigh (Nat.two_pow_pos _)
        _ = 2 ^ (n.log2 + 1 + e) := (Nat.pow_add ..).symm
        _ ≤ 2 ^ (d.log2 + (guess + 1 + 53)) := Nat.pow_le_pow_right (by decide) (by omega)
        _ = 2 ^ d.log2 * 2 ^ (guess + 1 + 53) := Nat.pow_add ..
        _ ≤ d * 2 ^ (guess + 1 + 53) := Nat.mul_le_mul_right _ hdlow
    · rw [Nat.add_assoc]
      exact Nat.not_lt.mp hless

theorem shifted_pos (hd : d ≠ 0) (place : Nat) : 0 < d <<< place := by
  rw [Nat.shiftLeft_eq]
  exact Nat.mul_pos (Nat.pos_of_ne_zero hd) (Nat.two_pow_pos _)

/-- The rounded significand has at most 53 bits or is the next number after those. -/
theorem divNearest_lastPlace_le (hn : n ≠ 0) (hd : d ≠ 0) :
    divNearest (n <<< e) (d <<< lastPlace e n d) ≤ 2 ^ 53 := by
  apply divNearest_le (shifted_pos hd _)
  have hbound := (lastPlace_bounds (e := e) hn hd).1
  rw [Nat.pow_add, ← Nat.mul_assoc] at hbound
  rw [Nat.shiftLeft_eq, Nat.shiftLeft_eq, Nat.mul_comm (2 ^ 53)]
  exact hbound.le

/-- It has exactly 53 bits or is that number, unless its last place is that of the smallest number.
-/
theorem le_divNearest_lastPlace (hn : n ≠ 0) (hd : d ≠ 0) (hplace : lastPlace e n d ≠ 0) :
    2 ^ 52 ≤ divNearest (n <<< e) (d <<< lastPlace e n d) := by
  apply le_divNearest (shifted_pos hd _)
  have hbound := (lastPlace_bounds hn hd).2 hplace
  rw [Nat.pow_add, ← Nat.mul_assoc] at hbound
  rw [Nat.shiftLeft_eq, Nat.shiftLeft_eq, Nat.mul_comm (2 ^ 52)]
  exact hbound

/-- Whatever is no more than half of the smallest number goes to zero. -/
theorem rounded_pos_iff (hn : n ≠ 0) (hd : d ≠ 0) :
    0 < (lastPlace e n d <<< 52) + divNearest (n <<< e) (d <<< lastPlace e n d) ↔
      d < n <<< (e + 1) := by
  have hdouble : n <<< (e + 1) = 2 * (n * 2 ^ e) := by
    rw [Nat.shiftLeft_eq, Nat.pow_succ]
    ring
  rw [hdouble]
  by_cases hplace : lastPlace e n d = 0
  · have hround := divNearest_le_iff (n := n <<< e) (k := 0) (Nat.pos_of_ne_zero hd)
    rw [hplace, Nat.shiftLeft_zero, Nat.zero_shiftLeft, Nat.zero_add]
    rw [Nat.shiftLeft_eq] at hround ⊢
    omega
  · have hfull := (lastPlace_bounds hn hd).2 hplace
    have hless : d < 2 * (n * 2 ^ e) := by
      have hmore : d ≤ d * 2 ^ (lastPlace e n d + 52) :=
        Nat.le_mul_of_pos_right _ (Nat.two_pow_pos _)
      omega
    have hbits := le_divNearest_lastPlace hn hd hplace
    constructor
    · exact fun _ => hless
    · intro _
      omega

/-- The bits are below a power of two exactly if the quotient is below it by more than half a last
place. -/
theorem rounded_lt_iff_units (hn : n ≠ 0) (hd : d ≠ 0) (k : Nat) :
    (lastPlace e n d <<< 52) + divNearest (n <<< e) (d <<< lastPlace e n d) < (k + 2) <<< 52 ↔
      2 * (n * 2 ^ e) < (2 ^ 54 - 1) * (d * 2 ^ k) := by
  obtain ⟨hhigh, hlow⟩ := lastPlace_bounds (e := e) hn hd
  have hsmall := divNearest_lastPlace_le (e := e) hn hd
  have hbig := le_divNearest_lastPlace (e := e) hn hd
  rw [Nat.shiftLeft_eq (lastPlace e n d), Nat.shiftLeft_eq (k + 2)]
  rcases Nat.lt_trichotomy (lastPlace e n d) k with hplace | hplace | hplace
  · -- The last place is below that of the largest number, whatever the significand is.
    have hpow : d * 2 ^ (lastPlace e n d + 53) ≤ d * 2 ^ (k + 52) :=
      Nat.mul_le_mul_left d (Nat.pow_le_pow_right (by decide) (by omega))
    rw [Nat.pow_add 2 k, ← Nat.mul_assoc] at hpow
    have hk : 0 < d * 2 ^ k := Nat.mul_pos (by omega) (Nat.two_pow_pos _)
    constructor <;> intro _ <;> omega
  · -- The same last place: the significand has to stay within 53 bits.
    have hlargest : (9007199254740991 : Nat) + 1 = 2 ^ 53 := by norm_num
    have hround := divNearest_lt_iff (n := n <<< e) (shifted_pos hd k) (k := 9007199254740991) rfl
    rw [hlargest, Nat.shiftLeft_eq n, Nat.shiftLeft_eq d] at hround
    rw [hplace, Nat.shiftLeft_eq n, Nat.shiftLeft_eq d] at hsmall ⊢
    omega
  · have hpow : d * 2 ^ (k + 1 + 52) ≤ d * 2 ^ (lastPlace e n d + 52) :=
      Nat.mul_le_mul_left d (Nat.pow_le_pow_right (by decide) (by omega))
    have hfull := hlow (by omega)
    have hbits := hbig (by omega)
    rw [Nat.add_assoc, Nat.pow_add 2 k, ← Nat.mul_assoc] at hpow
    constructor <;> intro _ <;> omega

theorem rounded_lt_iff (hn : n ≠ 0) (hd : d ≠ 0) (k : Nat) :
    (lastPlace e n d <<< 52) + divNearest (n <<< e) (d <<< lastPlace e n d) <
        (k + e + 1 + 2) <<< 52 ↔ n < ((2 ^ 54 - 1) * d) <<< k := by
  have hunits : (2 ^ 54 - 1) * (d * 2 ^ (k + e + 1)) = 2 * ((2 ^ 54 - 1) * d * 2 ^ k * 2 ^ e) := by
    rw [Nat.pow_succ, Nat.pow_add]
    ring
  rw [rounded_lt_iff_units hn hd, hunits, Nat.mul_lt_mul_left (by decide),
    Nat.mul_lt_mul_right (Nat.two_pow_pos e), Nat.shiftLeft_eq _ k]

end

/-- Whatever is no more than half of the smallest number goes to zero. -/
theorem nearestBits_pos_iff {n d : Nat} (hd : d ≠ 0) :
    0 < nearestBits n d ↔ d < n <<< 1075 := by
  by_cases hn : n = 0
  · rw [hn, nearestBits, if_pos rfl, Nat.zero_shiftLeft]
    exact ⟨fun h => absurd h (Nat.lt_irrefl 0), fun h => absurd h (Nat.not_lt_zero d)⟩
  · rw [nearestBits_eq hn, lt_min_iff, rounded_pos_iff hn hd]
    exact and_iff_left (by decide)

/-- Whatever is at least half a last place above the largest number goes to infinity. -/
theorem nearestBits_lt_iff {n d : Nat} (hd : d ≠ 0) :
    nearestBits n d < 0x7FF <<< 52 ↔ n < ((2 ^ 54 - 1) * d) <<< 970 := by
  by_cases hn : n = 0
  · have hpos : 0 < ((2 ^ 54 - 1) * d) <<< 970 := shifted_pos (Nat.mul_ne_zero (by decide) hd) _
    rw [hn, nearestBits, if_pos rfl]
    exact ⟨fun _ => hpos, fun _ => by decide⟩
  · rw [nearestBits_eq hn, min_lt_iff, or_iff_left (Nat.lt_irrefl _)]
    exact rounded_lt_iff hn hd 970

/-! ## Numbers as bits -/

section

open Float.Model Float.Model.UnpackedFloat

def word (sign : Sign) (field : BitVec 11) (fraction : BitVec 52) : BitVec 64 :=
  packComponents Format.binary64 sign field fraction

def valueOf (bits : BitVec 64) : UnpackedFloat := UnpackedFloat.unpack Format.binary64 bits

def bitsOf (value : UnpackedFloat) : BitVec 64 := UnpackedFloat.pack Format.binary64 value

variable {sign : Sign} {field : BitVec 11} {fraction : BitVec 52}

theorem unpackSign_word :
    @unpackSign Format.binary64 (word sign field fraction) = sign.toBitVec := by
  show (sign.toBitVec ++ field ++ fraction).extractLsb' 63 1 = _
  rw [BitVec.extractLsb'_append_eq_of_le (by decide),
    BitVec.extractLsb'_append_eq_of_le (by decide)]
  cases sign <;> rfl

theorem finite_congr {m m' : Nat} {e e' : Int} {hm : 0 < m} {hm' : 0 < m'} (hmantissa : m = m')
    (hexponent : e = e') : UnpackedFloat.finite sign m e hm = .finite sign m' e' hm' := by
  subst hmantissa hexponent
  rfl

theorem valueOf_word : valueOf (word sign field fraction) =
    if field = -1#11 then if fraction = 0#52 then .infinity sign else .notANumber
    else if field = 0#11 then
      if h : 0 < fraction.toNat then .finite sign fraction.toNat (-1074) h else .zero sign
    else .finite sign (2 ^ 52 + fraction.toNat) (field.toNat - 1075) (by omega) := by
  have hsign : Sign.ofBitVec sign.toBitVec = sign := by cases sign <;> rfl
  have hfield : @unpackExponent Format.binary64 (word sign field fraction) = field :=
    unpackExponent_packComponents
  have hfraction : @unpackMantissa Format.binary64 (word sign field fraction) = fraction :=
    unpackMantissa_packComponents
  unfold valueOf UnpackedFloat.unpack
  dsimp only
  rw [unpackSign_word, hsign]
  by_cases hlast : field = -1#11
  · rw [if_pos (hfield.trans hlast), if_pos hlast, hfraction]
  rw [if_neg (fun h => hlast (hfield.symm.trans h)), if_neg hlast]
  by_cases hfirst : field = 0#11
  · rw [if_pos (hfield.trans hfirst), if_pos hfirst]
    by_cases hzero : fraction = 0#52
    · rw [dif_pos (hfraction.trans hzero), hzero]
      rfl
    · have hpos : 0 < fraction.toNat :=
        Nat.pos_of_ne_zero fun h => hzero (BitVec.eq_of_toNat_eq h)
      have hplace : ((0#11).toNat : Int) - 1075 + 1 = -1074 := rfl
      rw [dif_neg (fun h => hzero (hfraction.symm.trans h)), dif_pos hpos]
      refine finite_congr (congrArg BitVec.toNat hfraction) (.trans ?_ hplace)
      exact congrArg (fun field : BitVec 11 => (field.toNat : Int) - 1075 + 1) (hfield.trans hfirst)
  · have hmantissa : (1#1 ++ fraction).toNat = 2 ^ 52 + fraction.toNat := by
      rw [BitVec.toNat_append, ← Nat.shiftLeft_add_eq_or_of_lt fraction.isLt]
      rfl
    rw [if_neg (fun h => hfirst (hfield.symm.trans h)), if_neg hfirst]
    refine finite_congr (.trans ?_ hmantissa) ?_
    · exact congrArg (fun fraction : BitVec 52 => (1#1 ++ fraction).toNat) hfraction
    · exact congrArg (fun field : BitVec 11 => (field.toNat : Int) - 1075) hfield

theorem bitsOf_finite {m : Nat} {e : Int} (hm : 0 < m) : bitsOf (.finite sign m e hm) =
    if 2047 ≤ (e + 1075).toNat then word sign (-1#11) 0#52
    else if m.log2 = 52 then word sign (BitVec.ofNat 11 (e + 1075).toNat) (BitVec.ofNat 52 m)
    else word sign 0#11 (BitVec.ofNat 52 m) := by
  have hfield : e + (Format.exponentBias Format.binary64 : Nat) +
      (Format.binary64.mantissaBitsWithoutImplicit : Nat) = e + 1075 := Int.add_assoc e 1023 52
  have hlast : 2 ^ Format.binary64.exponentBits ≤ (e + 1075).toNat + 1 ↔ 2047 ≤ (e + 1075).toNat :=
    Nat.succ_le_succ_iff
  have hbits : m.log2 + 1 = Format.binary64.mantissaBits ↔ m.log2 = 52 := Nat.succ_inj
  unfold bitsOf UnpackedFloat.pack
  dsimp only
  simp only [hfield, hlast, hbits]
  rfl

/-- Bits that mean a number are the bits of that number. -/
theorem bitsOf_valueOf_word (h : field = -1#11 → fraction = 0#52) :
    bitsOf (valueOf (word sign field fraction)) = word sign field fraction := by
  by_cases hfield : field = -1#11
  · rw [valueOf_word, if_pos hfield, if_pos (h hfield), hfield, h hfield]
    rfl
  have hlast : field.toNat ≠ 2047 := fun h => hfield (BitVec.eq_of_toNat_eq h)
  have hlt := field.isLt
  rw [valueOf_word, if_neg hfield]
  by_cases hfirst : field = 0#11
  · rw [if_pos hfirst]
    subst hfirst
    by_cases hpos : 0 < fraction.toNat
    · have hlog : fraction.toNat.log2 ≠ 52 :=
        Nat.ne_of_lt ((Nat.log2_lt (by omega)).mpr fraction.isLt)
      rw [dif_pos hpos, bitsOf_finite, if_neg (by decide), if_neg hlog, BitVec.ofNat_toNat,
        BitVec.setWidth_eq]
    · obtain rfl : fraction = 0#52 := BitVec.eq_of_toNat_eq (by simpa using hpos)
      rfl
  · have hplace : ((field.toNat : Int) - 1075 + 1075).toNat = field.toNat := by omega
    have hlog : (2 ^ 52 + fraction.toNat).log2 = 52 := by
      have hless := fraction.isLt
      exact (Nat.log2_eq_iff (by omega)).mpr ⟨by omega, by omega⟩
    have hmantissa : BitVec.ofNat 52 (2 ^ 52 + fraction.toNat) = fraction := by
      apply BitVec.eq_of_toNat_eq
      rw [BitVec.toNat_ofNat, Nat.add_mod_left, Nat.mod_eq_of_lt fraction.isLt]
    rw [if_neg hfirst, bitsOf_finite, hplace, if_neg (by omega), if_pos hlog, hmantissa,
      BitVec.ofNat_toNat, BitVec.setWidth_eq]

/-- Packing a value keeps its sign, and makes a number of it if it is one. -/
theorem exists_word {value : UnpackedFloat} (hvalue : value = .infinity sign ∨ value = .zero sign ∨
    ∃ m e hm, value = .finite sign m e hm) :
    ∃ field fraction, bitsOf value = word sign field fraction ∧
      (field = -1#11 → fraction = 0#52) := by
  obtain rfl | rfl | ⟨m, e, hm, rfl⟩ := hvalue
  · exact ⟨_, _, rfl, fun _ => rfl⟩
  · exact ⟨_, _, rfl, fun _ => rfl⟩
  · rw [bitsOf_finite]
    by_cases hfield : 2047 ≤ (e + 1075).toNat
    · rw [if_pos hfield]
      exact ⟨_, _, rfl, fun _ => rfl⟩
    rw [if_neg hfield]
    by_cases hbits : m.log2 = 52
    · rw [if_pos hbits]
      refine ⟨_, _, rfl, fun hlast => absurd (congrArg BitVec.toNat hlast) ?_⟩
      rw [BitVec.toNat_ofNat, Nat.mod_eq_of_lt (by omega)]
      show (e + 1075).toNat ≠ 2047
      omega
    · rw [if_neg hbits]
      exact ⟨_, _, rfl, fun hlast => absurd hlast (by decide)⟩

variable (sign) in
theorem valueOf_word_cases (h : field = -1#11 → fraction = 0#52) :
    valueOf (word sign field fraction) = .infinity sign ∨
      valueOf (word sign field fraction) = .zero sign ∨
      ∃ m e hm, valueOf (word sign field fraction) = .finite sign m e hm := by
  rw [valueOf_word]
  by_cases hfield : field = -1#11
  · rw [if_pos hfield, if_pos (h hfield)]
    exact Or.inl rfl
  rw [if_neg hfield]
  by_cases hfirst : field = 0#11
  · rw [if_pos hfirst]
    by_cases hpos : 0 < fraction.toNat
    · rw [dif_pos hpos]
      exact Or.inr (Or.inr ⟨_, _, hpos, rfl⟩)
    · rw [dif_neg hpos]
      exact Or.inr (Or.inl rfl)
  · rw [if_neg hfirst]
    exact Or.inr (Or.inr ⟨2 ^ 52 + fraction.toNat, _, by omega, rfl⟩)

/-! ## Amounts -/

def isPositive : UnpackedFloat → Bool
  | .finite .positive _ _ _ => true
  | _ => false

def bits (x : Float) : BitVec 64 := x.toModel.toBits.toBitVec

theorem isAmount_eq (x : Float) : isAmount x = isPositive (valueOf (bits x)) := by
  have hbits : bits 0 = 0#64 := by decide
  have hzero : valueOf (bits 0) = .zero .positive := by rw [hbits]; rfl
  have hfinite : x.isFinite = (valueOf (bits x)).isFinite := rfl
  have hless : decide (0 < x) = (valueOf (bits 0)).lt (valueOf (bits x)) :=
    Bool.eq_iff_iff.mpr (decide_eq_true_iff.trans decide_eq_true_iff)
  rw [isAmount, hless, hfinite, hzero]
  cases valueOf (bits x) with
  | finite sign m e hm => cases sign <;> rfl
  | infinity sign => cases sign <;> rfl
  | zero sign => rfl
  | notANumber => rfl

theorem bits_neg (x : Float) : bits (-x) = bitsOf (valueOf (bits x)).neg := rfl

/-- Bits without a sign are the exponent field and the fraction. -/
theorem ofNat_eq_word {b : Nat} (h : b < 2 ^ 63) : BitVec.ofNat 64 b =
    word .positive (BitVec.ofNat 11 (b / 2 ^ 52)) (BitVec.ofNat 52 b) := by
  apply BitVec.eq_of_toNat_eq
  have hfield : b / 2 ^ 52 < 2 ^ 11 := by omega
  have hfront : (0#1 ++ BitVec.ofNat 11 (b / 2 ^ 52)).toNat = b / 2 ^ 52 := by
    rw [BitVec.toNat_append, ← Nat.shiftLeft_add_eq_or_of_lt (BitVec.isLt _),
      BitVec.toNat_ofNat (b / 2 ^ 52), Nat.mod_eq_of_lt hfield]
    exact Nat.zero_add _
  show _ = (0#1 ++ BitVec.ofNat 11 (b / 2 ^ 52) ++ BitVec.ofNat 52 b).toNat
  rw [BitVec.toNat_append, ← Nat.shiftLeft_add_eq_or_of_lt (BitVec.isLt _), hfront,
    BitVec.toNat_ofNat, BitVec.toNat_ofNat, Nat.shiftLeft_eq, Nat.mod_eq_of_lt (by omega)]
  omega

theorem isAmount_neg {x : Float} (hx : bits x = word .positive field fraction)
    (h : field = -1#11 → fraction = 0#52) : isAmount (-x) = false := by
  have hnegative : ∃ field fraction, bits (-x) = word .negative field fraction ∧
      (field = -1#11 → fraction = 0#52) := by
    rw [bits_neg, hx]
    apply exists_word
    obtain hvalue | hvalue | ⟨m, e, hm, hvalue⟩ := valueOf_word_cases .positive h
    · exact Or.inl (by rw [hvalue]; rfl)
    · exact Or.inr (Or.inl (by rw [hvalue]; rfl))
    · exact Or.inr (Or.inr ⟨m, e, hm, by rw [hvalue]; rfl⟩)
  obtain ⟨field', fraction', hbits, h'⟩ := hnegative
  rw [isAmount_eq, hbits]
  obtain hvalue | hvalue | ⟨m, e, hm, hvalue⟩ := valueOf_word_cases .negative h'
  all_goals rw [hvalue]; rfl

/-- Up to those of infinity, bits stay as they are. -/
theorem bits_ofBits {b : Nat} (h : b ≤ 0x7FF <<< 52) : ∃ field fraction,
    bits (Float.ofBits b.toUInt64) = word .positive field fraction ∧
      (field = -1#11 → fraction = 0#52) ∧ field.toNat = b / 2 ^ 52 ∧
      fraction.toNat = b % 2 ^ 52 := by
  have hle : b ≤ 9218868437227405312 := h
  have hfield : (BitVec.ofNat 11 (b / 2 ^ 52)).toNat = b / 2 ^ 52 := by
    rw [BitVec.toNat_ofNat, Nat.mod_eq_of_lt (by omega)]
  have hlast : BitVec.ofNat 11 (b / 2 ^ 52) = -1#11 → BitVec.ofNat 52 b = 0#52 := by
    intro heq
    rw [heq] at hfield
    have hinfinity : 2047 = b / 2 ^ 52 := hfield
    obtain rfl : b = 9218868437227405312 := by omega
    rfl
  refine ⟨_, _, ?_, hlast, hfield, BitVec.toNat_ofNat ..⟩
  show bitsOf (valueOf (BitVec.ofNat 64 b)) = _
  rw [ofNat_eq_word (by omega), bitsOf_valueOf_word hlast]

theorem isAmount_ofBits {b : Nat} (h : b ≤ 0x7FF <<< 52) :
    isAmount (Float.ofBits b.toUInt64) = true ↔ 0 < b ∧ b < 0x7FF <<< 52 := by
  have hle : b ≤ 9218868437227405312 := h
  have hlimit : b < 0x7FF <<< 52 ↔ b < 9218868437227405312 := Iff.rfl
  obtain ⟨field, fraction, hbits, hlast, hfield, hfraction⟩ := bits_ofBits h
  rw [isAmount_eq, hbits, hlimit, valueOf_word]
  by_cases heq : field = -1#11
  · rw [if_pos heq, if_pos (hlast heq)]
    rw [heq] at hfield
    have hinfinity : 2047 = b / 2 ^ 52 := hfield
    exact ⟨fun hpositive => absurd hpositive (by decide), fun _ => by omega⟩
  have hfinite : field.toNat ≠ 2047 := fun h => heq (BitVec.eq_of_toNat_eq h)
  rw [if_neg heq]
  by_cases hfirst : field = 0#11
  · rw [hfirst] at hfield
    have hsmall : 0 = b / 2 ^ 52 := hfield
    rw [if_pos hfirst]
    by_cases hpos : 0 < fraction.toNat
    · rw [dif_pos hpos]
      exact ⟨fun _ => by omega, fun _ => rfl⟩
    · rw [dif_neg hpos]
      exact ⟨fun hpositive => absurd hpositive (by decide), fun _ => by omega⟩
  · have hlarge : field.toNat ≠ 0 := fun h => hfirst (BitVec.eq_of_toNat_eq h)
    rw [if_neg hfirst]
    exact ⟨fun _ => by omega, fun _ => rfl⟩

end

end Lookahead.Binary64

namespace Lookahead.Text.Numeral

/-- A numeral that rounds to a positive finite number: it has no minus, is more than half of the
smallest number, and less than half a last place above the largest one. -/
def IsAmount (numeral : Numeral) : Prop :=
  numeral.negative = false ∧ 10 ^ numeral.places < numeral.mantissa <<< 1075 ∧
    numeral.mantissa < ((2 ^ 54 - 1) * 10 ^ numeral.places) <<< 970

instance (numeral : Numeral) : Decidable numeral.IsAmount := inferInstanceAs (Decidable (_ ∧ _ ∧ _))

theorem isAmount_nearest (numeral : Numeral) :
    isAmount numeral.nearest = true ↔ numeral.IsAmount := by
  have hscale : 10 ^ numeral.places ≠ 0 := (Nat.pow_pos (by decide)).ne'
  have hle := Binary64.nearestBits_le numeral.mantissa (10 ^ numeral.places)
  unfold nearest IsAmount
  dsimp only
  cases hsign : numeral.negative with
  | true =>
    obtain ⟨field, fraction, hbits, hlast, -⟩ := Binary64.bits_ofBits hle
    have hnone := Binary64.isAmount_neg hbits hlast
    rw [if_pos rfl]
    exact ⟨fun h => absurd (hnone.symm.trans h) (by decide), fun h => absurd h.1 (by decide)⟩
  | false =>
    rw [if_neg (by decide), ← Binary64.nearestBits_pos_iff hscale,
      ← Binary64.nearestBits_lt_iff hscale]
    exact (Binary64.isAmount_ofBits hle).trans (and_iff_right rfl).symm

end Lookahead.Text.Numeral
