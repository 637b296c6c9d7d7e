/-!
Exact arithmetic around binary64 numbers.

Every finite non-negative binary64 number is a whole number of units of `2 ^ -1074`. Going through
that number, fractions are rounded to binary64 and binary64 numbers to decimals and whole numbers
without any error but the last rounding.
-/

namespace Lookahead.Binary64

/-- The natural number nearest to `n / d`; a half goes to the even neighbour. -/
def divNearest (n d : Nat) : Nat :=
  let q := n / d
  let r := n % d
  if 2 * r < d || (2 * r = d && q % 2 = 0) then q else q + 1

def one : Nat := 1 <<< 1074

/-- The bits of the binary64 number nearest to `n / d`, or of infinity if it is too large.

The last place of the result is worth `2 ^ shift` units: the quotient has 53 bits above it, or fewer
at the bottom of the range. Adding the exponent field to the rounded significand carries by itself
into the next binade. -/
def nearestBits (n d : Nat) : Nat :=
  if n = 0 then 0 else
  let scaled := n <<< 1074
  let guess := n.log2 + 1074 - d.log2 - 53
  let shift := if scaled < (d <<< guess) <<< 53 then guess else guess + 1
  min ((shift <<< 52) + divNearest scaled (d <<< shift)) (0x7FF <<< 52)

/-- The binary64 number nearest to `n / d`. -/
def nearest (n d : Nat) : Float := Float.ofBits (nearestBits n d).toUInt64

/-- The units in a non-negative number; infinity counts as one more than the largest. -/
def units (x : Float) : Nat :=
  let bits := x.toBits.toNat
  let field := bits >>> 52
  let fraction := bits % (1 <<< 52)
  if field = 0 then fraction else (fraction + (1 <<< 52)) <<< (field - 1)

/-- A non-negative number rounded to a whole one; a half goes up. -/
def round (x : Float) : Nat := (2 * units x + one) / (2 * one)

/-- A non-negative number in units of `10 ^ -places`, rounded to a whole one; a half goes to the
even neighbour. -/
def roundPlaces (places : Nat) (x : Float) : Nat := divNearest (units x * Nat.pow 10 places) one

end Lookahead.Binary64
