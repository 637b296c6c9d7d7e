import Lookahead.Binary64

/-!
Binary64 numbers written with a fixed number of decimal places.

The text is that of the exact value rounded to the nearest multiple of the last place, with ties to
the even neighbour.
-/

namespace Lookahead.Text

/-- Put a point in front of the last `places` digits of `n`. -/
def withPoint (places n : Nat) : String :=
  let scale := Nat.pow 10 places
  let fraction := toString (n % scale)
  s!"{n / scale}." ++ "".pushn '0' (places - fraction.length) ++ fraction

/-- A non-negative finite number with exactly `places` decimal places. -/
def fixed (places : Nat) (x : Float) : String := withPoint places (Binary64.roundPlaces places x)

end Lookahead.Text
