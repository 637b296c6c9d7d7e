import Lookahead.Binary64

/-!
Decimal numerals: an optional sign, then decimal digits with at most one point and at least one
digit.
-/

namespace Lookahead.Text

/-- The number `mantissa / 10 ^ places`, below zero if `negative`. -/
structure Numeral where
  negative : Bool
  mantissa : Nat
  places : Nat
deriving DecidableEq

def isDigit (c : Char) : Bool := '0' ≤ c && c ≤ '9'

/-- The number that a row of digits writes. -/
def digitsValue (digits : List Char) : Nat :=
  digits.foldl (fun value c => 10 * value + (c.toNat - '0'.toNat)) 0

/-- Split off a leading sign; `true` is minus. -/
def splitSign : List Char → Bool × List Char
  | '-' :: rest => (true, rest)
  | '+' :: rest => (false, rest)
  | cs => (false, cs)

namespace Numeral

/-- Read a text that is a numeral and nothing else. -/
def ofChars? (cs : List Char) : Option Numeral :=
  let (negative, rest) := splitSign cs
  let whole := rest.takeWhile isDigit
  match rest.dropWhile isDigit with
  | [] => if whole.isEmpty then none else some ⟨negative, digitsValue whole, 0⟩
  | '.' :: fraction =>
    if fraction.all isDigit && !(whole ++ fraction).isEmpty then
      some ⟨negative, digitsValue (whole ++ fraction), fraction.length⟩
    else none
  | _ => none

def nearest (numeral : Numeral) : Float :=
  let size := Binary64.nearest numeral.mantissa (Nat.pow 10 numeral.places)
  if numeral.negative then -size else size

end Numeral

end Lookahead.Text
