import Lookahead.Text.Blank
import Lookahead.Text.Numeral
import Lookahead.Time.Period

/-!
Periods and frequencies as text, such as `10ns` and `2.5GHz`, measured in a timebase.

A specification is a numeral and a unit. White space around it and between the two is ignored, and
the unit begins at the first ASCII letter. All arithmetic is that of binary64.
-/

namespace Lookahead

/-! ## Units -/

/-- A unit either lasts so many femtoseconds or repeats so many times a second. -/
inductive TimeUnit where
  | period (femtos : Float)
  | frequency (hertz : Float)

/-- The units that a specification may end in. -/
def TimeUnit.named? : String → Option TimeUnit
  | "fs" => some (.period 1)
  | "ps" => some (.period 1e3)
  | "ns" => some (.period 1e6)
  | "us" => some (.period 1e9)
  | "ms" => some (.period 1e12)
  | "s" => some (.period 1e15)
  | "Hz" => some (.frequency 1)
  | "kHz" | "KHz" => some (.frequency 1e3)
  | "MHz" => some (.frequency 1e6)
  | "GHz" => some (.frequency 1e9)
  | _ => none

def TimeUnit.femtos (value : Float) : TimeUnit → Float
  | .period femtos => value * femtos
  | .frequency hertz => 1e15 / (value * hertz)

/-! ## Specifications -/

/-- Split a specification before its first ASCII letter, if it has one. -/
def splitUnit? (spec : String) : Option (List Char × String) :=
  let trimmed := Text.trim spec.toList
  match trimmed.dropWhile (fun c => !c.isAlpha) with
  | [] => none
  | unit => some (Text.trim (trimmed.takeWhile fun c => !c.isAlpha), String.ofList unit)

/-- Only positive finite amounts of a unit are times. -/
def isAmount (value : Float) : Bool := value.isFinite && 0 < value

def femtosOf (spec : String) : Except TimeError Float :=
  match splitUnit? spec with
  | none => .error (.invalidFormat spec)
  | some (number, unit) =>
    match Text.Numeral.ofChars? number with
    | none => .error (.invalidFormat spec)
    | some numeral =>
      if isAmount numeral.nearest then
        match TimeUnit.named? unit with
        | none => .error (.unknownUnit unit)
        | some scale => .ok (scale.femtos numeral.nearest)
      else .error (.invalidFormat spec)

/-! ## Timebases -/

/-- How many femtoseconds one base unit lasts. -/
structure Timebase where
  femtos : Float

namespace Timebase

def picosecond : Timebase := ⟨1e3⟩

/-- The timebase that a specification stands for. Anything below a femtosecond is too fine. -/
def ofSpec (spec : String) : Except TimeError Timebase := do
  let femtos ← femtosOf spec
  if femtos < 1 then throw (.belowTimebase spec)
  return ⟨femtos⟩

/-- The period that a specification stands for, as the nearest whole number of base units; a half is
rounded up, and what does not fit an instant is cut down to the last one. -/
def period (base : Timebase) (spec : String) : Except TimeError Period := do
  let femtos ← femtosOf spec
  let ratio := femtos / base.femtos
  if ratio.isNaN then throw .zeroFactor
  let units := Binary64.round ratio
  if units < 1 then throw (.belowTimebase spec)
  Period.ofFactor (min units lastTick)

end Timebase

end Lookahead
