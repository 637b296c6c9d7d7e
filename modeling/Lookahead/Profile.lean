import Lookahead.Config
import Lookahead.Identity
import Lookahead.Text.Fixed

/-!
Profiles: how often the partitions synchronized and how often each clock handler was called, with
the wall time of it where that was measured.

A simulation itself reads no wall clock: a profile that is to be timed starts at no time at all, and
whoever holds a clock adds to it.
-/

namespace Lookahead

/-- A length of wall time in whole nanoseconds. -/
structure Duration where
  nanos : Nat
deriving DecidableEq

namespace Duration

def nanosPerSecond : Nat := 1000000000

def zero : Duration := ⟨0⟩

def ofParts (seconds nanos : Nat) : Duration := ⟨seconds * nanosPerSecond + nanos⟩

/-- Whole seconds, and the nanoseconds beyond them. -/
def parts (duration : Duration) : Nat × Nat :=
  (duration.nanos / nanosPerSecond, duration.nanos % nanosPerSecond)

/-- One of `n` equal parts, without the fraction of a nanosecond. Whole seconds are divided first,
and what is left of them goes to the nanoseconds. -/
def div (duration : Duration) (n : Nat) : Duration :=
  let (whole, rest) := duration.parts
  ofParts (whole / n) (rest / n + (whole % n * nanosPerSecond + rest % n) / n)

/-- The seconds as a binary64 number: whole seconds and the fraction are each rounded, then added.
-/
def seconds (duration : Duration) : Float :=
  let (whole, rest) := duration.parts
  whole.toUInt64.toFloat + rest.toUInt64.toFloat / nanosPerSecond.toUInt64.toFloat

end Duration

/-! ## Synchronization -/

/-- How many epochs a partition began, and the time in them if it is measured. -/
structure SyncProfile where
  count : Nat := 0
  total : Option Duration := none
deriving DecidableEq

namespace SyncProfile

def ofMode : ProfileMode → Option SyncProfile
  | .off => none
  | .count => some {}
  | .time => some { total := some Duration.zero }

def start (profile : SyncProfile) : SyncProfile := { profile with count := profile.count + 1 }

/-- An epoch that took `elapsed` is over. -/
def finish (profile : SyncProfile) (elapsed : Duration) : SyncProfile :=
  { profile with total := profile.total.map fun total => ⟨total.nanos + elapsed.nanos⟩ }

/-- The mean time of an epoch in whole nanoseconds. The count has to fit 32 bits. -/
def average (profile : SyncProfile) : Option Duration :=
  match profile.total with
  | none => none
  | some total =>
    if 0 < profile.count ∧ profile.count ≤ 4294967295 then
      some (total.div profile.count)
    else none

/-- The report of a profile, one line a figure. A mean that is missing is written as zero. -/
def text (profile : SyncProfile) : String :=
  s!"SyncManager Count = {profile.count}" ++
    match profile.total with
    | none => ""
    | some total =>
      "\nTotal SyncManager Time = " ++ Text.fixed 6 total.seconds ++ "s" ++
        "\nAverage SyncManager Time = " ++
          toString (profile.average.getD Duration.zero).nanos ++ "ns"

end SyncProfile

/-! ## Clock handlers -/

/-- How often one clock handler was called, and the time in it if it is measured. -/
structure HandlerProfile where
  factor : Nat
  handler : HandlerId
  calls : Nat
  time : Option Duration := none
deriving DecidableEq

/-- The report of a handler's profile on one line. -/
def HandlerProfile.text (profile : HandlerProfile) : String :=
  s!"Clock Handler {profile.handler} (period {profile.factor}) Count = {profile.calls}" ++
    match profile.time with
    | none => ""
    | some time => s!", Time = {time.nanos}ns"

end Lookahead
