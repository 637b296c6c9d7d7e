import Lookahead.Profile
import Lookahead.Text.Numeral
import Lookahead.Total
import Mathlib.Tactic.Ring

/-!
The mean time of an epoch.

A duration is divided in two stages, whole seconds first, and that is the division of all its
nanoseconds: nothing is lost between the stages. So the mean in a profile is the time that was
recorded over the number of epochs, rounded down, and the report ends with it
(`SyncProfile.average_exact`). But the number has to fit 32 bits: where more epochs began there is
no mean, and the report has zero in its place (`SyncProfile.average_missing`).
-/

namespace Lookahead

/-! ## Dividing a duration -/

namespace Duration

variable {n : Nat}

theorem parts_add (duration : Duration) :
    duration.parts.1 * nanosPerSecond + duration.parts.2 = duration.nanos :=
  Nat.div_add_mod' ..

/-- The two stages divide the nanoseconds. -/
theorem div_eq (duration : Duration) (hn : 0 < n) :
    duration.div n = ⟨duration.nanos / n⟩ := by
  have hsplit : duration.nanos =
      n * (duration.parts.1 / n * nanosPerSecond + duration.parts.2 / n) +
        (duration.parts.1 % n * nanosPerSecond + duration.parts.2 % n) := by
    calc duration.nanos
        = (n * (duration.parts.1 / n) + duration.parts.1 % n) * nanosPerSecond +
            (n * (duration.parts.2 / n) + duration.parts.2 % n) := by
          rw [Nat.div_add_mod, Nat.div_add_mod, parts_add]
      _ = _ := by ring
  rw [hsplit, Nat.mul_add_div hn, Nat.add_assoc]
  rfl

end Duration

/-! ## The number at the end of a text -/

namespace Text

def lastNumber (text : String) : Nat :=
  digitsValue ((text.toList.reverse.dropWhile fun c => !isDigit c).takeWhile isDigit).reverse

theorem isDigit_of_mem_toDigits {n : Nat} {c : Char} (h : c ∈ Nat.toDigits 10 n) :
    isDigit c = true := by
  have := Nat.isDigit_of_mem_toDigits (by decide) (by decide) h
  simpa [isDigit, Char.isDigit, Char.le_def] using this

theorem digitsValue_toDigits (n : Nat) : digitsValue (Nat.toDigits 10 n) = n :=
  Nat.ofDigitChars_toDigits (by decide) (by decide)

/-- A number is read back if there is no digit right in front of it and none behind it. -/
theorem lastNumber_append {front unit : String} (n : Nat)
    (hfront : ∀ c ∈ front.toList.getLast?, isDigit c = false)
    (hunit : unit.toList.any isDigit = false) :
    lastNumber (front ++ toString n ++ unit) = n := by
  have hdigits : ∀ c ∈ (Nat.toDigits 10 n).reverse, isDigit c = true :=
    fun c hc => isDigit_of_mem_toDigits (List.mem_reverse.mp hc)
  have hreverse : (front ++ toString n ++ unit).toList.reverse =
      unit.toList.reverse ++ ((Nat.toDigits 10 n).reverse ++ front.toList.reverse) := by
    simp [Nat.toList_repr]
  -- The unit is skipped, and the skipping stops there because at least one digit follows.
  have hskip : ∀ c ∈ unit.toList.reverse, (!isDigit c) = true := by
    intro c hc
    simpa using List.any_eq_false.mp hunit c (List.mem_reverse.mp hc)
  have hstop : ((Nat.toDigits 10 n).reverse ++ front.toList.reverse).dropWhile
      (fun c => !isDigit c) = (Nat.toDigits 10 n).reverse ++ front.toList.reverse := by
    cases hchars : (Nat.toDigits 10 n).reverse with
    | nil => exact absurd (List.reverse_eq_nil_iff.mp hchars) Nat.toDigits_ne_nil
    | cons d rest =>
      rw [hchars] at hdigits
      exact List.dropWhile_cons_of_neg (by simp [hdigits d (List.mem_cons_self ..)])
  have hnone : front.toList.reverse.takeWhile isDigit = [] := by
    rw [← List.head?_reverse] at hfront
    cases hchars : front.toList.reverse with
    | nil => rfl
    | cons c rest =>
      rw [hchars] at hfront
      exact List.takeWhile_cons_of_neg (by simp [hfront c rfl])
  rw [lastNumber, hreverse, List.dropWhile_append_of_pos hskip, hstop,
    List.takeWhile_append_of_pos hdigits, hnone, List.append_nil, List.reverse_reverse,
    digitsValue_toDigits]

end Text

namespace SyncProfile

/-! ## Recording epochs -/

/-- Epochs that take so long, one after another. -/
def record (profile : SyncProfile) (epochs : List Duration) : SyncProfile :=
  epochs.foldl (fun profile elapsed => profile.start.finish elapsed) profile

theorem record_eq (profile : SyncProfile) (epochs : List Duration) :
    profile.record epochs =
      ⟨profile.count + epochs.length,
        profile.total.map fun time => ⟨time.nanos + Lookahead.total Duration.nanos epochs⟩⟩ := by
  induction epochs generalizing profile with
  | nil =>
    obtain ⟨count, time⟩ := profile
    cases time <;> rfl
  | cons elapsed epochs ih =>
    have hstep : profile.record (elapsed :: epochs) =
        (profile.start.finish elapsed).record epochs := rfl
    rw [hstep, ih]
    simp [start, finish, Function.comp_def, Nat.add_assoc, Nat.add_comm 1]

/-! ## The mean -/

section

variable {profile : SyncProfile} {time : Duration}

theorem average_of_counted (htime : profile.total = some time) (hpos : 0 < profile.count)
    (hmax : profile.count ≤ 4294967295) :
    profile.average = some ⟨time.nanos / profile.count⟩ := by
  rw [average, htime, ← time.div_eq hpos]
  exact if_pos ⟨hpos, hmax⟩

theorem average_eq_none_iff : profile.average = none ↔
    profile.total = none ∨ profile.count = 0 ∨ 4294967295 < profile.count := by
  unfold average
  cases profile.total with
  | none => simp
  | some time =>
    simp only [ite_eq_right_iff, reduceCtorEq, imp_false, false_or]
    omega

theorem text_of_timed (htime : profile.total = some time) :
    profile.text = s!"SyncManager Count = {profile.count}" ++
      "\nTotal SyncManager Time = " ++ Text.fixed 6 time.seconds ++ "s" ++
      "\nAverage SyncManager Time = " ++
        toString (profile.average.getD Duration.zero).nanos ++ "ns" := by
  unfold text
  simp only [htime]
  generalize Text.fixed 6 time.seconds = shown
  generalize toString (profile.average.getD Duration.zero).nanos = mean
  simp only [String.append_assoc]

theorem lastNumber_text (htime : profile.total = some time) :
    Text.lastNumber profile.text = (profile.average.getD Duration.zero).nanos := by
  rw [text_of_timed htime]
  refine Text.lastNumber_append _ ?_ rfl
  rw [String.toList_append, List.getLast?_append]
  intro c hc
  obtain rfl : ' ' = c := Option.some.inj hc
  rfl

end

/-- Where time is measured, and epochs began but no more than fit 32 bits, the mean is the time over
their number, rounded down to a nanosecond, and the report ends with it. There is no mean exactly if
time is not measured, if no epoch began, or if more of them began. The report of the time ends with
zero then. -/
theorem average_exact (profile : SyncProfile) :
    (∀ time, profile.total = some time → 1 ≤ profile.count → profile.count ≤ 4294967295 →
      ∃ mean, profile.average = some mean ∧
        mean.nanos = time.nanos / profile.count ∧
        mean.nanos * profile.count ≤ time.nanos ∧
        time.nanos < (mean.nanos + 1) * profile.count ∧
        profile.text = s!"SyncManager Count = {profile.count}" ++
          "\nTotal SyncManager Time = " ++ Text.fixed 6 time.seconds ++ "s" ++
          "\nAverage SyncManager Time = " ++ toString mean.nanos ++ "ns" ∧
        Text.lastNumber profile.text = mean.nanos) ∧
    (profile.average = none ↔
      profile.total = none ∨ profile.count = 0 ∨ 4294967295 < profile.count) ∧
    (∀ time, profile.total = some time → profile.average = none →
      Text.lastNumber profile.text = 0) := by
  refine ⟨fun time htime hpos hmax => ?_, average_eq_none_iff, fun time htime hnone => ?_⟩
  · have haverage := average_of_counted htime hpos hmax
    refine ⟨_, haverage, rfl, Nat.div_mul_le_self .., ?_, ?_, ?_⟩
    · rw [Nat.mul_comm]
      exact Nat.lt_mul_div_succ _ hpos
    · rw [text_of_timed htime, haverage]
      rfl
    · rw [lastNumber_text htime, haverage]
      rfl
  · rw [lastNumber_text htime, hnone]
    rfl

def crowded : SyncProfile := ⟨4294967295, some (Duration.ofParts 9000000000 999999999)⟩

/-- Their mean has whole seconds, and nanoseconds that come from both stages. -/
theorem average_exact_crowded :
    crowded.total = some (Duration.ofParts 9000000000 999999999) ∧
    1 ≤ crowded.count ∧ crowded.count ≤ 4294967295 ∧
    ∃ mean, crowded.average = some mean ∧ mean.nanos = 2095475793 ∧
      Text.lastNumber crowded.text = 2095475793 := by
  have hpos : 1 ≤ crowded.count := by decide
  have hmax : crowded.count ≤ 4294967295 := by decide
  obtain ⟨mean, haverage, hnanos, _, _, _, hshown⟩ := (average_exact crowded).1 _ rfl hpos hmax
  have hmean : mean.nanos = 2095475793 := hnanos.trans (by decide)
  exact ⟨rfl, hpos, hmax, mean, haverage, hmean, hshown.trans hmean⟩

/-- One epoch more than fits 32 bits, and each of a microsecond. -/
def overcrowded : SyncProfile := ⟨4294967296, some ⟨4294967296000⟩⟩

/-- They can be recorded and have a mean of a microsecond, but the profile has none, and zero
nanoseconds are reported. -/
theorem average_missing :
    (∃ profile, ofMode .time = some profile ∧
      profile.record (List.replicate 4294967296 ⟨1000⟩) = overcrowded) ∧
    overcrowded.total = some ⟨4294967296000⟩ ∧ 1 ≤ overcrowded.count ∧
    1000 * overcrowded.count = 4294967296000 ∧
    overcrowded.average = none ∧ Text.lastNumber overcrowded.text = 0 := by
  have hnone : overcrowded.average = none := average_eq_none_iff.mpr (.inr (.inr (by decide)))
  have hshown : Text.lastNumber overcrowded.text = 0 := by
    rw [lastNumber_text rfl, hnone]
    rfl
  refine ⟨⟨_, rfl, ?_⟩, rfl, by decide, by decide, hnone, hshown⟩
  rw [record_eq, List.length_replicate, total_replicate]
  rfl

end SyncProfile

end Lookahead
