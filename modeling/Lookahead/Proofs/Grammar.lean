import Lookahead.Proofs.Rounding
import Mathlib.Data.List.DropRight

/-!
Which specifications of a time are accepted.

A specification is white space, a numeral, white space, a unit and white space. The unit begins at
the first ASCII letter, so that a numeral must not hold one, and everything between it and the white
space at the end belongs to it, known or not. White space is never looked at otherwise: how much of
it stands in any of the three places has no influence on the period.
-/

namespace Lookahead

namespace Text

/-! ## White space -/

def Blank (cs : List Char) : Prop := ∀ c ∈ cs, isBlank c = true

instance (cs : List Char) : Decidable (Blank cs) := decidable_of_iff _ List.all_eq_true

theorem blank_nil : Blank [] := fun _ h => nomatch h

theorem Blank.append {front back : List Char} (hfront : Blank front) (hback : Blank back) :
    Blank (front ++ back) := by
  intro c hc
  rcases List.mem_append.mp hc with hc | hc
  · exact hfront c hc
  · exact hback c hc

theorem blank_takeWhile (cs : List Char) : Blank (cs.takeWhile isBlank) :=
  fun _ => List.mem_takeWhile_imp

/-- Trimming drops white space first on the left and then on the right. -/
theorem trim_eq (cs : List Char) : trim cs = (cs.dropWhile isBlank).rdropWhile isBlank := rfl

theorem rdropWhile_append_blank {blanks : List Char} (h : Blank blanks) (cs : List Char) :
    (cs ++ blanks).rdropWhile isBlank = cs.rdropWhile isBlank := by
  rw [List.rdropWhile, List.rdropWhile, List.reverse_append, List.dropWhile_append_of_pos]
  exact fun c hc => h c (List.mem_reverse.mp hc)

/-- White space around a text has no influence on what trimming leaves. -/
theorem trim_append {before after : List Char} (hbefore : Blank before) (hafter : Blank after)
    (cs : List Char) : trim (before ++ cs ++ after) = trim cs := by
  rw [trim_eq, trim_eq, List.append_assoc, List.dropWhile_append_of_pos hbefore,
    List.dropWhile_append]
  split
  · rename_i hempty
    rw [List.isEmpty_iff] at hempty
    have hnone : after.dropWhile isBlank = [] := List.dropWhile_eq_nil_iff.mpr hafter
    rw [hempty, hnone]
  · exact rdropWhile_append_blank hafter _

/-- Trimming cuts white space off both ends. -/
theorem exists_eq_trim (cs : List Char) : ∃ before after, Blank before ∧ Blank after ∧
    cs = before ++ trim cs ++ after := by
  refine ⟨cs.takeWhile isBlank, (cs.dropWhile isBlank).rtakeWhile isBlank, blank_takeWhile cs,
    fun _ => List.mem_rtakeWhile_imp, ?_⟩
  rw [trim_eq, List.append_assoc, List.rdropWhile_append_rtakeWhile,
    List.takeWhile_append_dropWhile]

/-- What trimming leaves does not end in white space. -/
theorem isBlank_getLast_trim {cs : List Char} {c : Char} (h : c ∈ (trim cs).getLast?) :
    isBlank c = false := by
  obtain ⟨hne, rfl⟩ := List.mem_getLast?_eq_getLast h
  exact Bool.eq_false_iff.mpr (List.rdropWhile_last_not isBlank (cs.dropWhile isBlank) hne)

/-- A text with no white space in it stays as it is. -/
theorem trim_of_not_blank {cs : List Char} (h : ∀ c ∈ cs, isBlank c = false) : trim cs = cs := by
  have hdrop : cs.dropWhile isBlank = cs := by
    cases cs with
    | nil => rfl
    | cons c cs => exact List.dropWhile_cons_of_neg (by simp [h c List.mem_cons_self])
  rw [trim_eq, hdrop, List.rdropWhile_eq_self_iff]
  intro hne
  simp [h _ (List.getLast_mem hne)]

/-- The ASCII letters by their code points. -/
theorem isAlpha_iff {c : Char} : c.isAlpha = true ↔
    65 ≤ c.toNat ∧ c.toNat ≤ 90 ∨ 97 ≤ c.toNat ∧ c.toNat ≤ 122 := by
  have hupper : c.isUpper = true ↔ 65 ≤ c.toNat ∧ c.toNat ≤ 90 := decide_eq_true_iff
  have hlower : c.isLower = true ↔ 97 ≤ c.toNat ∧ c.toNat ≤ 122 :=
    (Bool.and_eq_true_iff ..).trans (and_congr decide_eq_true_iff decide_eq_true_iff)
  show (c.isUpper || c.isLower) = true ↔ _
  rw [Bool.or_eq_true, hupper, hlower]

/-- Among the printable ASCII characters, only the space is white space. -/
theorem toNat_of_isBlank {c : Char} (h : isBlank c = true) : c.toNat ≤ 32 ∨ 127 < c.toNat := by
  simp only [isBlank, blankRanges, List.any_cons, List.any_nil, Bool.or_false, Bool.or_eq_true,
    Bool.and_eq_true, decide_eq_true_eq] at h
  omega

/-- White space is no ASCII letter. -/
theorem isAlpha_of_isBlank {c : Char} (h : isBlank c = true) : c.isAlpha = false := by
  have hrange := toNat_of_isBlank h
  rw [Bool.eq_false_iff, Ne, isAlpha_iff]
  omega

/-! ## Numerals -/

/-- A sign in front of a number; `true` is minus. -/
inductive Sign : Bool → List Char → Prop where
  | none : Sign false []
  | plus : Sign false ['+']
  | minus : Sign true ['-']

/-- The texts that write a numeral: an optional sign, then digits, which may be on both sides of a
point, and of which there is at least one. -/
inductive Numeral.Writes : Numeral → List Char → Prop where
  | whole {negative : Bool} {sign digits : List Char} : Sign negative sign →
      (∀ c ∈ digits, isDigit c = true) → digits ≠ [] →
      Writes ⟨negative, digitsValue digits, 0⟩ (sign ++ digits)
  | point {negative : Bool} {sign whole fraction : List Char} : Sign negative sign →
      (∀ c ∈ whole ++ fraction, isDigit c = true) → whole ++ fraction ≠ [] →
      Writes ⟨negative, digitsValue (whole ++ fraction), fraction.length⟩
        (sign ++ (whole ++ '.' :: fraction))

theorem splitSign_eq (cs : List Char) :
    ∃ sign, Sign (splitSign cs).1 sign ∧ cs = sign ++ (splitSign cs).2 := by
  unfold splitSign
  split
  · exact ⟨_, .minus, rfl⟩
  · exact ⟨_, .plus, rfl⟩
  · exact ⟨_, .none, rfl⟩

/-- In front of a digit or a point there is nothing else to split off. -/
theorem splitSign_append {negative : Bool} {sign : List Char} (hsign : Sign negative sign)
    {c : Char} (hc : isDigit c = true ∨ c = '.') (cs : List Char) :
    splitSign (sign ++ c :: cs) = (negative, c :: cs) := by
  cases hsign with
  | plus => rfl
  | minus => rfl
  | none =>
    have hminus : c ≠ '-' := by rintro rfl; revert hc; decide
    have hplus : c ≠ '+' := by rintro rfl; revert hc; decide
    show splitSign (c :: cs) = _
    unfold splitSign
    split
    · rename_i heq; exact absurd (List.cons.inj heq).1 hminus
    · rename_i heq; exact absurd (List.cons.inj heq).1 hplus
    · rfl

theorem isDigit_point : isDigit '.' = false := by decide

theorem toNat_of_isDigit {c : Char} (h : isDigit c = true) : 48 ≤ c.toNat ∧ c.toNat ≤ 57 := by
  simp only [isDigit, Bool.and_eq_true, decide_eq_true_eq] at h
  exact h

namespace Numeral

theorem writes_of_ofChars? {cs : List Char} {numeral : Numeral} (h : ofChars? cs = some numeral) :
    numeral.Writes cs := by
  obtain ⟨sign, hsign, hcs⟩ := splitSign_eq cs
  unfold ofChars? at h
  generalize splitSign cs = parts at h hsign hcs
  obtain ⟨negative, rest⟩ := parts
  dsimp only at h hsign hcs
  have hdigits : ∀ c ∈ rest.takeWhile isDigit, isDigit c = true := fun _ => List.mem_takeWhile_imp
  have hjoin := List.takeWhile_append_dropWhile (p := isDigit) (l := rest)
  generalize rest.takeWhile isDigit = whole at h hdigits hjoin
  generalize rest.dropWhile isDigit = others at h hjoin
  rw [hcs, ← hjoin]
  split at h
  · split at h
    · cases h
    · rename_i hsome
      cases h
      rw [List.append_nil]
      exact .whole hsign hdigits (by simpa using hsome)
  · rename_i fraction
    split at h
    · rename_i hall
      cases h
      rw [Bool.and_eq_true, List.all_eq_true] at hall
      refine .point hsign (fun c hc => ?_) (by simpa using hall.2)
      exact (List.mem_append.mp hc).elim (hdigits c) (hall.1 c)
    · cases h
  · cases h

theorem ofChars?_of_writes {cs : List Char} {numeral : Numeral} (h : numeral.Writes cs) :
    ofChars? cs = some numeral := by
  cases h with
  | @whole negative sign digits hsign hdigits hsome =>
    obtain ⟨c, rest, rfl⟩ := List.exists_cons_of_ne_nil hsome
    unfold ofChars?
    rw [splitSign_append hsign (.inl (hdigits c List.mem_cons_self))]
    dsimp only
    rw [List.dropWhile_eq_nil_iff.mpr hdigits, List.takeWhile_eq_self_iff.mpr hdigits]
    rfl
  | @point negative sign whole fraction hsign hdigits hsome =>
    have hwhole : ∀ c ∈ whole, isDigit c = true := fun c hc => hdigits c (List.mem_append_left _ hc)
    have hfraction : fraction.all isDigit = true :=
      List.all_eq_true.mpr fun c hc => hdigits c (List.mem_append_right _ hc)
    have haccepted : (fraction.all isDigit && !(whole ++ fraction).isEmpty) = true := by
      rw [hfraction, Bool.true_and, Bool.not_eq_true', List.isEmpty_eq_false_iff]
      exact hsome
    have hsplit : splitSign (sign ++ (whole ++ '.' :: fraction)) =
        (negative, whole ++ '.' :: fraction) := by
      cases whole with
      | nil => exact splitSign_append hsign (.inr rfl) _
      | cons c whole => exact splitSign_append hsign (.inl (hwhole c List.mem_cons_self)) _
    unfold ofChars?
    rw [hsplit]
    dsimp only
    rw [List.dropWhile_append_of_pos hwhole, List.takeWhile_append_of_pos hwhole,
      List.dropWhile_cons_of_neg (by simp [isDigit_point]),
      List.takeWhile_cons_of_neg (by simp [isDigit_point]), List.append_nil]
    exact if_pos haccepted

theorem ofChars?_eq_some_iff {cs : List Char} {numeral : Numeral} :
    ofChars? cs = some numeral ↔ numeral.Writes cs :=
  ⟨writes_of_ofChars?, ofChars?_of_writes⟩

theorem Writes.mem {cs : List Char} {numeral : Numeral} (h : numeral.Writes cs) {c : Char}
    (hc : c ∈ cs) : isDigit c = true ∨ c ∈ ['+', '-', '.'] := by
  have hsigns : ∀ {negative sign}, Sign negative sign → c ∈ sign → c ∈ ['+', '-', '.'] := by
    intro negative sign hsign hmem
    cases hsign <;> simp_all
  cases h with
  | whole hsign hdigits =>
    exact (List.mem_append.mp hc).elim (fun h => .inr (hsigns hsign h)) fun h => .inl (hdigits c h)
  | point hsign hdigits =>
    rcases List.mem_append.mp hc with h | h
    · exact .inr (hsigns hsign h)
    rcases List.mem_append.mp h with h | h
    · exact .inl (hdigits c (List.mem_append_left _ h))
    rcases List.mem_cons.mp h with rfl | h
    · simp
    · exact .inl (hdigits c (List.mem_append_right _ h))

/-- There is neither a letter nor white space in a numeral. -/
theorem Writes.isAlpha_eq_false {cs : List Char} {numeral : Numeral} (h : numeral.Writes cs)
    {c : Char} (hc : c ∈ cs) : c.isAlpha = false := by
  rw [Bool.eq_false_iff, Ne, isAlpha_iff]
  rcases h.mem hc with hdigit | hsign
  · have := toNat_of_isDigit hdigit
    omega
  · have hsigns : ∀ c ∈ ['+', '-', '.'], c.toNat < 65 := by simp
    have := hsigns c hsign
    omega

theorem Writes.isBlank_eq_false {cs : List Char} {numeral : Numeral} (h : numeral.Writes cs)
    {c : Char} (hc : c ∈ cs) : isBlank c = false := by
  rcases h.mem hc with hdigit | hsign
  · have hrange := toNat_of_isDigit hdigit
    rw [Bool.eq_false_iff]
    intro hblank
    have := toNat_of_isBlank hblank
    omega
  · have hsigns : ∀ c ∈ ['+', '-', '.'], isBlank c = false := by
      simp [isBlank, blankRanges]
    exact hsigns c hsign

end Numeral

end Text

/-! ## Specifications -/

/-- A unit begins with an ASCII letter and does not end in white space. -/
def IsUnit (unit : List Char) : Prop :=
  (∃ c ∈ unit.head?, c.isAlpha = true) ∧ ∀ c ∈ unit.getLast?, Text.isBlank c = false

/-- A text that consists of a numeral and a unit, with white space around and between them. -/
def Specifies (numeral : Text.Numeral) (unit spec : String) : Prop :=
  ∃ before number between after, Text.Blank before ∧ Text.Blank between ∧ Text.Blank after ∧
    numeral.Writes number ∧ IsUnit unit.toList ∧
      spec.toList = before ++ number ++ between ++ unit.toList ++ after

theorem trim_append_unit {front unit after : List Char} (hunit : IsUnit unit)
    (hafter : Text.Blank after) :
    Text.trim (front ++ unit ++ after) = front.dropWhile Text.isBlank ++ unit := by
  obtain ⟨⟨c, hhead, hletter⟩, hlast⟩ := hunit
  have hsolid : unit.dropWhile Text.isBlank = unit := by
    obtain ⟨rest, rfl⟩ := List.head?_eq_some_iff.mp hhead
    refine List.dropWhile_cons_of_neg fun hblank => ?_
    rw [Text.isAlpha_of_isBlank hblank] at hletter
    cases hletter
  have hdrop : (front ++ unit).dropWhile Text.isBlank = front.dropWhile Text.isBlank ++ unit := by
    rw [List.dropWhile_append, hsolid]
    split
    · rename_i hempty
      rw [List.isEmpty_iff.mp hempty, List.nil_append]
    · rfl
  have htrim : Text.trim (front ++ unit ++ after) = Text.trim (front ++ unit) :=
    Text.trim_append Text.blank_nil hafter (front ++ unit)
  rw [htrim, Text.trim_eq, hdrop, List.rdropWhile_eq_self_iff]
  intro hne hblank
  have hsome : unit ≠ [] := by rintro rfl; cases hhead
  rw [List.getLast_append_of_ne_nil hne hsome,
    hlast _ (List.getLast_mem_getLast? hsome)] at hblank
  cases hblank

/-- The split is in front of the first letter, and the white space at the end belongs to neither
part. -/
theorem splitUnit?_eq_some_iff {spec unit : String} {number : List Char} :
    splitUnit? spec = some (number, unit) ↔ ∃ front after, (∀ c ∈ front, c.isAlpha = false) ∧
      Text.Blank after ∧ IsUnit unit.toList ∧ number = Text.trim front ∧
        spec.toList = front ++ unit.toList ++ after := by
  constructor
  · intro h
    obtain ⟨before, after, hbefore, hafter, hspec⟩ := Text.exists_eq_trim spec.toList
    have hlast := @Text.isBlank_getLast_trim spec.toList
    unfold splitUnit? at h
    dsimp only at h
    generalize Text.trim spec.toList = trimmed at h hspec hlast
    have hjoin := List.takeWhile_append_dropWhile (p := fun c => !c.isAlpha) (l := trimmed)
    have hfront : ∀ c ∈ trimmed.takeWhile (fun c => !c.isAlpha), c.isAlpha = false := by
      intro c hc
      simpa using List.mem_takeWhile_imp hc
    have hhead := List.head?_dropWhile_not (fun c : Char => !c.isAlpha) trimmed
    generalize trimmed.takeWhile (fun c => !c.isAlpha) = front at h hjoin hfront
    generalize trimmed.dropWhile (fun c => !c.isAlpha) = rest at h hjoin hhead
    cases rest with
    | nil => cases h
    | cons c rest =>
      cases h
      rw [String.toList_ofList]
      refine ⟨before ++ front, after, fun d hd => ?_, hafter, ⟨⟨c, rfl, by simpa using hhead⟩, ?_⟩,
        ?_, ?_⟩
      · rcases List.mem_append.mp hd with hd | hd
        · exact Text.isAlpha_of_isBlank (hbefore d hd)
        · exact hfront d hd
      · intro d hd
        refine hlast ?_
        rw [← hjoin, List.getLast?_append, hd]
        rfl
      · rw [← Text.trim_append hbefore Text.blank_nil front, List.append_nil]
      · rw [hspec, ← hjoin]
        simp only [List.append_assoc]
  · rintro ⟨front, after, hfront, hafter, hunit, rfl, hspec⟩
    have hrest : ∀ c ∈ front.dropWhile Text.isBlank, (!c.isAlpha) = true := fun c hc => by
      rw [hfront c ((List.dropWhile_sublist _).mem hc)]
      rfl
    have htrim : Text.trim (front.dropWhile Text.isBlank) = Text.trim front := by
      rw [Text.trim_eq, Text.trim_eq, List.dropWhile_idempotent]
    unfold splitUnit?
    dsimp only
    rw [hspec, trim_append_unit hunit hafter, List.dropWhile_append_of_pos hrest,
      List.takeWhile_append_of_pos hrest]
    obtain ⟨⟨c, hhead, hletter⟩, -⟩ := hunit
    obtain ⟨rest, hcons⟩ := List.head?_eq_some_iff.mp hhead
    have hback : String.ofList (c :: rest) = unit := by rw [← hcons, String.ofList_toList]
    rw [hcons, List.dropWhile_cons_of_neg (by simp [hletter]),
      List.takeWhile_cons_of_neg (by simp [hletter]), List.append_nil, htrim]
    show some (Text.trim front, String.ofList (c :: rest)) = _
    rw [hback]

/-- The parts of a specification are those that it is split into. -/
theorem specifies_iff {numeral : Text.Numeral} {unit spec : String} :
    Specifies numeral unit spec ↔ ∃ number, splitUnit? spec = some (number, unit) ∧
      Text.Numeral.ofChars? number = some numeral := by
  simp only [splitUnit?_eq_some_iff, Text.Numeral.ofChars?_eq_some_iff]
  constructor
  · rintro ⟨before, number, between, after, hbefore, hbetween, hafter, hnumber, hunit, hspec⟩
    refine ⟨number, ⟨before ++ number ++ between, after, fun c hc => ?_, hafter, hunit, ?_, hspec⟩,
      hnumber⟩
    · simp only [List.mem_append] at hc
      rcases hc with (hc | hc) | hc
      · exact Text.isAlpha_of_isBlank (hbefore c hc)
      · exact hnumber.isAlpha_eq_false hc
      · exact Text.isAlpha_of_isBlank (hbetween c hc)
    · rw [Text.trim_append hbefore hbetween]
      exact (Text.trim_of_not_blank fun _ => hnumber.isBlank_eq_false).symm
  · rintro ⟨number, ⟨front, after, -, hafter, hunit, rfl, hspec⟩, hnumber⟩
    obtain ⟨before, between, hbefore, hbetween, hfront⟩ := Text.exists_eq_trim front
    exact ⟨before, Text.trim front, between, after, hbefore, hbetween, hafter, hnumber, hunit,
      by rw [← hfront, hspec]⟩

/-! ## Units -/

/-- The ten units with the ways to spell them: six that last and four that repeat. -/
def unitSpellings : List (List String) :=
  [["fs"], ["ps"], ["ns"], ["us"], ["ms"], ["s"], ["Hz"], ["kHz", "KHz"], ["MHz"], ["GHz"]]

def IsKnownUnit (unit : String) : Prop := ∃ spellings ∈ unitSpellings, unit ∈ spellings

theorem named?_eq_none_iff {unit : String} : TimeUnit.named? unit = none ↔ ¬IsKnownUnit unit := by
  simp only [IsKnownUnit, unitSpellings, List.mem_cons, List.not_mem_nil, or_false,
    exists_eq_or_imp, exists_eq_left]
  unfold TimeUnit.named?
  split <;> simp_all

/-! ## Reading a specification -/

theorem Specifies.femtosOf_eq {numeral : Text.Numeral} {unit spec : String}
    (h : Specifies numeral unit spec) (hamount : numeral.IsAmount) : femtosOf spec =
      match TimeUnit.named? unit with
      | none => .error (.unknownUnit unit)
      | some scale => .ok (scale.femtos numeral.nearest) := by
  obtain ⟨number, hsplit, hnumeral⟩ := specifies_iff.mp h
  unfold femtosOf
  rw [hsplit]
  dsimp only
  rw [hnumeral]
  exact if_pos (numeral.isAmount_nearest.mpr hamount)

theorem femtosOf_eq_invalidFormat {spec : String}
    (h : ¬∃ numeral unit, Specifies numeral unit spec ∧ numeral.IsAmount) :
    femtosOf spec = .error (.invalidFormat spec) := by
  unfold femtosOf
  split
  · rfl
  rename_i number unit hsplit
  split
  · rfl
  rename_i numeral hnumeral
  refine if_neg fun hamount => h ⟨numeral, unit, ?_, numeral.isAmount_nearest.mp hamount⟩
  exact specifies_iff.mpr ⟨number, hsplit, hnumeral⟩

namespace Timebase

theorem period_eq (base : Timebase) (spec : String) : base.period spec =
    match femtosOf spec with
    | .error e => .error e
    | .ok femtos =>
      if (femtos / base.femtos).isNaN then .error .zeroFactor
      else if Binary64.round (femtos / base.femtos) < 1 then .error (.belowTimebase spec)
      else Period.ofFactor (min (Binary64.round (femtos / base.femtos)) lastTick) := by
  unfold Timebase.period
  cases femtosOf spec with
  | error e => rfl
  | ok femtos =>
    dsimp only [Bind.bind, Except.bind]
    split
    · rfl
    split <;> rfl

theorem period_of_error (base : Timebase) {spec : String} {e : TimeError}
    (h : femtosOf spec = .error e) : base.period spec = .error e := by
  rw [period_eq, h]

/-- Once the femtoseconds are known, a period is only missing because it is too short. -/
theorem period_of_ok (base : Timebase) {spec : String} {femtos : Float}
    (h : femtosOf spec = .ok femtos) : (∃ period, base.period spec = .ok period) ∨
      base.period spec = .error (.belowTimebase spec) ∨ base.period spec = .error .zeroFactor := by
  rw [period_eq, h]
  dsimp only
  split
  · exact .inr (.inr rfl)
  split
  · exact .inr (.inl rfl)
  cases hperiod : Period.ofFactor (min (Binary64.round (femtos / base.femtos)) lastTick) with
  | ok period => exact .inl ⟨period, rfl⟩
  | error e =>
    rw [(Period.ofFactor_eq_error_iff.mp hperiod).2]
    exact .inr (.inr rfl)

/-- Without the errors, the text itself is of no more use once its femtoseconds are known. -/
theorem toOption_period (base : Timebase) (spec : String) :
    (base.period spec).toOption = (femtosOf spec).toOption.bind fun femtos =>
      if (femtos / base.femtos).isNaN then none
      else if Binary64.round (femtos / base.femtos) < 1 then none
      else (Period.ofFactor (min (Binary64.round (femtos / base.femtos)) lastTick)).toOption := by
  rw [period_eq]
  cases femtosOf spec with
  | error e => rfl
  | ok femtos =>
    dsimp only
    rw [apply_ite Except.toOption, apply_ite Except.toOption]
    rfl

end Timebase

/-! ## White space in a specification -/

/-- A text without letters and then one that begins with a letter, if with anything, and white space
around and between the two. Every text is of this form. -/
def Spaces (number unit : List Char) (spec : String) : Prop :=
  (∀ c ∈ number, c.isAlpha = false) ∧ (∀ c ∈ unit.head?, c.isAlpha = true) ∧
    ∃ before between after, Text.Blank before ∧ Text.Blank between ∧ Text.Blank after ∧
      spec.toList = before ++ number ++ between ++ unit ++ after

/-- What follows the first letter is a unit but for the white space at its end. -/
theorem isUnit_rdropWhile {c : Char} (hletter : c.isAlpha = true) (rest : List Char) :
    IsUnit ((c :: rest).rdropWhile Text.isBlank) := by
  have hsome : (c :: rest).rdropWhile Text.isBlank ≠ [] := by
    rw [Ne, List.rdropWhile_eq_nil_iff]
    intro hblank
    rw [Text.isAlpha_of_isBlank (hblank c List.mem_cons_self)] at hletter
    cases hletter
  refine ⟨⟨c, ?_, hletter⟩, fun d hd => ?_⟩
  · obtain ⟨d, core, hcore⟩ := List.exists_cons_of_ne_nil hsome
    obtain ⟨tail, htail⟩ := List.rdropWhile_prefix Text.isBlank (l := c :: rest)
    rw [hcore] at htail ⊢
    cases htail
    rfl
  · obtain ⟨hne, rfl⟩ := List.mem_getLast?_eq_getLast hd
    exact Bool.eq_false_iff.mpr (List.rdropWhile_last_not Text.isBlank (c :: rest) hne)

/-- What the split gives does not depend on the white space. -/
theorem Spaces.splitUnit?_eq {number unit : List Char} {spec : String}
    (h : Spaces number unit spec) : splitUnit? spec = if unit = [] then none
      else some (Text.trim number, String.ofList (unit.rdropWhile Text.isBlank)) := by
  obtain ⟨hnumber, hunit, before, between, after, hbefore, hbetween, hafter, hspec⟩ := h
  have hfront : ∀ c ∈ before ++ number ++ between, c.isAlpha = false := by
    intro c hc
    rw [List.mem_append, List.mem_append] at hc
    rcases hc with (hc | hc) | hc
    · exact Text.isAlpha_of_isBlank (hbefore c hc)
    · exact hnumber c hc
    · exact Text.isAlpha_of_isBlank (hbetween c hc)
  cases unit with
  | nil =>
    rw [if_pos rfl, Option.eq_none_iff_forall_ne_some]
    rintro ⟨_, unit⟩ hsplit
    obtain ⟨front, _, -, -, ⟨⟨c, hhead, hletter⟩, -⟩, -, hother⟩ := splitUnit?_eq_some_iff.mp hsplit
    have hmem : c ∈ spec.toList := by
      rw [hother]
      exact List.mem_append_left _ (List.mem_append_right _ (List.mem_of_mem_head? hhead))
    rw [hspec, List.append_nil, List.mem_append] at hmem
    have hnone : c.isAlpha = false :=
      hmem.elim (hfront c) fun hc => Text.isAlpha_of_isBlank (hafter c hc)
    rw [hnone] at hletter
    cases hletter
  | cons c rest =>
    rw [if_neg (List.cons_ne_nil c rest), splitUnit?_eq_some_iff, String.toList_ofList]
    refine ⟨before ++ number ++ between, (c :: rest).rtakeWhile Text.isBlank ++ after, hfront,
      Text.Blank.append (fun _ => List.mem_rtakeWhile_imp) hafter,
      isUnit_rdropWhile (hunit c rfl) rest, ?_, ?_⟩
    · exact (Text.trim_append hbefore hbetween number).symm
    · rw [List.append_assoc, ← List.append_assoc (List.rdropWhile _ _),
        List.rdropWhile_append_rtakeWhile, ← List.append_assoc, hspec]

theorem toOption_femtosOf_congr {spec other : String} (h : splitUnit? spec = splitUnit? other) :
    (femtosOf spec).toOption = (femtosOf other).toOption := by
  unfold femtosOf
  rw [h]
  split
  · rfl
  split
  · rfl
  · split <;> rfl

/-! ## Acceptance -/

namespace Specifies

variable {numeral numeral' : Text.Numeral} {unit unit' spec : String}

/-- A text can be read in one way only. -/
theorem unique (h : Specifies numeral unit spec) (h' : Specifies numeral' unit' spec) :
    numeral = numeral' ∧ unit = unit' := by
  obtain ⟨number, hsplit, hnumeral⟩ := specifies_iff.mp h
  obtain ⟨number', hsplit', hnumeral'⟩ := specifies_iff.mp h'
  cases hsplit.symm.trans hsplit'
  cases hnumeral.symm.trans hnumeral'
  exact ⟨rfl, rfl⟩

theorem period_of_unknown (h : Specifies numeral unit spec) (hamount : numeral.IsAmount)
    (hunit : ¬IsKnownUnit unit) (base : Timebase) :
    base.period spec = .error (.unknownUnit unit) := by
  refine base.period_of_error ?_
  rw [h.femtosOf_eq hamount, named?_eq_none_iff.mpr hunit]

theorem period_of_known (h : Specifies numeral unit spec) (hamount : numeral.IsAmount)
    (hunit : IsKnownUnit unit) (base : Timebase) : (∃ period, base.period spec = .ok period) ∨
      base.period spec = .error (.belowTimebase spec) ∨ base.period spec = .error .zeroFactor := by
  cases hscale : TimeUnit.named? unit with
  | none => exact absurd hunit (named?_eq_none_iff.mp hscale)
  | some scale =>
    have hfemtos : femtosOf spec = .ok (scale.femtos numeral.nearest) := by
      rw [h.femtosOf_eq hamount, hscale]
    exact base.period_of_ok hfemtos

end Specifies

/-- The three ways in which a specification is answered. -/
theorem Timebase.period_cases (base : Timebase) (spec : String) :
    (¬∃ numeral unit, Specifies numeral unit spec ∧ numeral.IsAmount) ∧
      base.period spec = .error (.invalidFormat spec) ∨
    (∃ numeral unit, Specifies numeral unit spec ∧ numeral.IsAmount ∧ ¬IsKnownUnit unit ∧
      base.period spec = .error (.unknownUnit unit)) ∨
    (∃ numeral unit, Specifies numeral unit spec ∧ numeral.IsAmount ∧ IsKnownUnit unit ∧
      ((∃ period, base.period spec = .ok period) ∨
        base.period spec = .error (.belowTimebase spec) ∨
          base.period spec = .error .zeroFactor)) := by
  by_cases hspec : ∃ numeral unit, Specifies numeral unit spec ∧ numeral.IsAmount
  · obtain ⟨numeral, unit, h, hamount⟩ := hspec
    by_cases hunit : IsKnownUnit unit
    · exact .inr (.inr ⟨numeral, unit, h, hamount, hunit, h.period_of_known hamount hunit base⟩)
    · exact .inr (.inl ⟨numeral, unit, h, hamount, hunit, h.period_of_unknown hamount hunit base⟩)
  · exact .inl ⟨hspec, base.period_of_error (femtosOf_eq_invalidFormat hspec)⟩

/-- **Specifications are accepted by their grammar.** A specification has a wrong format exactly if
it does not consist of a positive finite number and a unit, and the error carries all of it. It has
an unknown unit exactly if the unit is none of the ten, and the error carries that unit. With any
other there is a period, unless that is too short. White space around and between number and unit
changes neither whether there is one nor which. -/
theorem Timebase.period_by_grammar (base : Timebase) (spec : String) :
    (base.period spec = .error (.invalidFormat spec) ↔
      ¬∃ numeral unit, Specifies numeral unit spec ∧ numeral.IsAmount) ∧
    (∀ input, base.period spec = .error (.invalidFormat input) → input = spec) ∧
    (∀ unit, base.period spec = .error (.unknownUnit unit) ↔
      (∃ numeral, Specifies numeral unit spec ∧ numeral.IsAmount) ∧ ¬IsKnownUnit unit) ∧
    ((∃ numeral unit, Specifies numeral unit spec ∧ numeral.IsAmount ∧ IsKnownUnit unit) ↔
      (∃ period, base.period spec = .ok period) ∨ base.period spec = .error (.belowTimebase spec) ∨
        base.period spec = .error .zeroFactor) ∧
    (∀ number unit other, Spaces number unit spec → Spaces number unit other →
      (base.period spec).toOption = (base.period other).toOption) := by
  have hspaces : ∀ number unit other, Spaces number unit spec → Spaces number unit other →
      (base.period spec).toOption = (base.period other).toOption := by
    intro number unit other hspec hother
    rw [base.toOption_period, base.toOption_period,
      toOption_femtosOf_congr (hspec.splitUnit?_eq.trans hother.splitUnit?_eq.symm)]
  rcases base.period_cases spec with ⟨hnone, hresult⟩ |
    ⟨numeral, unit, h, hamount, hunit, hresult⟩ | ⟨numeral, unit, h, hamount, hunit, hresult⟩
  · refine ⟨iff_of_true hresult hnone, fun input hinput => ?_, fun unit => ?_, ?_, hspaces⟩
    · cases hresult.symm.trans hinput
      rfl
    · refine iff_of_false (fun hother => ?_) fun ⟨⟨numeral, h, hamount⟩, _⟩ =>
        hnone ⟨numeral, unit, h, hamount⟩
      cases hresult.symm.trans hother
    · refine iff_of_false ?_ (by simp [hresult])
      exact fun ⟨numeral, unit, h, hamount, _⟩ => hnone ⟨numeral, unit, h, hamount⟩
  · refine ⟨iff_of_false (fun hother => ?_) fun hnone => hnone ⟨numeral, unit, h, hamount⟩,
      fun input hinput => ?_, fun other => ⟨fun hother => ?_, ?_⟩, ?_, hspaces⟩
    · cases hresult.symm.trans hother
    · cases hresult.symm.trans hinput
    · cases hresult.symm.trans hother
      exact ⟨⟨numeral, h, hamount⟩, hunit⟩
    · rintro ⟨⟨numeral', h', -⟩, -⟩
      rw [← (h.unique h').2]
      exact hresult
    · refine iff_of_false (fun ⟨numeral', unit', h', _, hunit'⟩ => hunit ?_) ?_
      · rw [(h.unique h').2]
        exact hunit'
      · rw [hresult]
        simp
  · refine ⟨iff_of_false (fun hother => ?_) fun hnone => hnone ⟨numeral, unit, h, hamount⟩,
      fun input hinput => ?_, fun other => iff_of_false (fun hother => ?_) ?_, ?_, hspaces⟩
    · simp [hother] at hresult
    · simp [hinput] at hresult
    · simp [hother] at hresult
    · rintro ⟨⟨numeral', h', -⟩, hunit'⟩
      rw [← (h.unique h').2] at hunit'
      exact hunit' hunit
    · exact iff_of_true ⟨numeral, unit, h, hamount, hunit⟩ hresult

/-- Ten nanoseconds are as long with white space in all three places. -/
theorem Timebase.period_spaced_nanoseconds :
    Spaces ['1', '0'] ['n', 's'] "10ns" ∧ Spaces ['1', '0'] ['n', 's'] " 10 ns\n" ∧
      (picosecond.period "10ns").toOption = (picosecond.period " 10 ns\n").toOption := by
  have hnumber : ∀ c ∈ ['1', '0'], c.isAlpha = false := by
    rintro c hc
    obtain rfl | rfl := List.mem_pair.mp hc <;> rfl
  have hunit : ∀ c ∈ ['n', 's'].head?, c.isAlpha = true := by
    intro c hc
    cases hc
    rfl
  have hplain : Spaces ['1', '0'] ['n', 's'] "10ns" :=
    ⟨hnumber, hunit, [], [], [], by decide, by decide, by decide, rfl⟩
  have hspaced : Spaces ['1', '0'] ['n', 's'] " 10 ns\n" :=
    ⟨hnumber, hunit, [' '], [' '], ['\n'], by decide, by decide, by decide, rfl⟩
  exact ⟨hplain, hspaced, (period_by_grammar picosecond "10ns").2.2.2.2 _ _ _ hplain hspaced⟩

example : (Timebase.picosecond.period "2.5 GHz").toOption.map Period.factor = some 400 := by
  decide +kernel

end Lookahead
