import LuaRuntime.Proofs.Number.Nearest
import LuaRuntime.Proofs.Number.NumeralGrammar

/-!
# Numbers read back from their texts

The text of a finite number is a numeral: that of its integer part if the number is an integer of at
most fourteen digits, and the one of the general layout otherwise.  Reading a numeral gives the
nearest double to its value (`parse?_nearest`).  An integer is its own nearest double, so it comes
back as it was, negative zero too.  Any other number comes back as the nearest double to itself
rounded to fourteen significant digits.

Rounding moves the greatest double down, and so no text of a finite number is read as an infinity
(`significant_le_greatest`).  The exponents of such texts have three digits at most, which is far
below the bound where reading an exponent stops.
-/

namespace LuaRuntime

namespace Double

open Decimal Decimal.Literal

/-! ## The greatest double -/

theorem unitsOf_le_greatest {x : Double} (h : x.isFinite = true) :
    unitsOf x.magnitude ≤ unitsOf greatestMagnitude := by
  rw [isFinite, decide_eq_true_iff, lt_infinityBits_iff] at h
  exact unitsOf_strictMono.monotone h

/-- The first fourteen digits of the greatest double, which the next digit does not round up. -/
def greatestDigits : ℕ := 17976931348623

theorem greatestDigits_le :
    greatestDigits * 10 ^ 295 * unitsPerOne ≤ unitsOf greatestMagnitude := by
  decide +kernel

theorem lt_greatestDigits :
    unitsOf greatestMagnitude * 2 < (greatestDigits * 2 + 1) * 10 ^ 295 * unitsPerOne := by
  decide +kernel

/-- Rounded to fourteen digits, a number no greater than a limit stays so, if the limit itself does:
`unit` is the weight of the last digit, and `weight` that of the fourteenth digit of the limit. -/
theorem rounded_le {q limit unit weight : ℚ} {significand : ℕ} (hq : q ≤ limit) (hunit : 0 < unit)
    (hlow : greatestDigits * weight ≤ limit) (hhigh : limit * 2 < (greatestDigits * 2 + 1) * weight)
    (hcases : unit * 10 ≤ weight ∨ unit = weight ∨ weight * 10 ≤ unit)
    (hleast : 10 ^ 13 ≤ significand) (hmost : significand < 10 ^ 14)
    (hnearest : NearestEven (q / unit) significand) : significand * unit ≤ limit := by
  have hdigits : (10 : ℚ) ^ 13 ≤ greatestDigits := by norm_num [greatestDigits]
  rcases hcases with hless | rfl | hmore
  · have hmostQ : (significand : ℚ) ≤ 10 ^ 14 := by exact_mod_cast hmost.le
    calc significand * unit ≤ 10 ^ 14 * unit := mul_le_mul_of_nonneg_right hmostQ hunit.le
      _ = 10 ^ 13 * (unit * 10) := by ring
      _ ≤ 10 ^ 13 * weight := mul_le_mul_of_nonneg_left hless (by positivity)
      _ ≤ greatestDigits * weight := mul_le_mul_of_nonneg_right hdigits (by linarith)
      _ ≤ limit := hlow
  · have hlt : q / unit * 2 < ((greatestDigits : ℕ) : ℤ) * 2 + 1 := by
      rw [div_mul_eq_mul_div, div_lt_iff₀ hunit, Int.cast_natCast]
      linarith
    have hbound : (significand : ℚ) ≤ greatestDigits := by exact_mod_cast hnearest.le_of_lt hlt
    calc significand * unit ≤ greatestDigits * unit := mul_le_mul_of_nonneg_right hbound hunit.le
      _ ≤ limit := hlow
  · -- The number would be rounded to fewer digits.
    have hless : (greatestDigits * 2 + 1) * weight ≤ (2 * 10 ^ 13 - 1) * (weight * 10) := by
      rw [greatestDigits]
      push_cast
      linarith
    have hlt : q / unit * 2 < ((10 ^ 13 - 1 : ℕ) : ℤ) * 2 + 1 := by
      rw [div_mul_eq_mul_div, div_lt_iff₀ hunit]
      push_cast
      linarith
    have hfew := hnearest.le_of_lt hlt
    omega

theorem weight_cases (power : ℤ) :
    (10 : ℚ) ^ (power - 13) * 10 ≤ 10 ^ 295 ∨ (10 : ℚ) ^ (power - 13) = 10 ^ 295 ∨
      (10 : ℚ) ^ 295 * 10 ≤ 10 ^ (power - 13) := by
  have hten : (10 : ℚ) ≠ 0 := by norm_num
  rw [← zpow_natCast, ← zpow_add_one₀ hten, ← zpow_add_one₀ hten]
  rcases lt_trichotomy power 308 with hless | rfl | hmore
  · exact .inl (zpow_le_zpow_right₀ (by norm_num) (by push_cast; omega))
  · exact .inr (.inl rfl)
  · exact .inr (.inr (zpow_le_zpow_right₀ (by norm_num) (by push_cast; omega)))

theorem valueOf_le {units limit : ℕ} (h : units ≤ limit) : valueOf units ≤ valueOf limit :=
  div_le_div_of_nonneg_right (Nat.cast_le.mpr h) cast_unitsPerOne_pos.le

/-- No double rounds to a number greater than all doubles. -/
theorem significant_le_greatest {units : ℕ} (h : units ≤ unitsOf greatestMagnitude) :
    (significant 13 units).1 * 10 ^ ((significant 13 units).2 - 13)
      ≤ valueOf (unitsOf greatestMagnitude) := by
  have hone := cast_unitsPerOne_pos
  rcases Nat.eq_zero_or_pos units with rfl | hpos
  · rw [significant_zero, Nat.cast_zero, zero_mul]
    exact valueOf_zero ▸ valueOf_le h
  · have hlow : (greatestDigits * 10 ^ 295 : ℚ) ≤ valueOf (unitsOf greatestMagnitude) := by
      rw [valueOf, le_div_iff₀ hone]
      exact_mod_cast greatestDigits_le
    have hhigh : valueOf (unitsOf greatestMagnitude) * 2
        < (greatestDigits * 2 + 1) * 10 ^ 295 := by
      rw [valueOf, div_mul_eq_mul_div, div_lt_iff₀ hone]
      exact_mod_cast lt_greatestDigits
    have hspec := significant_spec 13 hpos
    exact rounded_le (valueOf_le h) (ten_zpow_pos _) hlow hhigh (weight_cases _) hspec.low
      hspec.high hspec.nearest

theorem greatest_lt : valueOf (unitsOf greatestMagnitude) < 10 ^ (401 : ℤ) := by
  rw [valueOf, div_lt_iff₀ cast_unitsPerOne_pos]
  exact greatest_lt_units (zpow_natCast 10 401).ge

theorem le_valueOf {units : ℕ} (h : 0 < units) : 10 ^ (-400 : ℤ) ≤ valueOf units := by
  have hunits : (1 : ℚ) ≤ units := by exact_mod_cast h
  have hhalf := units_le_half (le_refl ((10 : ℚ) ^ (-400 : ℤ)))
  rw [valueOf, le_div_iff₀ cast_unitsPerOne_pos]
  linarith

theorem power_lt {units : ℕ} (hpos : 0 < units) (h : units ≤ unitsOf greatestMagnitude) :
    (significant 13 units).2 < 401 := by
  have hspec := significant_spec 13 hpos
  have hleast : (10 : ℚ) ^ (13 : ℤ) ≤ (significant 13 units).1 := by exact_mod_cast hspec.low
  rw [← zpow_lt_zpow_iff_right₀ (by norm_num : (1 : ℚ) < 10)]
  calc (10 : ℚ) ^ (significant 13 units).2
      = 10 ^ (13 : ℤ) * 10 ^ ((significant 13 units).2 - 13) := by
        rw [← zpow_add₀ (by norm_num), add_sub_cancel]
    _ ≤ (significant 13 units).1 * 10 ^ ((significant 13 units).2 - 13) :=
        mul_le_mul_of_nonneg_right hleast (ten_zpow_pos _).le
    _ ≤ valueOf (unitsOf greatestMagnitude) := significant_le_greatest h
    _ < 10 ^ (401 : ℤ) := greatest_lt

theorem lt_power {units : ℕ} (hpos : 0 < units) : -402 < (significant 13 units).2 := by
  have hspec := significant_spec 13 hpos
  have hmost : ((significant 13 units).1 : ℚ) < 10 ^ 14 := by exact_mod_cast hspec.high
  have hnear := (abs_le.mp hspec.nearest.near).2
  rw [Int.cast_natCast] at hnear
  have hquotient : valueOf units / 10 ^ ((significant 13 units).2 - 13) < 10 ^ (15 : ℤ) := by
    have hmore : (10 : ℚ) ^ 14 + 1 / 2 < 10 ^ (15 : ℤ) := by norm_num
    linarith
  have hpower : (10 : ℚ) ^ (-400 : ℤ) < 10 ^ (15 + ((significant 13 units).2 - 13)) := by
    rw [zpow_add₀ (by norm_num)]
    exact (le_valueOf hpos).trans_lt ((div_lt_iff₀ (ten_zpow_pos _)).mp hquotient)
  rw [zpow_lt_zpow_iff_right₀ (by norm_num)] at hpower
  omega

/-- The exponent of a double has at most three digits, also after rounding. -/
theorem natAbs_power_lt {units : ℕ} (h : units ≤ unitsOf greatestMagnitude) :
    (significant 13 units).2.natAbs < Numeral.exponentBound := by
  rcases Nat.eq_zero_or_pos units with rfl | hpos
  · decide
  · have hhigh := power_lt hpos h
    have hlow := lt_power hpos
    rw [Numeral.exponentBound]
    omega

/-! ## Reading numerals -/

theorem signed_ofMagnitude (negative : Bool) {m : ℕ} (h : m < 2 ^ 63) :
    Numeral.signed negative (ofMagnitude false m) = ofMagnitude negative m := by
  cases negative with
  | false => rfl
  | true =>
    show ofMagnitude (!(ofMagnitude false m).isNegative) (ofMagnitude false m).magnitude = _
    rw [isNegative_ofMagnitude _ h, magnitude_ofMagnitude _ h]
    rfl

/-- A numeral whose value is no greater than the greatest double is read as the nearest one. -/
theorem parse?_nearest {l : Literal} (hwell : l.WellFormed)
    (hbound : ∀ m, l.mark = some m → Nat.ofDigitChars 10 m.digits 0 < Numeral.exponentBound)
    (hle : l.magnitude ≤ valueOf (unitsOf greatestMagnitude)) :
    ∃ m ≤ greatestMagnitude,
      Numeral.parse? (String.ofList l.text) = some (ofMagnitude l.negative m) ∧
        NearestMagnitude (l.magnitude * unitsPerOne) m := by
  rw [valueOf, le_div_iff₀ cast_unitsPerOne_pos] at hle
  obtain ⟨m, hm, hdecimal, hnearest⟩ := ofDecimal_nearest hle
  refine ⟨m, hm, ?_, hnearest⟩
  rw [Numeral.parse?_literal hwell hbound, hdecimal, signed_ofMagnitude _ (hm.trans_lt (by decide))]

/-! ## Integers -/

/-- An integer of at most fourteen digits. -/
def IsShortInteger (x : Double) : Prop :=
  x.isFinite = true ∧ ∃ i : ℤ, x.value = i ∧ |i| < 10 ^ 14

theorem unitsOf_of_value_eq {x : Double} {i : ℤ} (h : x.value = i) :
    unitsOf x.magnitude = i.natAbs * unitsPerOne := by
  have habs := abs_value x
  rw [h, valueOf, eq_div_iff cast_unitsPerOne_pos.ne', ← Int.cast_abs, Int.abs_eq_natAbs] at habs
  exact_mod_cast habs.symm

theorem value_of_unitsOf_eq {x : Double} {n : ℕ} (h : unitsOf x.magnitude = n * unitsPerOne) :
    x.value = if x.isNegative then -(n : ℚ) else n := by
  rw [value, h, valueOf, Nat.cast_mul, mul_div_cancel_right₀ _ cast_unitsPerOne_pos.ne']

theorem isShortInteger_iff (x : Double) :
    x.IsShortInteger ↔ x.isIntegral = true ∧ wholeOf x.magnitude < integerTextLimit := by
  have hlimit : integerTextLimit = 10 ^ 14 := rfl
  rw [isIntegral, Bool.and_eq_true, hlimit]
  constructor
  · rintro ⟨hfinite, i, hvalue, hlt⟩
    have hunits := unitsOf_of_value_eq hvalue
    have hwhole : wholeOf x.magnitude = i.natAbs := by
      rw [wholeOf_eq_div, hunits, Nat.mul_div_cancel _ unitsPerOne_pos]
    refine ⟨⟨hfinite, (isWhole_iff_dvd _).mpr (hunits ▸ Nat.dvd_mul_left _ _)⟩, ?_⟩
    rw [hwhole]
    rw [Int.abs_eq_natAbs] at hlt
    exact_mod_cast hlt
  · rintro ⟨⟨hfinite, hwhole⟩, hlt⟩
    have hvalue := value_of_unitsOf_eq (unitsOf_of_isWhole hwhole)
    refine ⟨hfinite, ?_⟩
    cases hnegative : x.isNegative with
    | true =>
      refine ⟨-(wholeOf x.magnitude : ℤ), ?_, ?_⟩
      · rw [hvalue, hnegative, if_pos rfl, Int.cast_neg, Int.cast_natCast]
      · rw [abs_neg, Nat.abs_cast]
        exact_mod_cast hlt
    | false =>
      refine ⟨wholeOf x.magnitude, ?_, ?_⟩
      · rw [hvalue, hnegative, if_neg (by decide), Int.cast_natCast]
      · rw [Nat.abs_cast]
        exact_mod_cast hlt

/-- The numeral of the integer part of a double. -/
def wholeLiteral (x : Double) : Literal := ⟨x.isNegative, digits (wholeOf x.magnitude), none, none⟩

theorem wellFormed_wholeLiteral (x : Double) : (wholeLiteral x).WellFormed where
  whole_ne_nil := Format.digits_ne_nil _
  whole _ hc := Format.isDigit_of_mem_digits hc
  places := nofun
  mark := nofun

theorem magnitude_wholeLiteral (x : Double) :
    (wholeLiteral x).magnitude = wholeOf x.magnitude := by
  have hplaces : (wholeLiteral x).places = [] := rfl
  have hpower : (wholeLiteral x).power = 0 := rfl
  rw [Literal.magnitude, hplaces, hpower, List.append_nil, List.length_nil, Nat.cast_zero, sub_zero,
    zpow_zero, mul_one, wholeLiteral, digits_eq_toDigits, Nat.ofDigitChars_ten_toDigits]

theorem numberText_of_isShortInteger {x : Double} (h : x.IsShortInteger) :
    numberText x = String.ofList (wholeLiteral x).text := by
  obtain ⟨hintegral, hlt⟩ := (isShortInteger_iff x).mp h
  have htext : (wholeLiteral x).text =
      (if x.isNegative then ['-'] else []) ++ (digits (wholeOf x.magnitude) ++ ([] ++ [])) := rfl
  rw [numberText, hintegral, decide_eq_true hlt, Bool.and_self, if_pos rfl, htext, List.append_nil,
    List.append_nil]

theorem numberText_of_not_isShortInteger {x : Double} (h : ¬ x.IsShortInteger) :
    numberText x = generalText 14 false false x := by
  rw [isShortInteger_iff] at h
  rw [numberText, if_neg]
  rwa [Bool.and_eq_true, decide_eq_true_iff]

/-- An integer of at most fourteen digits is read back as it was. -/
theorem parse?_integer {x : Double} (h : x.IsShortInteger) :
    Numeral.parse? (numberText x) = some x := by
  obtain ⟨hintegral, -⟩ := (isShortInteger_iff x).mp h
  rw [isIntegral, Bool.and_eq_true] at hintegral
  have hunits := unitsOf_of_isWhole hintegral.2
  have hmagnitude : (wholeLiteral x).magnitude * unitsPerOne = unitsOf x.magnitude := by
    rw [magnitude_wholeLiteral, hunits, Nat.cast_mul]
  have hle : (wholeLiteral x).magnitude ≤ valueOf (unitsOf greatestMagnitude) := by
    rw [valueOf, le_div_iff₀ cast_unitsPerOne_pos, hmagnitude]
    exact_mod_cast unitsOf_le_greatest h.1
  have hbound : ∀ m, (wholeLiteral x).mark = some m →
      Nat.ofDigitChars 10 m.digits 0 < Numeral.exponentBound := by
    intro m hm
    cases hm
  obtain ⟨m, hm, hparse, hnearest⟩ := parse?_nearest (wellFormed_wholeLiteral x) hbound hle
  rw [hmagnitude] at hnearest
  rw [numberText_of_isShortInteger h, hparse, hnearest.eq]
  have hlt := magnitude_lt x
  exact congrArg some (eq_of_magnitude_eq (isNegative_ofMagnitude _ hlt)
    (magnitude_ofMagnitude _ hlt))

/-! ## Other numbers -/

/-- The exponent part of the text of a number. -/
theorem mark_shownLiteral {x : Double} {m : Decimal.Mark}
    (h : (shownLiteral 13 false false x).mark = some m) : m = markOf false (roundedPower 13 x) := by
  have hmark : (shownLiteral 13 false false x).mark
      = (generalLiteral x.isNegative 13 false (unitsOf x.magnitude)).mark := rfl
  rw [hmark, generalLiteral] at h
  split at h
  · exact (Option.some.inj h).symm
  · cases h

theorem magnitude_shownLiteral (x : Double) :
    (shownLiteral 13 false false x).magnitude
      = (significant 13 (unitsOf x.magnitude)).1 *
          10 ^ ((significant 13 (unitsOf x.magnitude)).2 - 13) :=
  calc (shownLiteral 13 false false x).magnitude
      = (keptLiteral 13 false x).magnitude := (trimmedFrom_trim _).magnitude_eq
    _ = (fullLiteral 13 false x).magnitude := magnitude_generalLiteral _ _ _ _
    _ = _ := magnitude_exponentLiteral _ _ _ _

/-- Any other finite number is read back as the nearest double to itself rounded. -/
theorem parse?_rounded {x : Double} (hfinite : x.isFinite = true) (h : ¬ x.IsShortInteger) :
    ∃ r y, Numeral.parse? (numberText x) = some y ∧ RoundsTo 14 x.value r ∧ NearestDouble r y ∧
      y.isNegative = x.isNegative := by
  have hnegative : (shownLiteral 13 false false x).negative = x.isNegative :=
    negative_generalLiteral x.isNegative false 13 (unitsOf x.magnitude)
  have hunits := unitsOf_le_greatest hfinite
  have hbound : ∀ m, (shownLiteral 13 false false x).mark = some m →
      Nat.ofDigitChars 10 m.digits 0 < Numeral.exponentBound := by
    intro m hm
    rw [mark_shownLiteral hm, markOf, ofDigitChars_padded]
    exact natAbs_power_lt hunits
  have hle := significant_le_greatest hunits
  rw [← magnitude_shownLiteral] at hle
  obtain ⟨m, hm, hparse, hnearest⟩ :=
    parse?_nearest (wellFormed_shownLiteral 13 false false) hbound hle
  rw [hnegative] at hparse
  have hpos : 0 ≤ (shownLiteral 13 false false x).magnitude := by
    rw [magnitude_shownLiteral]
    exact mul_nonneg (Nat.cast_nonneg _) (ten_zpow_pos _).le
  refine ⟨(shownLiteral 13 false false x).value, ofMagnitude x.isNegative m, ?_, ?_, ?_, ?_⟩
  · rw [numberText_of_not_isShortInteger h, generalText_eq 13 false hfinite rfl, hparse]
  · rw [value_shownLiteral]
    exact roundsTo_fullLiteral 13 false
  · have hdouble := hnearest.nearestDouble hpos hm x.isNegative
    rw [Literal.value, hnegative]
    exact hdouble
  · exact isNegative_ofMagnitude _ (hm.trans_lt (by decide))

/-! ## Infinities and what is no number -/

theorem isFinite_of_exact {x : Double} {negative : Bool} {units : ℕ}
    (h : exact x = .finite negative units) : x.isFinite = true := by
  rw [exact] at h
  split_ifs at h with hnan hinfinite
  rw [isNaN_iff] at hnan
  rw [isInfinite, beq_iff_eq] at hinfinite
  rw [isFinite, decide_eq_true_iff]
  omega

/-- The text of a double that is not finite is no numeral. -/
theorem parse?_of_not_isFinite {x : Double} (h : ¬ x.isFinite = true) :
    Numeral.parse? (numberText x) = none := by
  rw [numberText_of_not_isShortInteger fun hinteger => h hinteger.1, generalText, render]
  cases hx : exact x with
  | nan => decide +kernel
  | infinite negative => cases negative <;> decide +kernel
  | finite negative units => exact absurd (isFinite_of_exact hx) h

/-! ## Reading back -/

/-- What a number is read back as from its text. -/
structure ReadsBack (x : Double) : Prop where
  isSome_iff : (Numeral.parse? (numberText x)).isSome = true ↔ x.isFinite = true
  /-- An integer of at most fourteen digits comes back as it was. -/
  integer : x.IsShortInteger → Numeral.parse? (numberText x) = some x
  /-- Any other finite number comes back as the nearest double to itself rounded, with its sign. -/
  rounded : x.isFinite = true → ¬ x.IsShortInteger →
    ∃ r y, Numeral.parse? (numberText x) = some y ∧ RoundsTo 14 x.value r ∧ NearestDouble r y ∧
      y.isNegative = x.isNegative

/-- Numerals are read by their grammar, and every finite number is read back from its text. -/
theorem number_text_reads_back :
    (∀ text : String,
      (Numeral.parse? text).isSome = true ↔ Numeral.Spells text.toList) ∧
    ∀ x : Double, x.ReadsBack := by
  refine ⟨Numeral.isSome_parse?, fun x => ?_⟩
  constructor
  case integer => exact parse?_integer
  case rounded => exact parse?_rounded
  case isSome_iff =>
    constructor
    · intro hsome
      by_contra hfinite
      rw [parse?_of_not_isFinite hfinite] at hsome
      cases hsome
    · intro hfinite
      by_cases hinteger : x.IsShortInteger
      · rw [parse?_integer hinteger]
        rfl
      · obtain ⟨r, y, hparse, -⟩ := parse?_rounded hfinite hinteger
        rw [hparse]
        rfl

/-- The greatest double comes back as a lesser one, and negative zero as itself. -/
theorem greatest_and_negativeZero_read_back :
    (numberText ⟨0x7fefffffffffffff⟩ = "1.7976931348623e+308" ∧
      numberText ⟨0x8000000000000000⟩ = "-0") ∧
    (∃ r y, Numeral.parse? (numberText ⟨0x7fefffffffffffff⟩) = some y ∧
      RoundsTo 14 (value ⟨0x7fefffffffffffff⟩) r ∧ NearestDouble r y ∧ y.isNegative = false) ∧
    Numeral.parse? (numberText ⟨0x8000000000000000⟩) = some ⟨0x8000000000000000⟩ :=
  ⟨by decide +kernel,
    (number_text_reads_back.2 ⟨0x7fefffffffffffff⟩).rounded (by decide +kernel)
      (by rw [isShortInteger_iff]; decide +kernel),
    (number_text_reads_back.2 ⟨0x8000000000000000⟩).integer
      (by rw [isShortInteger_iff]; decide +kernel)⟩

end Double

end LuaRuntime
