import LuaRuntime.Proofs.Number.Literal
import LuaRuntime.Proofs.Number.Rounding
import Mathlib.Tactic.NormNum

/-!
# The general layout

The exponent layout and the fixed one are numerals (`exponentLiteral`, `fixedLiteral`), each with
the value its rounding gave.  In the general layout both have one value: the fixed layout is taken
only if the exponent after rounding leaves the last significant digit at the point or behind it, and
then it rounds at the same digit (`scaled_eq_significand`).  Taking zeros off a body is trimming its
numeral (`stripZeros_body`), which keeps the value, the digits before the point and the exponent.
`general_layout_shows_rounded` puts this together for every finite double.
-/

namespace LuaRuntime

namespace Decimal

open Literal

/-! ## Padded digits -/

/-- The digits of a number, with zeros in front up to a length. -/
def padded (count n : ℕ) : List Char := (digits n).leftpad count '0'

theorem isDigit_of_mem_padded {count n : ℕ} {c : Char} (h : c ∈ padded count n) :
    c.isDigit = true := by
  rcases List.mem_append.mp h with hzero | hdigit
  · rw [List.eq_of_mem_replicate hzero]
    rfl
  · exact Format.isDigit_of_mem_digits hdigit

theorem ofDigitChars_padded (count n : ℕ) : Nat.ofDigitChars 10 (padded count n) 0 = n := by
  rw [padded, List.leftpad, Nat.ofDigitChars_append, Nat.ofDigitChars_replicate_zero,
    Nat.mul_zero, digits_eq_toDigits, Nat.ofDigitChars_ten_toDigits]

theorem length_padded (count n : ℕ) : (padded count n).length = max count (digits n).length :=
  List.length_leftpad

theorem padded_ne_nil (count n : ℕ) : padded count n ≠ [] := by
  simp [padded, List.leftpad, Format.digits_ne_nil]

theorem length_padded_of_lt {count n : ℕ} (h : n < 10 ^ (count + 1)) :
    (padded (count + 1) n).length = count + 1 := by
  rw [length_padded, digits_eq_toDigits]
  exact max_eq_left ((Nat.length_toDigits_le_iff (by norm_num) (Nat.succ_pos _)).mpr h)

/-! ## Numerals of the layouts -/

/-- The numeral with a point behind some of its digits, if there are more. -/
def splitLiteral (negative : Bool) (digits : List Char) (whole : ℕ) (mark : Option Mark) :
    Literal :=
  ⟨negative, digits.take whole, pointed (digits.drop whole), mark⟩

/-- The text of a numeral without its sign and its exponent part. -/
def Literal.body (l : Literal) : List Char := l.whole ++ fraction l.places

/-- A numeral has a point only before digits. -/
def Literal.Pointed (l : Literal) : Prop := l.decimals = pointed l.places

theorem decimalsText_pointed (places : List Char) :
    decimalsText (pointed places) = fraction places := by
  cases places <;> rfl

theorem text_eq_body {l : Literal} (h : l.Pointed) :
    l.text = (if l.negative then ['-'] else []) ++ (l.body ++ markText l.mark) := by
  rw [text, h, decimalsText_pointed, body, List.append_assoc]

section

variable {negative : Bool} {digits : List Char} {whole : ℕ} {mark : Option Mark}

theorem places_splitLiteral :
    (splitLiteral negative digits whole mark).places = digits.drop whole := getD_pointed _

theorem pointed_splitLiteral : (splitLiteral negative digits whole mark).Pointed :=
  congrArg pointed places_splitLiteral.symm

theorem magnitude_splitLiteral :
    (splitLiteral negative digits whole mark).magnitude
      = Nat.ofDigitChars 10 digits 0 *
          10 ^ ((splitLiteral negative digits whole mark).power - (digits.length - whole : ℕ)) := by
  rw [magnitude, places_splitLiteral, List.length_drop]
  simp only [splitLiteral, List.take_append_drop]

theorem wellFormed_splitLiteral (hwhole : digits.take whole ≠ [])
    (hdigits : ∀ c ∈ digits, c.isDigit = true)
    (hmark : ∀ m, mark = some m → m.digits ≠ [] ∧ ∀ c ∈ m.digits, c.isDigit = true) :
    (splitLiteral negative digits whole mark).WellFormed where
  whole_ne_nil := hwhole
  whole c hc := hdigits c (List.mem_of_mem_take hc)
  places c hc := by
    rw [places_splitLiteral] at hc
    exact hdigits c (List.mem_of_mem_drop hc)
  mark := hmark

end

/-- The exponent part of a power of ten. -/
def markOf (upper : Bool) (power : ℤ) : Mark := ⟨upper, power < 0, padded 2 power.natAbs⟩

theorem text_markOf (upper : Bool) (power : ℤ) :
    (markOf upper power).text = exponentMark upper power := by
  by_cases h : power < 0 <;> cases upper <;> simp [markOf, Mark.text, exponentMark, padded, h]

theorem power_markOf (upper : Bool) (power : ℤ) : (markOf upper power).power = power := by
  simp only [markOf, Mark.power, ofDigitChars_padded, decide_eq_true_eq]
  split <;> omega

/-- The numeral of the exponent layout. -/
def exponentLiteral (negative : Bool) (decimals : ℕ) (upper : Bool) (units : ℕ) : Literal :=
  splitLiteral negative (padded (decimals + 1) (significant decimals units).1) 1
    (some (markOf upper (significant decimals units).2))

/-- The numeral of the fixed layout. -/
def fixedLiteral (negative : Bool) (decimals units : ℕ) : Literal :=
  let digits := padded (decimals + 1) (scaled decimals units)
  splitLiteral negative digits (digits.length - decimals) none

section

variable (negative upper : Bool) (decimals units : ℕ)

theorem wellFormed_exponentLiteral :
    (exponentLiteral negative decimals upper units).WellFormed := by
  refine wellFormed_splitLiteral ?_ (fun c hc => isDigit_of_mem_padded hc) ?_
  · simp [padded_ne_nil]
  · intro _ heq
    obtain rfl := Option.some.inj heq
    exact ⟨padded_ne_nil _ _, fun c hc => isDigit_of_mem_padded hc⟩

theorem exponential_fst :
    (exponential decimals upper units).1
      = (exponentLiteral negative decimals upper units).body := by
  rw [body, exponentLiteral, places_splitLiteral]
  rfl

theorem exponential_snd :
    (exponential decimals upper units).2
      = markText (exponentLiteral negative decimals upper units).mark :=
  (text_markOf upper _).symm

theorem power_exponentLiteral :
    (exponentLiteral negative decimals upper units).power = (significant decimals units).2 :=
  power_markOf _ _

theorem magnitude_exponentLiteral :
    (exponentLiteral negative decimals upper units).magnitude
      = (significant decimals units).1 * 10 ^ ((significant decimals units).2 - decimals) := by
  have hpower := power_exponentLiteral negative upper decimals units
  rw [exponentLiteral] at hpower ⊢
  rw [magnitude_splitLiteral, hpower, ofDigitChars_padded,
    length_padded_of_lt (significand_lt decimals units), Nat.add_sub_cancel]

theorem length_fixed : decimals < (padded (decimals + 1) (scaled decimals units)).length := by
  rw [length_padded]
  exact Nat.lt_of_lt_of_le (Nat.lt_succ_self _) (Nat.le_max_left _ _)

theorem wellFormed_fixedLiteral : (fixedLiteral negative decimals units).WellFormed := by
  have hlength := length_fixed decimals units
  refine wellFormed_splitLiteral ?_ (fun c hc => isDigit_of_mem_padded hc) nofun
  simp only [ne_eq, List.take_eq_nil_iff, padded_ne_nil, or_false]
  omega

theorem fixed_eq : fixed decimals units = (fixedLiteral negative decimals units).body := by
  rw [body, fixedLiteral, places_splitLiteral]
  rfl

theorem magnitude_fixedLiteral :
    (fixedLiteral negative decimals units).magnitude
      = scaled decimals units * 10 ^ (-(decimals : ℤ)) := by
  have hlength := length_fixed decimals units
  have hpower : (fixedLiteral negative decimals units).power = 0 := rfl
  rw [fixedLiteral] at hpower ⊢
  rw [magnitude_splitLiteral, hpower, ofDigitChars_padded, Nat.sub_sub_self hlength.le, zero_sub]

end

/-! ## Trimming -/

theorem wellFormed_trim {l : Literal} (h : l.WellFormed) : l.trim.WellFormed where
  whole_ne_nil := h.whole_ne_nil
  whole := h.whole
  places c hc := by
    rw [places_trim] at hc
    exact h.places c ((List.rdropWhile_prefix _ _).subset hc)
  mark := h.mark

theorem pointed_trim (l : Literal) : l.trim.Pointed := congrArg pointed (places_trim l).symm

/-- A digit ends what may be dropped up to the point. -/
theorem dropWhile_point {digits : List Char} (rest : List Char) (hne : digits ≠ [])
    (hdigits : ∀ c ∈ digits, c.isDigit = true) :
    (digits ++ rest).dropWhile (· == '.') = digits ++ rest := by
  cases digits with
  | nil => exact absurd rfl hne
  | cons c digits =>
    have hpoint : c ≠ '.' := by
      rintro rfl
      exact absurd (hdigits '.' List.mem_cons_self) (by decide)
    simp [hpoint]

/-- Taking the zeros off a body is trimming its numeral. -/
theorem stripZeros_body {l : Literal} (h : l.WellFormed) : stripZeros l.body = l.trim.body := by
  have hwhole : '.' ∉ l.whole := fun hmem => absurd (h.whole '.' hmem) (by decide)
  show _ = l.whole ++ fraction l.trim.places
  rw [places_trim, body, stripZeros]
  by_cases hplaces : l.places = []
  · simp [hplaces, fraction, hwhole]
  · have hkept : l.places.reverse.dropWhile (· == '0')
        = (l.places.rdropWhile (· == '0')).reverse := (List.reverse_reverse _).symm
    have hbody : l.whole ++ fraction l.places = l.whole ++ '.' :: l.places := by
      simp [fraction, hplaces]
    rw [hbody, if_pos (by simp), List.reverse_append, List.reverse_cons, List.append_assoc,
      List.dropWhile_append, hkept]
    by_cases hnil : l.places.rdropWhile (· == '0') = []
    · -- All decimals are zeros, so the point goes too.
      have hstop := dropWhile_point [] (by simpa using h.whole_ne_nil)
        (fun c hc => h.whole c (List.mem_reverse.mp hc))
      rw [List.append_nil] at hstop
      simp [hnil, fraction, hstop]
    · have hstop := dropWhile_point ('.' :: l.whole.reverse) (List.reverse_ne_nil_iff.mpr hnil)
        (fun c hc => (wellFormed_trim h).places c
          (by rw [places_trim]; exact List.mem_reverse.mp hc))
      simp only [List.isEmpty_reverse, List.isEmpty_iff, hnil, if_false, List.singleton_append,
        hstop]
      simp [fraction, hnil]

/-! ## The numeral of the general layout -/

/-- The exponent after rounding asks for the exponent layout. -/
def TakesExponent (decimals units : ℕ) : Prop :=
  (significant decimals units).2 < -4 ∨ ((decimals + 1 : ℕ) : ℤ) ≤ (significant decimals units).2

instance (decimals units : ℕ) : Decidable (TakesExponent decimals units) :=
  inferInstanceAs (Decidable (_ ∨ _))

/-- The numeral of the general layout with `decimals + 1` significant digits and all its zeros. -/
def generalLiteral (negative : Bool) (decimals : ℕ) (upper : Bool) (units : ℕ) : Literal :=
  if TakesExponent decimals units then exponentLiteral negative decimals upper units
  else fixedLiteral negative (decimals - (significant decimals units).2).toNat units

section

variable (negative upper : Bool) (decimals units : ℕ)

theorem negative_generalLiteral :
    (generalLiteral negative decimals upper units).negative = negative := by
  rw [generalLiteral]
  split <;> rfl

theorem wellFormed_generalLiteral : (generalLiteral negative decimals upper units).WellFormed := by
  rw [generalLiteral]
  split
  · exact wellFormed_exponentLiteral negative upper decimals units
  · exact wellFormed_fixedLiteral negative _ units

theorem pointed_generalLiteral : (generalLiteral negative decimals upper units).Pointed := by
  rw [generalLiteral]
  split <;> exact pointed_splitLiteral

theorem isSome_mark_generalLiteral :
    (generalLiteral negative decimals upper units).mark.isSome = true
      ↔ TakesExponent decimals units := by
  rw [generalLiteral]
  split
  · next h => exact iff_of_true rfl h
  · next h => exact iff_of_false nofun h

/-- Both layouts show the same digits, at the same places. -/
theorem magnitude_generalLiteral :
    (generalLiteral negative decimals upper units).magnitude
      = (exponentLiteral negative decimals upper units).magnitude := by
  rw [generalLiteral]
  split
  · rfl
  · next hfixed =>
    have hle : (significant decimals units).2 ≤ decimals := by
      rw [TakesExponent] at hfixed
      omega
    have hpower : -(((decimals - (significant decimals units).2).toNat : ℕ) : ℤ)
        = (significant decimals units).2 - decimals := by omega
    rw [magnitude_fixedLiteral, magnitude_exponentLiteral, scaled_eq_significand decimals units hle,
      hpower]

theorem general_eq {precision : ℕ} (h : max precision 1 = decimals + 1) (alternate : Bool) :
    general precision upper alternate units
      = (if alternate then (generalLiteral negative decimals upper units).body
          else (generalLiteral negative decimals upper units).trim.body)
        ++ markText (generalLiteral negative decimals upper units).mark := by
  rw [← stripZeros_body (wellFormed_generalLiteral negative upper decimals units), general, h,
    generalLiteral]
  have hcount : ((decimals + 1 : ℕ) : ℤ) - 1 = decimals := by omega
  simp only [Nat.add_sub_cancel, hcount]
  by_cases hstyle : TakesExponent decimals units
  · rw [if_pos hstyle, ← exponential_fst, ← exponential_snd]
    rw [TakesExponent] at hstyle
    simp only [if_pos hstyle]
  · rw [if_neg hstyle, ← fixed_eq negative]
    rw [TakesExponent] at hstyle
    simp only [if_neg hstyle]
    rfl

end

end Decimal

/-! ## Doubles -/

namespace Double

open Decimal Decimal.Literal

/-- The number that a finite double stands for. -/
def value (x : Double) : ℚ :=
  if x.isNegative then -valueOf (unitsOf x.magnitude) else valueOf (unitsOf x.magnitude)

/-- The exponent of a double rounded to `decimals + 1` significant digits. -/
def roundedPower (decimals : ℕ) (x : Double) : ℤ := (significant decimals (unitsOf x.magnitude)).2

/-- The numeral of a double in the exponent layout. -/
def fullLiteral (decimals : ℕ) (upper : Bool) (x : Double) : Literal :=
  exponentLiteral x.isNegative decimals upper (unitsOf x.magnitude)

/-- The numeral of a double in the general layout, with all its zeros. -/
def keptLiteral (decimals : ℕ) (upper : Bool) (x : Double) : Literal :=
  generalLiteral x.isNegative decimals upper (unitsOf x.magnitude)

/-- The numeral of a double in the general layout. -/
def shownLiteral (decimals : ℕ) (upper alternate : Bool) (x : Double) : Literal :=
  if alternate then keptLiteral decimals upper x else (keptLiteral decimals upper x).trim

theorem render_of_isFinite {x : Double} (h : x.isFinite = true) (upper : Bool)
    (magnitude : ℕ → List Char) :
    render upper magnitude x = String.ofList
      ((if x.isNegative then ['-'] else []) ++ magnitude (unitsOf x.magnitude)) := by
  rw [isFinite, decide_eq_true_iff] at h
  have hexact : exact x = .finite x.isNegative (unitsOf x.magnitude) := by
    simp [exact, isNaN, isInfinite, h.ne, h.le]
  simp only [render, hexact]

/-- The numeral that a finite double is written as. -/
theorem render_literal {x : Double} (h : x.isFinite = true) {l : Literal}
    (hnegative : l.negative = x.isNegative) (hpointed : l.Pointed) (upper : Bool)
    {magnitude : ℕ → List Char}
    (htext : magnitude (unitsOf x.magnitude) = l.body ++ markText l.mark) :
    render upper magnitude x = String.ofList l.text := by
  rw [render_of_isFinite h, htext, ← hnegative, ← text_eq_body hpointed]

section

variable {x : Double} (decimals : ℕ) (upper : Bool)

theorem wellFormed_shownLiteral (alternate : Bool) :
    (shownLiteral decimals upper alternate x).WellFormed := by
  have hwell := wellFormed_generalLiteral x.isNegative upper decimals (unitsOf x.magnitude)
  cases alternate with
  | true => exact hwell
  | false => exact wellFormed_trim hwell

theorem generalText_eq (h : x.isFinite = true) {precision : ℕ}
    (hdigits : max precision 1 = decimals + 1) (alternate : Bool) :
    generalText precision upper alternate x
      = String.ofList (shownLiteral decimals upper alternate x).text := by
  have hnegative := negative_generalLiteral x.isNegative upper decimals (unitsOf x.magnitude)
  have htext := general_eq x.isNegative upper decimals (unitsOf x.magnitude) hdigits alternate
  cases alternate with
  | true => exact render_literal h hnegative (pointed_generalLiteral _ _ _ _) upper htext
  | false =>
    exact render_literal (l := (keptLiteral decimals upper x).trim) h hnegative (pointed_trim _)
      upper htext

theorem read?_exponentText (h : x.isFinite = true) :
    read? (exponentText decimals upper x).toList = some (fullLiteral decimals upper x) := by
  have htext : exponentText decimals upper x
      = String.ofList (fullLiteral decimals upper x).text := by
    refine render_literal (l := fullLiteral decimals upper x) h rfl pointed_splitLiteral upper ?_
    rw [fullLiteral, ← exponential_fst, ← exponential_snd]
  rw [htext, String.toList_ofList]
  exact read?_text (wellFormed_exponentLiteral _ _ _ _)

theorem read?_generalText (h : x.isFinite = true) {precision : ℕ}
    (hdigits : max precision 1 = decimals + 1) (alternate : Bool) :
    read? (generalText precision upper alternate x).toList
      = some (shownLiteral decimals upper alternate x) := by
  rw [generalText_eq decimals upper h hdigits, String.toList_ofList]
  exact read?_text (wellFormed_shownLiteral decimals upper alternate)

theorem roundsTo_fullLiteral :
    RoundsTo (decimals + 1) x.value (fullLiteral decimals upper x).value := by
  have hrounds := (significant_rounds decimals (unitsOf x.magnitude)).1
  rw [← magnitude_exponentLiteral x.isNegative upper] at hrounds
  have hnegative : (fullLiteral decimals upper x).negative = x.isNegative := rfl
  rw [value, Literal.value, hnegative]
  split
  · exact hrounds.neg
  · exact hrounds

theorem hasExponent_fullLiteral :
    HasExponent (fullLiteral decimals upper x).value (roundedPower decimals x) := by
  have hexponent := (significant_rounds decimals (unitsOf x.magnitude)).2
  rw [← magnitude_exponentLiteral x.isNegative upper] at hexponent
  rw [Literal.value]
  split
  · exact hexponent.neg
  · exact hexponent

theorem value_shownLiteral (alternate : Bool) :
    (shownLiteral decimals upper alternate x).value = (fullLiteral decimals upper x).value := by
  have hkept : (keptLiteral decimals upper x).value = (fullLiteral decimals upper x).value := by
    rw [Literal.value, Literal.value, fullLiteral, keptLiteral, negative_generalLiteral,
      magnitude_generalLiteral]
    rfl
  cases alternate with
  | true => exact hkept
  | false => exact (trimmedFrom_trim _).value_eq.trans hkept

theorem isSome_mark_shownLiteral (alternate : Bool) :
    (shownLiteral decimals upper alternate x).mark.isSome = true
      ↔ roundedPower decimals x < -4 ∨ ((decimals + 1 : ℕ) : ℤ) ≤ roundedPower decimals x := by
  have hkept := isSome_mark_generalLiteral x.isNegative upper decimals (unitsOf x.magnitude)
  cases alternate with
  | true => exact hkept
  | false => exact hkept

/-- With all its zeros, the general layout is one of the two others. -/
theorem generalText_alternate (h : x.isFinite = true) {precision : ℕ}
    (hdigits : max precision 1 = decimals + 1) :
    generalText precision upper true x =
      if roundedPower decimals x < -4 ∨ ((decimals + 1 : ℕ) : ℤ) ≤ roundedPower decimals x then
        exponentText decimals upper x
      else fixedText (decimals - roundedPower decimals x).toNat x := by
  have hcount : ((decimals + 1 : ℕ) : ℤ) - 1 = decimals := by omega
  by_cases hstyle :
      roundedPower decimals x < -4 ∨ ((decimals + 1 : ℕ) : ℤ) ≤ roundedPower decimals x
  · rw [if_pos hstyle, generalText, exponentText, render_of_isFinite h, render_of_isFinite h,
      general, hdigits]
    rw [roundedPower] at hstyle
    simp only [Nat.add_sub_cancel, if_pos hstyle, if_true]
  · rw [if_neg hstyle, generalText, fixedText, render_of_isFinite h, render_of_isFinite h, general,
      hdigits, roundedPower]
    rw [roundedPower] at hstyle
    simp only [Nat.add_sub_cancel, hcount, if_neg hstyle, if_true, List.append_nil]

end

/-- What a double shows in the general layout.  `shown` is its numeral there, `kept` the same with
all its zeros, and `full` its numeral in the exponent layout with as many significant digits;
`power` is the exponent after rounding. -/
structure GeneralLayout (precision : ℕ) (upper alternate : Bool) (x : Double)
    (shown kept full : Literal) (power : ℤ) : Prop where
  read_shown : Literal.read? (generalText precision upper alternate x).toList = some shown
  read_kept : Literal.read? (generalText precision upper true x).toList = some kept
  read_full : Literal.read? (exponentText (max precision 1 - 1) upper x).toList = some full
  /-- The exponent layout rounds the double to its significant digits. -/
  rounds : RoundsTo (max precision 1 : ℕ) x.value full.value
  exponent : HasExponent full.value power
  power_full : full.power = power
  /-- The general layout shows the same number. -/
  value_shown : shown.value = full.value
  style : shown.mark.isSome = true ↔ power < -4 ∨ ((max precision 1 : ℕ) : ℤ) ≤ power
  layout : generalText precision upper true x =
    if power < -4 ∨ ((max precision 1 : ℕ) : ℤ) ≤ power then
      exponentText (max precision 1 - 1) upper x
    else fixedText ((max precision 1 - 1 : ℕ) - power).toNat x
  trimmed : alternate = false → shown.TrimmedFrom kept

/-- In the general layout every finite double shows as itself rounded to the significant digits
asked for, whichever of the two layouts is taken. -/
theorem general_layout_shows_rounded (precision : ℕ) (upper alternate : Bool) (x : Double)
    (h : x.isFinite = true) :
    ∃ shown kept full power, GeneralLayout precision upper alternate x shown kept full power := by
  obtain ⟨decimals, hdigits⟩ : ∃ decimals, max precision 1 = decimals + 1 :=
    ⟨max precision 1 - 1, by omega⟩
  refine ⟨shownLiteral decimals upper alternate x, keptLiteral decimals upper x,
    fullLiteral decimals upper x, roundedPower decimals x, ?_⟩
  constructor
  case read_shown => exact read?_generalText decimals upper h hdigits alternate
  case read_kept => exact read?_generalText decimals upper h hdigits true
  case exponent => exact hasExponent_fullLiteral decimals upper
  case power_full => exact power_exponentLiteral _ _ _ _
  case value_shown => exact value_shownLiteral decimals upper alternate
  case trimmed =>
    rintro rfl
    exact trimmedFrom_trim _
  all_goals rw [hdigits]
  case read_full => exact read?_exponentText decimals upper h
  case rounds => exact roundsTo_fullLiteral decimals upper
  case style => exact isSome_mark_shownLiteral decimals upper alternate
  case layout => exact generalText_alternate decimals upper h hdigits

/-- A number half way to the next power of ten: rounding moves the exponent, which then asks for the
exponent layout. -/
theorem tenMillion_shows_rounded :
    (generalText 7 false false ⟨0x416312cff0000000⟩ = "1e+07" ∧
      fixedText 1 ⟨0x416312cff0000000⟩ = "9999999.5") ∧
    ∃ shown kept full power,
      GeneralLayout 7 false false ⟨0x416312cff0000000⟩ shown kept full power :=
  ⟨by decide +kernel, general_layout_shows_rounded 7 false false _ (by decide +kernel)⟩

end Double

end LuaRuntime
