import LuaRuntime.Number.Decimal
import LuaRuntime.Proofs.Format.Reading
import Mathlib.Algebra.Order.Field.Rat
import Mathlib.Data.List.DropRight
import Mathlib.Tactic.FieldSimp
import Mathlib.Tactic.NormNum

/-!
# Decimal numerals and their values

`Literal` is a decimal numeral by its parts: a sign, the digits before the point, those after it if
there is a point, and an exponent part if there is one.  `Literal.read?` takes a text apart, so that
a text is the numeral of one number only (`read?_text`), and `Literal.value` is that number.

`Literal.trim` takes off the zeros at the end of the decimals and a point with nothing after it.  It
changes no other part, and keeps the value (`TrimmedFrom.value_eq`).
-/

namespace LuaRuntime

namespace Decimal

/-! ## Parts -/

/-- The exponent part of a decimal numeral. -/
structure Mark where
  /-- Whether the letter is in upper case. -/
  upper : Bool
  /-- Whether the sign is a minus sign. -/
  negative : Bool
  /-- The digits of the exponent. -/
  digits : List Char
deriving DecidableEq

namespace Mark

/-- The letter, the sign and the digits. -/
def text (m : Mark) : List Char :=
  (if m.upper then 'E' else 'e') :: (if m.negative then '-' else '+') :: m.digits

/-- The exponent. -/
def power (m : Mark) : ℤ :=
  if m.negative then -(Nat.ofDigitChars 10 m.digits 0 : ℤ) else Nat.ofDigitChars 10 m.digits 0

end Mark

/-- A decimal numeral by its parts. -/
structure Literal where
  /-- Whether there is a minus sign. -/
  negative : Bool
  /-- The digits before the point. -/
  whole : List Char
  /-- The digits after the point, none if there is no point. -/
  decimals : Option (List Char)
  /-- The exponent part. -/
  mark : Option Mark
deriving DecidableEq

namespace Literal

/-- The digits after the point. -/
def places (l : Literal) : List Char := l.decimals.getD []

/-- The exponent, zero if there is no exponent part. -/
def power (l : Literal) : ℤ := (l.mark.map Mark.power).getD 0

/-- The number without its sign. -/
def magnitude (l : Literal) : ℚ :=
  Nat.ofDigitChars 10 (l.whole ++ l.places) 0 * 10 ^ (l.power - l.places.length)

/-- The number that a numeral writes. -/
def value (l : Literal) : ℚ := if l.negative then -l.magnitude else l.magnitude

/-- A point and the digits after it, if there is one. -/
def decimalsText : Option (List Char) → List Char
  | none => []
  | some digits => '.' :: digits

/-- An exponent part, if there is one. -/
def markText : Option Mark → List Char
  | none => []
  | some m => m.text

/-- The numeral. -/
def text (l : Literal) : List Char :=
  (if l.negative then ['-'] else []) ++ (l.whole ++ (decimalsText l.decimals ++ markText l.mark))

/-! ## Reading -/

/-- A minus sign, if there is one. -/
def readSign : List Char → Bool × List Char
  | '-' :: rest => (true, rest)
  | text => (false, text)

/-- A point and the digits after it, if there is one. -/
def readDecimals : List Char → Option (List Char) × List Char
  | '.' :: rest => (some (rest.takeWhile Char.isDigit), rest.dropWhile Char.isDigit)
  | text => (none, text)

/-- An exponent part that is the whole text, if there is any text. -/
def readMark? : List Char → Option (Option Mark)
  | [] => some none
  | letter :: sign :: digits =>
      if (letter = 'e' ∨ letter = 'E') ∧ (sign = '+' ∨ sign = '-') ∧ digits ≠ [] ∧
          digits.all Char.isDigit = true then
        some (some ⟨letter == 'E', sign == '-', digits⟩)
      else none
  | _ => none

/-- The numeral that a text is, if it is one. -/
def read? (text : List Char) : Option Literal :=
  let (negative, unsigned) := readSign text
  let whole := unsigned.takeWhile Char.isDigit
  let (decimals, rest) := readDecimals (unsigned.dropWhile Char.isDigit)
  if whole = [] then none else (readMark? rest).map (⟨negative, whole, decimals, ·⟩)

/-- Digits stand where a numeral has them, and there are some before the point and in the
exponent. -/
structure WellFormed (l : Literal) : Prop where
  whole_ne_nil : l.whole ≠ []
  whole : ∀ c ∈ l.whole, c.isDigit = true
  places : ∀ c ∈ l.places, c.isDigit = true
  mark : ∀ m, l.mark = some m → m.digits ≠ [] ∧ ∀ c ∈ m.digits, c.isDigit = true

variable {l : Literal}

theorem readMark?_text {mark : Option Mark}
    (h : ∀ m, mark = some m → m.digits ≠ [] ∧ ∀ c ∈ m.digits, c.isDigit = true) :
    readMark? (markText mark) = some mark := by
  cases mark with
  | none => rfl
  | some m =>
    obtain ⟨hne, hdigits⟩ := h m rfl
    obtain ⟨upper, negative, digits⟩ := m
    cases upper <;> cases negative <;>
      simp [markText, Mark.text, readMark?, hne] <;> exact hdigits

theorem head?_markText {mark : Option Mark} {c : Char} (h : (markText mark).head? = some c) :
    c = 'e' ∨ c = 'E' := by
  cases mark with
  | none => cases h
  | some m =>
    obtain rfl : (if m.upper then 'E' else 'e') = c := Option.some.inj h
    cases m.upper <;> simp

/-- No digit follows the decimals. -/
theorem markText_stops (mark : Option Mark) (c : Char) (h : (markText mark).head? = some c) :
    c.isDigit = false := by
  rcases head?_markText h with rfl | rfl <;> rfl

/-- No digit follows the digits before the point. -/
theorem decimalsText_stops (decimals : Option (List Char)) (mark : Option Mark) (c : Char)
    (h : (decimalsText decimals ++ markText mark).head? = some c) : c.isDigit = false := by
  cases decimals with
  | none => exact markText_stops mark c h
  | some digits =>
    obtain rfl : '.' = c := Option.some.inj h
    rfl

theorem readDecimals_text {decimals : Option (List Char)} (mark : Option Mark)
    (h : ∀ c ∈ decimals.getD [], c.isDigit = true) :
    readDecimals (decimalsText decimals ++ markText mark) = (decimals, markText mark) := by
  cases decimals with
  | none =>
    show readDecimals (markText mark) = _
    rw [readDecimals.eq_def]
    split
    · next hpoint => exact absurd (head?_markText (c := '.') (by rw [hpoint]; rfl)) (by decide)
    · rfl
  | some digits =>
    have hrun := Format.takeWhile_run h (markText_stops mark)
    rw [Option.getD_some] at hrun
    simp [decimalsText, readDecimals, hrun]

theorem readSign_text (negative : Bool) {unsigned : List Char} (h : unsigned.head? ≠ some '-') :
    readSign ((if negative then ['-'] else []) ++ unsigned) = (negative, unsigned) := by
  cases negative with
  | true => rfl
  | false =>
    show readSign unsigned = _
    rw [readSign.eq_def]
    split
    · exact absurd rfl h
    · rfl

/-- Reading gives back the parts of a numeral. -/
theorem read?_text (h : l.WellFormed) : read? l.text = some l := by
  obtain ⟨negative, whole, decimals, mark⟩ := l
  have hhead : (whole ++ (decimalsText decimals ++ markText mark)).head? ≠ some '-' := by
    cases whole with
    | nil => exact absurd rfl h.whole_ne_nil
    | cons c whole =>
      intro heq
      obtain rfl : c = '-' := Option.some.inj heq
      exact absurd (h.whole '-' List.mem_cons_self) (by decide)
  have hrun := Format.takeWhile_run h.whole (decimalsText_stops decimals mark)
  simp only [read?, text, readSign_text negative hhead, hrun, readDecimals_text mark h.places,
    if_neg h.whole_ne_nil, readMark?_text h.mark, Option.map_some]

/-! ## Zeros at the end -/

/-- A point and digits after it, if there are digits. -/
def pointed (digits : List Char) : Option (List Char) := if digits = [] then none else some digits

theorem getD_pointed (digits : List Char) : (pointed digits).getD [] = digits := by
  rw [pointed]
  split
  · next h => rw [h]; rfl
  · rfl

/-- A numeral without the zeros at the end of its decimals, and without the point if no decimals are
left. -/
def trim (l : Literal) : Literal := { l with decimals := pointed (l.places.rdropWhile (· == '0')) }

theorem places_trim (l : Literal) : l.trim.places = l.places.rdropWhile (· == '0') := getD_pointed _

/-- One numeral is another without zeros at the end of its decimals. -/
structure TrimmedFrom (shown kept : Literal) : Prop where
  negative : shown.negative = kept.negative
  whole : shown.whole = kept.whole
  mark : shown.mark = kept.mark
  places : ∃ count, kept.places = shown.places ++ List.replicate count '0'
  no_zero : shown.places.getLast? ≠ some '0'
  no_point : shown.decimals ≠ some []

theorem eq_replicate_rtakeWhile (digits : List Char) :
    digits.rtakeWhile (· == '0') = List.replicate (digits.rtakeWhile (· == '0')).length '0' := by
  refine List.eq_replicate_of_mem fun c hc => ?_
  simpa using List.mem_rtakeWhile_imp hc

theorem trimmedFrom_trim (l : Literal) : l.trim.TrimmedFrom l where
  negative := rfl
  whole := rfl
  mark := rfl
  places := by
    refine ⟨(l.places.rtakeWhile (· == '0')).length, ?_⟩
    rw [places_trim, ← eq_replicate_rtakeWhile, List.rdropWhile_append_rtakeWhile]
  no_zero := by
    rw [places_trim]
    intro hlast
    have hne : l.places.rdropWhile (· == '0') ≠ [] := by
      intro hnil
      rw [hnil] at hlast
      cases hlast
    rw [List.getLast?_eq_some_getLast hne, Option.some.injEq] at hlast
    exact List.rdropWhile_last_not _ l.places hne (beq_iff_eq.mpr hlast)
  no_point := by
    show pointed _ ≠ some []
    rw [pointed]
    split
    · exact nofun
    · next hne => exact fun heq => hne (Option.some.inj heq)

theorem TrimmedFrom.magnitude_eq {shown kept : Literal} (h : shown.TrimmedFrom kept) :
    shown.magnitude = kept.magnitude := by
  obtain ⟨count, hplaces⟩ := h.places
  have hpower : shown.power = kept.power := by rw [power, power, h.mark]
  rw [magnitude, magnitude, hpower, h.whole, hplaces, ← List.append_assoc,
    Nat.ofDigitChars_append (l := kept.whole ++ shown.places), Nat.ofDigitChars_replicate_zero,
    List.length_append, List.length_replicate]
  have hten : (10 : ℚ) ^ count ≠ 0 := pow_ne_zero _ (by norm_num)
  rw [Nat.cast_add, ← sub_sub, zpow_sub₀ (by norm_num) _ (count : ℤ), zpow_natCast]
  push_cast
  field_simp

theorem TrimmedFrom.value_eq {shown kept : Literal} (h : shown.TrimmedFrom kept) :
    shown.value = kept.value := by
  rw [value, value, h.negative, h.magnitude_eq]

end Literal

end Decimal

end LuaRuntime
