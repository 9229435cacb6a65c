import LuaRuntime.Proofs.Library.IntegerReads
import LuaRuntime.Proofs.Number.Digits

/-!
# Fields of integers

The field of an integer is spaces, a sign, a prefix, zeros, digits and spaces, in this order
(`Field.Layout`).  How it is filled (`Layout.Fits`) depends on the directive alone, and is settled
for all conversions at once (`fits_padded`).  What it shows (`Layout.Shows`) is read back from the
sign and the digits: the integer itself, or its residue modulo `2 ^ 64` where the conversion has no
sign.  The precision adds zeros to the digits and changes nothing of their value.
-/

namespace LuaRuntime

/-- The base of the digits that a conversion to integers writes. -/
def Conversion.base? : Conversion → Option Nat
  | .integer | .unsigned => some 10
  | .octal => some 8
  | .hexadecimal _ => some 16
  | _ => none

namespace Field

/-- The sign of an integer in the field of a directive. -/
structure SignOf (d : Directive) (i : Int) (sign : List Char) : Prop where
  minus : sign = ['-'] ↔ d.conversion = .integer ∧ i < 0
  plus : sign = ['+'] ↔ d.conversion = .integer ∧ 0 ≤ i ∧ d.flags.plus = true
  space : sign = [' '] ↔
    d.conversion = .integer ∧ 0 ≤ i ∧ d.flags.plus = false ∧ d.flags.space = true
  cases : sign = [] ∨ sign = ['-'] ∨ sign = ['+'] ∨ sign = [' ']

/-- The prefix of an integer in the field of a directive: only the alternate layout of the base 16
has one, and not for zero. -/
def leadOf (d : Directive) (i : Int) : List Char :=
  match d.conversion with
  | .hexadecimal upper =>
      if d.flags.alternate && i != 0 then ['0', if upper then 'X' else 'x'] else []
  | _ => []

/-- The parts of the field of a number. -/
structure Layout where
  /-- The number of spaces at the left. -/
  before : Nat
  /-- The sign. -/
  sign : List Char
  /-- The prefix of the digits. -/
  lead : List Char
  /-- The number of zeros that fill the field. -/
  zeros : Nat
  /-- The digits. -/
  digits : List Char
  /-- The number of spaces at the right. -/
  after : Nat

namespace Layout

/-- The field. -/
def text (l : Layout) : List Char :=
  List.replicate l.before ' ' ++ l.sign ++ l.lead ++ List.replicate l.zeros '0' ++ l.digits ++
    List.replicate l.after ' '

/-- The field is as wide as the directive says, or as its parts need.  Spaces fill it on the side
that the flags say, or zeros do if they are asked for and there is no precision. -/
structure Fits (l : Layout) (d : Directive) : Prop where
  length_eq : l.text.length =
    max (d.width.getD 0) (l.sign.length + l.lead.length + l.digits.length)
  before : 0 < l.before → d.flags.left = false ∧ ¬ (d.flags.zero = true ∧ d.precision = none)
  zeros : 0 < l.zeros → d.flags.zero = true ∧ d.flags.left = false ∧ d.precision = none
  after : 0 < l.after → d.flags.left = true

/-- The integer that the sign and the digits write in a base. -/
def value? (l : Layout) (base : Nat) : Option Int :=
  (Numeral.naturalValue? base l.digits).map fun n : Nat =>
    if l.sign = ['-'] then -(n : Int) else (n : Int)

/-- The parts show an integer as a directive says, with digits of a base. -/
structure Shows (l : Layout) (d : Directive) (base : Nat) (i : Int) : Prop where
  sign : SignOf d i l.sign
  lead : l.lead = leadOf d i
  octal : d.conversion = .octal → d.flags.alternate = true → l.digits.head? = some '0'
  precision : ∀ n, d.precision = some n → n ≤ l.digits.length
  empty : l.digits = [] → i = 0 ∧ d.precision = some 0
  value : l.value? base = some (if d.conversion = .integer then i else i % 2 ^ 64)

end Layout

/-! ## Fill -/

/-- The layout of a sign, a prefix and digits in the field of a directive. -/
def padded (d : Directive) (sign lead digits : List Char) (zeros : Bool) : Layout :=
  let room := d.width.getD 0 - (sign.length + lead.length + digits.length)
  { before := if d.flags.left || (d.flags.zero && zeros) then 0 else room
    sign := sign
    lead := lead
    zeros := if !d.flags.left && d.flags.zero && zeros then room else 0
    digits := digits
    after := if d.flags.left then room else 0 }

theorem padNumber_eq_text (d : Directive) (negative : Bool) (lead digits : List Char)
    (zeros : Bool) :
    padNumber d negative lead digits zeros =
      (padded d (sign d negative) lead digits zeros).text := by
  rw [padNumber, padded, Layout.text]
  cases d.flags.left <;> cases d.flags.zero <;> cases zeros <;> simp [fill, Nat.add_assoc]

/-- A field without a precision may be filled with zeros. -/
theorem fits_padded (d : Directive) (sign lead digits : List Char) :
    (padded d sign lead digits d.precision.isNone).Fits d := by
  constructor
  · simp only [padded, Layout.text, List.length_append, List.length_replicate]
    cases d.flags.left <;> cases d.flags.zero <;> cases d.precision.isNone <;>
      simp <;> omega
  all_goals
    simp only [padded, ← Option.isNone_iff_eq_none]
    cases d.flags.left <;> cases d.flags.zero <;> cases d.precision.isNone <;> simp

/-! ## Digits -/

/-- Digits of a base write a number, as many of them as the precision asks for.  Only zero has no
digits, and only with the precision zero. -/
structure Writes (precision : Option Nat) (base n : Nat) (digits : List Char) : Prop where
  value : Numeral.naturalValue? base digits = some n
  least : ∀ count, precision = some count → count ≤ digits.length
  empty : digits = [] → n = 0 ∧ precision = some 0

section

variable {base n : Nat} {digits : List Char} {precision : Option Nat}

/-- The precision adds zeros to digits, or takes a single zero away. -/
theorem writes_integerDigits (hbase : 0 < base) (hdigits : digits ≠ [])
    (hvalue : Numeral.naturalValue? base digits = some n) :
    Writes precision base n (integerDigits precision digits) := by
  cases precision with
  | none => exact ⟨hvalue, fun _ => nofun, fun h => absurd h hdigits⟩
  | some count =>
    rw [integerDigits]
    split
    · next hnone =>
      obtain ⟨rfl, rfl⟩ := hnone
      have hzero : Numeral.naturalValue? base [] = some n :=
        (Numeral.naturalValue?_zeros hbase 1 []).symm.trans hvalue
      obtain rfl : 0 = n := Option.some.inj hzero
      exact ⟨hzero, by simp, fun _ => ⟨rfl, rfl⟩⟩
    · refine ⟨?_, ?_, ?_⟩
      · rw [List.leftpad, Numeral.naturalValue?_zeros hbase, hvalue]
      · rintro _ ⟨⟩
        rw [List.length_leftpad]
        exact Nat.le_max_left _ _
      · simp [List.leftpad, hdigits]

/-- Digits in either case write the number of which they are the digits. -/
theorem writes_toDigits (hbase : 1 < base) (hle : base ≤ 16) (upper : Bool) (n : Nat) :
    Writes precision base n (integerDigits precision
      (if upper then (Nat.toDigits base n).map Char.toUpper else Nat.toDigits base n)) := by
  have hdigits : Nat.toDigits base n ≠ [] := List.ne_nil_of_length_pos Nat.length_toDigits_pos
  cases upper with
  | true =>
    refine writes_integerDigits (by omega) (by simp) ?_
    exact Numeral.naturalValue?_toDigits hbase
      (fun d hd => (Numeral.digit?_digitChar base hle d hd).2) n
  | false =>
    refine writes_integerDigits (by omega) hdigits ?_
    rw [← List.map_id (Nat.toDigits base n)]
    exact Numeral.naturalValue?_toDigits hbase
      (fun d hd => (Numeral.digit?_digitChar base hle d hd).1) n

/-- The alternate layout of the base 8: a zero in front, unless there is one. -/
def octalDigits (alternate : Bool) (digits : List Char) : List Char :=
  (if alternate && digits.head? != some '0' then ['0'] else []) ++ digits

theorem head?_octalDigits (digits : List Char) : (octalDigits true digits).head? = some '0' := by
  by_cases h : digits.head? = some '0' <;> simp [octalDigits, h]

theorem Writes.octalDigits (hbase : 0 < base) (h : Writes precision base n digits)
    (alternate : Bool) : Writes precision base n (octalDigits alternate digits) := by
  rw [Field.octalDigits]
  split
  · exact ⟨(Numeral.naturalValue?_zeros hbase 1 digits).trans h.value,
      fun count hcount => Nat.le_succ_of_le (h.least count hcount), nofun⟩
  · exact h

end

/-! ## Integers -/

theorem integerOf_mem (x : Double) : -2 ^ 63 ≤ integerOf x ∧ integerOf x < 2 ^ 63 := by
  rw [integerOf]
  split
  · next i _ =>
    have hmem := saturate_mem i
    rw [Value.leastInteger, Value.greatestInteger] at hmem
    omega
  · rw [Value.leastInteger, Value.greatestInteger]
    split
    · omega
    · split <;> omega

theorem unsignedOf_eq (x : Double) : (unsignedOf x : Int) = integerOf x % 2 ^ 64 := by
  rw [unsignedOf, show (Value.wordCount : Int) = 2 ^ 64 from rfl]
  omega

/-- The residue of a 64-bit integer is zero only if the integer is. -/
theorem unsignedOf_eq_zero_iff (x : Double) : unsignedOf x = 0 ↔ integerOf x = 0 := by
  have hmem := integerOf_mem x
  have heq := unsignedOf_eq x
  omega

/-! ## Conversions -/

section

variable {d : Directive} {x : Double} {digits : List Char}

theorem signOf_integer (h : d.conversion = .integer) (i : Int) :
    SignOf d i (sign d (i < 0)) := by
  by_cases hneg : i < 0
  · have hsign : sign d (i < 0) = ['-'] := by simp [sign, hneg]
    rw [hsign]
    constructor <;> simp [h, hneg]
  · have hsign : sign d (i < 0) =
        if d.flags.plus then ['+'] else if d.flags.space then [' '] else [] := by
      simp [sign, hneg, h, Conversion.isSigned]
    have hnonneg := Int.not_lt.mp hneg
    rw [hsign]
    cases hplus : d.flags.plus <;> cases hspace : d.flags.space <;> constructor <;>
      simp [h, hneg, hnonneg, hplus, hspace]

theorem signOf_unsigned (h : d.conversion ≠ .integer) (i : Int) : SignOf d i [] := by
  constructor <;> simp [h]

/-- A conversion with a sign shows an integer by the digits of its magnitude. -/
theorem shows_integer (hconversion : d.conversion = .integer)
    (hdigits : Writes d.precision 10 (integerOf x).natAbs digits) (zeros : Bool) :
    (padded d (sign d (integerOf x < 0)) [] digits zeros).Shows d 10 (integerOf x) := by
  have hsign := signOf_integer hconversion (integerOf x)
  have hvalue : (if sign d (integerOf x < 0) = ['-'] then -((integerOf x).natAbs : Int)
      else (integerOf x).natAbs) = integerOf x := by
    simp only [hsign.minus, hconversion, true_and]
    split <;> omega
  refine ⟨hsign, by simp [padded, leadOf, hconversion], by simp [hconversion], hdigits.least, ?_,
    ?_⟩
  · intro h
    obtain ⟨hzero, hprecision⟩ := hdigits.empty h
    exact ⟨by omega, hprecision⟩
  · simp only [Layout.value?, padded, hdigits.value, hconversion, Option.map_some, if_true]
    exact congrArg some hvalue

/-- A conversion without a sign shows the residue of an integer by its digits. -/
theorem shows_unsigned {base : Nat} {lead : List Char} (hconversion : d.conversion ≠ .integer)
    (hlead : lead = leadOf d (integerOf x))
    (hoctal : d.conversion = .octal → d.flags.alternate = true → digits.head? = some '0')
    (hdigits : Writes d.precision base (unsignedOf x) digits) (zeros : Bool) :
    (padded d [] lead digits zeros).Shows d base (integerOf x) := by
  refine ⟨signOf_unsigned hconversion _, hlead, hoctal, hdigits.least, ?_, ?_⟩
  · intro h
    obtain ⟨hzero, hprecision⟩ := hdigits.empty h
    exact ⟨(unsignedOf_eq_zero_iff x).mp hzero, hprecision⟩
  · simp [Layout.value?, padded, hdigits.value, hconversion, unsignedOf_eq]

/-- The field of an integer has a layout that fits and shows the integer. -/
theorem numberField_layout {base : Nat} (h : d.conversion.base? = some base) :
    ∃ l : Layout, numberField d x = .ok l.text ∧ l.Fits d ∧ l.Shows d base (integerOf x) := by
  -- The fill is the same for all conversions: what is left is that the parts show the integer.
  have hpadded {negative : Bool} {lead digits : List Char}
      (hfield : numberField d x = .ok (padNumber d negative lead digits d.precision.isNone))
      (hshows : (padded d (sign d negative) lead digits d.precision.isNone).Shows d base
        (integerOf x)) :
      ∃ l : Layout, numberField d x = .ok l.text ∧ l.Fits d ∧ l.Shows d base (integerOf x) :=
    ⟨_, by rw [hfield, padNumber_eq_text], fits_padded d _ lead digits, hshows⟩
  cases hconversion : d.conversion with
  | integer =>
    rw [hconversion] at h
    cases h
    refine hpadded (by rw [numberField, hconversion]; rfl) ?_
    exact shows_integer hconversion (writes_toDigits (by decide) (by decide) false _) _
  | unsigned =>
    rw [hconversion] at h
    cases h
    have hsign : sign d false = [] := by simp [sign, hconversion, Conversion.isSigned]
    refine hpadded (by rw [numberField, hconversion]; rfl) ?_
    rw [hsign]
    exact shows_unsigned (by simp [hconversion]) (by simp [leadOf, hconversion])
      (by simp [hconversion])
      (writes_toDigits (by decide) (by decide) false _) _
  | octal =>
    rw [hconversion] at h
    cases h
    have hsign : sign d false = [] := by simp [sign, hconversion, Conversion.isSigned]
    have hdigits : Writes d.precision 8 (unsignedOf x)
        (integerDigits d.precision (Nat.toDigits 8 (unsignedOf x))) :=
      writes_toDigits (by decide) (by decide) false _
    refine hpadded (by rw [numberField, hconversion]; rfl) ?_
    rw [hsign]
    refine shows_unsigned (by simp [hconversion]) (by simp [leadOf, hconversion])
      (fun _ halternate => ?_)
      (hdigits.octalDigits (by decide) d.flags.alternate) _
    rw [halternate]
    exact head?_octalDigits _
  | hexadecimal upper =>
    rw [hconversion] at h
    cases h
    have hsign : sign d false = [] := by simp [sign, hconversion, Conversion.isSigned]
    refine hpadded (by rw [numberField, hconversion]; rfl) ?_
    rw [hsign]
    refine shows_unsigned (by simp [hconversion]) ?_ (by simp [hconversion])
      (writes_toDigits (by decide) (by decide) upper _) _
    have hzero := unsignedOf_eq_zero_iff x
    simp only [leadOf, hconversion, bne_iff_ne, Bool.and_eq_true, ne_eq, hzero]
  | char | exponent _ | fixed | general _ | text | quoted =>
    rw [hconversion] at h
    cases h

end

end Field

/-! ## Directives -/

/-- A directive that converts to an integer writes every number.  The field is as wide as the
directive says or as its parts need, with spaces on one side or zeros before the digits, and the
sign and the digits read back as the integer part of the number, brought into the range of 64-bit
integers, or as its residue modulo `2 ^ 64`. -/
theorem integer_fields_keep_value (call : Invoke) {d : Directive} {base : Nat}
    (hbase : d.conversion.base? = some base) {v : Value} {x : Double}
    (hv : v.toNumber? = some x) (position : Nat) (s : State) :
    ∃ l : Field.Layout, Gives (renderDirective call d v position) s l.text s ∧ l.Fits d ∧
      l.Shows d base (Field.integerOf x) := by
  obtain ⟨l, hfield, hfits, hshows⟩ := Field.numberField_layout (x := x) hbase
  refine ⟨l, ?_, hfits, hshows⟩
  have hrender : renderDirective call d v position = pure l.text := by
    rw [renderDirective]
    cases hconversion : d.conversion with
    | text | quoted =>
      rw [hconversion] at hbase
      cases hbase
    | _ => simp only [hv, hfield]
  rw [hrender]
  exact gives_pure _ s

/-- The directive `%#+020.17x`. -/
def wideHexadecimal : Directive where
  reference := .next
  flags := { plus := true, zero := true, alternate := true }
  width := some 20
  precision := some 17
  conversion := .hexadecimal false

/-- The text `-1.5` as `%#+020.17x`: the residue of -1, without a sign, and no zero but the one of
the precision. -/
theorem wideHexadecimal_keeps_value :
    wideHexadecimal.conversion.base? = some 16 ∧
      (Value.string "-1.5").toNumber? = some ⟨0xbff8000000000000⟩ ∧
      ∃ l : Field.Layout,
        Gives (renderDirective (invoke 1) wideHexadecimal (.string "-1.5") 1) (.initial {} .keep 0)
          l.text (.initial {} .keep 0) ∧
        l.Fits wideHexadecimal ∧ l.Shows wideHexadecimal 16 (-1) ∧
        l.text = " 0x0ffffffffffffffff".toList := by
  have hnumber : (Value.string "-1.5").toNumber? = some ⟨0xbff8000000000000⟩ := by decide +kernel
  have hinteger : Field.integerOf ⟨0xbff8000000000000⟩ = -1 := by decide +kernel
  obtain ⟨l, hgives, hfits, hshows⟩ := integer_fields_keep_value (invoke 1)
    (d := wideHexadecimal) rfl hnumber 1 (.initial {} .keep 0)
  rw [hinteger] at hshows
  have hfield : Field.hexField wideHexadecimal false ⟨0xbff8000000000000⟩ =
      " 0x0ffffffffffffffff".toList := by decide +kernel
  have hrender : renderDirective (invoke 1) wideHexadecimal (.string "-1.5") 1 =
      pure " 0x0ffffffffffffffff".toList := by
    rw [← hfield]
    simp only [renderDirective, wideHexadecimal, hnumber, Field.numberField]
  have htext : l.text = " 0x0ffffffffffffffff".toList := by
    have hrun := hgives
    rw [hrender] at hrun
    exact (Except.ok.inj (congrArg Prod.fst hrun)).symm
  exact ⟨rfl, hnumber, l, hgives, hfits, hshows, htext⟩

end LuaRuntime
