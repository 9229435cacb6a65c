import LuaRuntime.Proofs.Number.MachineArithmetic
import LuaRuntime.Proofs.Number.NumeralGrammar

/-!
# Integers in a base

`Numeral.SpellsInteger` says which texts are integers in a base, and which integer each one writes:
a minus sign or none and digits behind it, the letters in either case.  `Numeral.parseRadix?` reads
a text exactly if it is one (`isSome_parseRadix?`).

The digits are gathered in double arithmetic.  A number below `2 ^ 53` keeps its value in every
step, because the numbers gathered before it are no greater (`SpellsNatural.gather_eq`).  Beyond it
digits may be lost and the sum may become an infinity, but never what is no number (`isNaN_gather`).

Hexadecimal digits after `0x`, and short decimal integers, are read alike without a base.
-/

namespace LuaRuntime

namespace Numeral

/-! ## Digits -/

/-- The digit of a value below 36, a small letter from ten on. -/
def digitChar (d : ℕ) : Char :=
  if d < 10 then Char.ofNat ('0'.toNat + d) else Char.ofNat ('a'.toNat + (d - 10))

/-- A character is the digit of a value in a base, a letter in either case. -/
def IsDigitOf (base : ℕ) (c : Char) (d : ℕ) : Prop := d < base ∧ c.toLower = digitChar d

theorem digit?_ascii : ∀ n < 128, ∀ d < 36,
    digit? 36 (Char.ofNat n) = some d ↔ (Char.ofNat n).toLower = digitChar d := by
  decide +kernel

theorem digitChar_lt : ∀ d < 36, (digitChar d).toNat < 128 := by decide +kernel

theorem char_le_iff (a b : Char) : a ≤ b ↔ a.toNat ≤ b.toNat := by
  rw [Char.le_def, UInt32.le_iff_toNat_le]
  rfl

theorem isAlphanum_of_digit? {base : ℕ} {c : Char} {d : ℕ} (h : digit? base c = some d) :
    48 ≤ c.toNat ∧ c.toNat ≤ 57 ∨ 65 ≤ c.toNat ∧ c.toNat ≤ 90 ∨
      97 ≤ c.toNat ∧ c.toNat ≤ 122 := by
  simp only [digit?, char_le_iff, Char.reduceToNat, Option.filter_eq_some_iff] at h
  have hvalue := h.1
  split_ifs at hvalue <;> omega

theorem lt_of_toLower {c : Char} (h : c.toLower.toNat < 128) : c.toNat < 128 := by
  rw [Char.toLower] at h
  split at h
  · next hupper =>
    have := hupper.2
    simp only [UInt32.le_iff_toNat_le] at this
    exact lt_of_le_of_lt this (by decide)
  · exact h

/-- A base only bounds the value of a digit. -/
theorem digit?_base {base : ℕ} (hbase : base ≤ 36) (c : Char) :
    digit? base c = (digit? 36 c).filter (· < base) := by
  have hbound : (fun d => decide (d < 36) && decide (d < base)) = fun d => decide (d < base) := by
    funext d
    rw [← Bool.decide_and, decide_eq_decide]
    omega
  simp only [digit?, Option.filter_filter, hbound]

theorem digit?_eq_some_iff {base : ℕ} (hbase : base ≤ 36) {c : Char} {d : ℕ} :
    digit? base c = some d ↔ IsDigitOf base c d := by
  rw [digit?_base hbase, Option.filter_eq_some_iff, decide_eq_true_eq, and_comm, IsDigitOf]
  refine and_congr_right fun hd => ?_
  constructor
  · intro h
    have hc := isAlphanum_of_digit? h
    rw [← Char.ofNat_toNat c] at h ⊢
    exact (digit?_ascii _ (by omega) d (by omega)).mp h
  · intro h
    have hc := lt_of_toLower (h ▸ digitChar_lt d (by omega))
    rw [← Char.ofNat_toNat c] at h ⊢
    exact (digit?_ascii _ hc d (by omega)).mpr h

/-! ## Natural numbers -/

/-- Digits of a base write a natural number, the first one being the most significant. -/
inductive SpellsNatural (base : ℕ) : List Char → ℕ → Prop where
  | single {c : Char} {d : ℕ} : IsDigitOf base c d → SpellsNatural base [c] d
  | snoc {digits : List Char} {n : ℕ} {c : Char} {d : ℕ} :
      SpellsNatural base digits n →
      IsDigitOf base c d →
      SpellsNatural base (digits ++ [c]) (base * n + d)

theorem SpellsNatural.ne_nil {base n : ℕ} {digits : List Char}
    (h : SpellsNatural base digits n) : digits ≠ [] := by
  cases h <;> simp

/-- Every character of a natural number is a digit. -/
theorem SpellsNatural.isDigitOf {base n : ℕ} {digits : List Char}
    (h : SpellsNatural base digits n) : ∀ c ∈ digits, ∃ d, IsDigitOf base c d := by
  induction h with
  | single hc => simpa using ⟨_, hc⟩
  | snoc _ hc ih => simpa [or_imp, forall_and] using ⟨ih, _, hc⟩

/-- Digits, at least one, write a natural number. -/
theorem exists_spellsNatural {base : ℕ} {digits : List Char} (hne : digits ≠ [])
    (h : ∀ c ∈ digits, ∃ d, IsDigitOf base c d) : ∃ n, SpellsNatural base digits n := by
  induction digits using List.reverseRecOn with
  | nil => exact absurd rfl hne
  | append_singleton digits c ih =>
    obtain ⟨d, hd⟩ := h c (by simp)
    by_cases hnil : digits = []
    · subst hnil
      exact ⟨d, .single hd⟩
    · obtain ⟨n, hn⟩ := ih hnil fun c hc => h c (by simp [hc])
      exact ⟨_, hn.snoc hd⟩

variable {base n : ℕ} {digits : List Char}

theorem digits?_concat {values : List ℕ} {c : Char} {d : ℕ}
    (hdigits : digits? base digits = some values) (hc : digit? base c = some d) :
    digits? base (digits ++ [c]) = some (values ++ [d]) := by
  rw [digits?] at *
  simp [List.mapM_append, hdigits, hc]

theorem gather_concat (base : ℕ) (values : List ℕ) (d : ℕ) :
    gather base (values ++ [d]) = gather base values * .ofNat base + .ofNat d := by
  simp [gather]

/-- The digits of a natural number are gathered, and the number does not lose its value as long as
it is a double. -/
theorem SpellsNatural.gather_eq (hpos : 0 < base) (hbase : base ≤ 36)
    (h : SpellsNatural base digits n) :
    ∃ values, digits? base digits = some values ∧ (∀ d ∈ values, d < base) ∧
      (n < 2 ^ 53 → gather base values = .ofNat n) := by
  induction h with
  | @single c d hc =>
    have hread := (digit?_eq_some_iff hbase).mpr hc
    have hd := hc.1
    refine ⟨[d], by simp [digits?, hread], by simpa using hd, fun _ => ?_⟩
    have hproduct : Double.ofNat 0 * Double.ofNat base = Double.ofNat (0 * base) :=
      Double.ofNat_mul (by norm_num) (by omega) (by omega)
    have hsum : Double.ofNat 0 + Double.ofNat d = Double.ofNat (0 + d) :=
      Double.ofNat_add (by omega)
    rw [Nat.zero_mul] at hproduct
    rw [Nat.zero_add] at hsum
    simp [gather, hproduct, hsum]
  | @snoc digits n c d _ hc ih =>
    obtain ⟨values, hvalues, hlt, hgather⟩ := ih
    have hread := (digit?_eq_some_iff hbase).mpr hc
    have hd := hc.1
    refine ⟨values ++ [d], digits?_concat hvalues hread, ?_, fun hn => ?_⟩
    · simpa [or_imp, forall_and] using ⟨hlt, hd⟩
    · have hle : n ≤ base * n := Nat.le_mul_of_pos_left n hpos
      have hcomm := Nat.mul_comm base n
      rw [gather_concat, hgather (by omega), Double.ofNat_mul (by omega) (by omega) (by omega),
        Double.ofNat_add (by omega), hcomm]

/-- What digits gather is a number, an infinity perhaps. -/
theorem isNaN_gather (hpos : 0 < base) (hbase : base ≤ 36) {values : List ℕ}
    (h : ∀ d ∈ values, d < base) :
    (gather base values).isNaN = false ∧ (gather base values).isNegative = false := by
  induction values using List.reverseRecOn with
  | nil =>
    show (Double.ofNat 0).isNaN = false ∧ (Double.ofNat 0).isNegative = false
    decide
  | append_singleton values d ih =>
    obtain ⟨hnan, hnegative⟩ := ih fun d hd => h d (by simp [hd])
    have hd := h d (by simp)
    rw [gather_concat]
    exact Double.mul_add_digit hnan hnegative hpos (by omega) (by omega)

/-! ## Integers -/

/-- The sign of an integer: a minus sign or nothing. -/
def minusSign (negative : Bool) : List Char := if negative then ['-'] else []

/-- A text is an integer in a base, with characters of a class around it. -/
inductive SpellsInteger (around : Char → Bool) (base : ℕ) (text : List Char) (negative : Bool)
    (n : ℕ) : Prop where
  | intro {before digits after : List Char} :
      (∀ c ∈ before, around c = true) →
      SpellsNatural base digits n →
      (∀ c ∈ after, around c = true) →
      text = before ++ ((minusSign negative ++ digits) ++ after) →
      SpellsInteger around base text negative n

theorem SpellsNatural.spellsInteger (around : Char → Bool) (h : SpellsNatural base digits n) :
    SpellsInteger around base digits false n := by
  have htext : digits = [] ++ ((minusSign false ++ digits) ++ []) := by simp [minusSign]
  refine .intro ?_ h ?_ htext <;> simp

/-- A text is read as a natural number exactly if it is one. -/
theorem natural?_isSome (hbase : base ≤ 36) (text : List Char) :
    (natural? base text).isSome = true ↔ ∃ n, SpellsNatural base text n := by
  rw [natural?]
  split
  · next hnil =>
    simp only [Option.isSome_none, Bool.false_eq_true, false_iff, not_exists]
    exact fun n h => h.ne_nil (List.isEmpty_iff.mp hnil)
  · next hne =>
    rw [Option.isSome_map, isSome_digits?]
    simp only [Option.isSome_iff_exists, digit?_eq_some_iff hbase]
    constructor
    · exact exists_spellsNatural fun hnil => hne (List.isEmpty_iff.mpr hnil)
    · rintro ⟨_, h⟩
      exact h.isDigitOf

/-- The number that digits are read as: the one they write, as long as it is a double. -/
theorem SpellsNatural.natural?_eq (hpos : 0 < base) (hbase : base ≤ 36)
    (h : SpellsNatural base digits n) :
    ∃ x, natural? base digits = some x ∧ x.isNaN = false ∧ (n < 2 ^ 53 → x = .ofNat n) := by
  obtain ⟨values, hvalues, hlt, hgather⟩ := h.gather_eq hpos hbase
  refine ⟨gather base values, ?_, (isNaN_gather hpos hbase hlt).1, hgather⟩
  rw [natural?, if_neg (by simpa using h.ne_nil), hvalues, Option.map_some]

theorem SpellsNatural.isAlphanum (hbase : base ≤ 36) (h : SpellsNatural base digits n) :
    ∀ c ∈ digits, 48 ≤ c.toNat ∧ c.toNat ≤ 57 ∨ 65 ≤ c.toNat ∧ c.toNat ≤ 90 ∨
      97 ≤ c.toNat ∧ c.toNat ≤ 122 := by
  intro c hc
  obtain ⟨d, hd⟩ := h.isDigitOf c hc
  exact isAlphanum_of_digit? ((digit?_eq_some_iff hbase).mpr hd)

/-- Neither a sign nor a digit is white space. -/
theorem isSpace_of_mem (hbase : base ≤ 36) (h : SpellsNatural base digits n) (negative : Bool) :
    ∀ c ∈ minusSign negative ++ digits, isSpace c = false := by
  intro c hc
  rcases List.mem_append.mp hc with hsign | hdigit
  · cases negative
    · cases hsign
    · obtain rfl := List.mem_singleton.mp hsign
      decide
  · have hrange := h.isAlphanum hbase c hdigit
    simp only [isSpace, Bool.or_eq_false_iff, Bool.and_eq_false_iff, decide_eq_false_iff_not,
      beq_eq_false_iff_ne]
    omega

theorem SpellsNatural.head? (hbase : base ≤ 36) (h : SpellsNatural base digits n) :
    digits.head? ≠ some '-' := by
  intro hhead
  have hrange := h.isAlphanum hbase _ (List.mem_of_head? hhead)
  simp at hrange

/-- An integer is read behind its sign. -/
theorem parseRadix?_eq {text : String} {negative : Bool} {rest : List Char}
    (htrim : trim isSpace text.toList = minusSign negative ++ rest)
    (hhead : negative = false → rest.head? ≠ some '-') :
    parseRadix? base text = (natural? base rest).map (signed negative) := by
  rw [parseRadix?, htrim]
  cases negative with
  | true => rfl
  | false =>
    have hkept : signed false = id := rfl
    simp only [minusSign, Bool.false_eq_true, if_false, List.nil_append, hkept, Option.map_id_apply]
    split
    · exact absurd rfl (hhead rfl)
    · rfl

/-- The white space around an integer is skipped. -/
theorem parseRadix?_spelled (hbase : base ≤ 36) {text : String} {before after : List Char}
    {negative : Bool} (htext : text.toList = before ++ ((minusSign negative ++ digits) ++ after))
    (hbefore : ∀ c ∈ before, isSpace c = true) (hdigits : SpellsNatural base digits n)
    (hafter : ∀ c ∈ after, isSpace c = true) :
    parseRadix? base text = (natural? base digits).map (signed negative) := by
  have htrim := trim_append hbefore hafter (by simp [hdigits.ne_nil])
    (isSpace_of_mem hbase hdigits negative)
  rw [← htext] at htrim
  exact parseRadix?_eq htrim fun _ => hdigits.head? hbase

/-- The number that an integer is read as: the one it writes, as long as it is a double. -/
theorem SpellsInteger.exists_parseRadix? (hpos : 0 < base) (hbase : base ≤ 36) {text : String}
    {negative : Bool} (h : SpellsInteger isSpace base text.toList negative n) :
    ∃ x, parseRadix? base text = some (signed negative x) ∧ x.isNaN = false ∧
      (n < 2 ^ 53 → x = .ofNat n) := by
  obtain ⟨hbefore, hdigits, hafter, htext⟩ := h
  obtain ⟨x, hx, hvalue⟩ := hdigits.natural?_eq hpos hbase
  refine ⟨x, ?_, hvalue⟩
  rw [parseRadix?_spelled hbase htext hbefore hdigits hafter, hx, Option.map_some]

/-- A text is read in a base exactly if it is an integer in that base. -/
theorem isSome_parseRadix? (hpos : 0 < base) (hbase : base ≤ 36) (text : String) :
    (parseRadix? base text).isSome = true ↔
      ∃ negative n, SpellsInteger isSpace base text.toList negative n := by
  constructor
  · intro h
    obtain ⟨before, after, htext, hbefore, hafter⟩ := exists_trim isSpace text.toList
    obtain ⟨negative, rest, htrim, hhead⟩ : ∃ negative rest,
        trim isSpace text.toList = minusSign negative ++ rest ∧
          (negative = false → rest.head? ≠ some '-') := by
      by_cases hminus : (trim isSpace text.toList).head? = some '-'
      · obtain ⟨rest, hrest⟩ := List.head?_eq_some_iff.mp hminus
        exact ⟨true, rest, hrest, nofun⟩
      · exact ⟨false, _, rfl, fun _ => hminus⟩
    rw [parseRadix?_eq htrim hhead, Option.isSome_map, natural?_isSome hbase] at h
    obtain ⟨n, hn⟩ := h
    rw [htrim] at htext
    exact ⟨negative, n, .intro hbefore hn hafter htext⟩
  · rintro ⟨negative, n, h⟩
    obtain ⟨x, hx, -⟩ := h.exists_parseRadix? hpos hbase
    rw [hx, Option.isSome_some]

/-! ## Numerals without a base -/

theorem SpellsNatural.isHexDigit (h : SpellsNatural 16 digits n) : ∀ c ∈ digits, IsHexDigit c := by
  intro c hc
  obtain ⟨d, hd⟩ := h.isDigitOf c hc
  rw [← isSome_digit?, (digit?_eq_some_iff (by norm_num)).mpr hd, Option.isSome_some]

/-- Hexadecimal digits after their mark are read as in base sixteen. -/
theorem parse?_marked {text : String} (h : SpellsNatural 16 text.toList n) :
    parse? ("0x" ++ text) = natural? 16 text.toList := by
  have hbody : SpellsUnsigned ('0' :: 'x' :: text.toList) :=
    .hexadecimal (.inl rfl) h.ne_nil h.isHexDigit
  have htext : ("0x" ++ text).toList = [] ++ (([] ++ '0' :: 'x' :: text.toList) ++ []) := by
    simp
  have hkept : signed false = id := rfl
  rw [parse?_spelled htext nofun (.inl rfl) hbody nofun, unsigned?]
  simp [hkept]

theorem IsDigitOf.decimal {c : Char} {d : ℕ} (h : IsDigitOf 10 c d) :
    c.isDigit = true ∧ c.toNat - '0'.toNat = d := by
  have hread := (digit?_eq_some_iff (by norm_num)).mpr h
  simp only [digit?, char_le_iff, Char.reduceToNat, Option.filter_eq_some_iff,
    decide_eq_true_eq] at hread
  simp only [Char.isDigit_iff_toNat, Char.reduceToNat]
  obtain ⟨hvalue, hlt⟩ := hread
  split_ifs at hvalue <;> obtain rfl := Option.some.inj hvalue <;> omega

/-- The value of decimal digits is the number that they write. -/
theorem SpellsNatural.ofDigitChars_eq (h : SpellsNatural 10 digits n) :
    Nat.ofDigitChars 10 digits 0 = n := by
  rw [Nat.ofDigitChars_eq_foldl]
  induction h with
  | single hc => simpa using hc.decimal.2
  | snoc _ hc ih => rw [List.foldl_concat, ih, hc.decimal.2]

/-- Decimal digits are the number that they write. -/
theorem unsigned?_natural (h : SpellsNatural 10 digits n) (hn : n < 2 ^ 53) :
    unsigned? digits = some (.ofNat n) := by
  have hdigit : ∀ c ∈ digits, c.isDigit = true := fun c hc =>
    (h.isDigitOf c hc).elim fun _ hd => hd.decimal.1
  have hcut : DecimalCut (digits ++ ([] ++ [])) digits [] [] [] :=
    .of_spells hdigit .absent .absent
  have hdecimal : decimal? digits = some (ofDecimal n 0) := by
    have := decimal?_eq hcut
    simp only [List.append_nil] at this
    rw [this, decimalValue_eq, h.ofDigitChars_eq]
    simp [h.ne_nil, exponent?]
  have hvalue : ofDecimal n 0 = .ofNat n := by
    have hratio := Double.ofQuotient_natural (Nat.le_of_lt hn) Nat.one_pos
    rw [Nat.mul_one] at hratio
    by_cases hzero : n = 0
    · simp [ofDecimal, hzero]
    · simp [ofDecimal, hzero, Double.ofRatio, hratio]
  rw [unsigned?_of_decimal? (by rw [hdecimal, Option.isSome_some]), hdecimal, hvalue]

theorem isSpace_of_isBlank {c : Char} (h : isBlank c = true) : isSpace c = true := by
  rcases isBlank_iff.mp h with rfl | rfl | rfl | rfl | rfl <;> decide

/-- Blanks are white space. -/
theorem SpellsInteger.ofBlank {text : List Char} {negative : Bool}
    (h : SpellsInteger isBlank base text negative n) :
    SpellsInteger isSpace base text negative n := by
  obtain ⟨hbefore, hdigits, hafter, htext⟩ := h
  exact .intro (fun c hc => isSpace_of_isBlank (hbefore c hc)) hdigits
    (fun c hc => isSpace_of_isBlank (hafter c hc)) htext

/-- An integer in base ten with blanks around it is read without the base as well. -/
theorem SpellsInteger.parse?_eq {text : String} {negative : Bool}
    (h : SpellsInteger isBlank 10 text.toList negative n) (hn : n < 2 ^ 53) :
    parse? text = some (signed negative (.ofNat n)) := by
  obtain ⟨hbefore, hdigits, hafter, htext⟩ := h
  have hunsigned := unsigned?_natural hdigits hn
  have hbody := (isSome_unsigned? _).mp (by rw [hunsigned, Option.isSome_some])
  have hsign : IsSign (minusSign negative) := by
    cases negative
    · exact .inl rfl
    · exact .inr (.inl rfl)
  rw [parse?_spelled htext hbefore hsign hbody hafter, hunsigned]
  cases negative <;> rfl

end Numeral

end LuaRuntime
