import LuaRuntime.Number.Numeral
import LuaRuntime.Proofs.Format.Reading
import LuaRuntime.Proofs.Number.Literal
import Mathlib.Data.Nat.Digits.Defs
import Mathlib.Tactic.Ring

/-!
# The grammar of numerals

`Numeral.Spells` says which texts are numerals: blanks, a sign, hexadecimal digits after `0x` or
decimal digits with a point and an exponent part, and blanks again.  `Numeral.parse?` reads a text
exactly if it is one (`isSome_parse?`).

A decimal numeral taken apart as a `Decimal.Literal` is read as the double of its digits and its
power of ten (`parse?_literal`), as long as its exponent stays below the bound at which reading it
stops.
-/

namespace LuaRuntime

namespace Numeral

/-! ## Texts -/

/-- A sign, or nothing. -/
def IsSign (text : List Char) : Prop := text = [] ∨ text = ['-'] ∨ text = ['+']

/-- A digit of base sixteen, a letter in either case. -/
def IsHexDigit (c : Char) : Prop :=
  ('0' ≤ c ∧ c ≤ '9') ∨ ('a' ≤ c ∧ c ≤ 'f') ∨ ('A' ≤ c ∧ c ≤ 'F')

/-- A text is a point with digits after it, or nothing. -/
inductive SpellsDecimals : List Char → List Char → Prop where
  | absent : SpellsDecimals [] []
  | present {digits : List Char} :
      (∀ c ∈ digits, c.isDigit = true) → SpellsDecimals ('.' :: digits) digits

/-- A text is an exponent part, or nothing. -/
inductive SpellsExponent : List Char → Prop where
  | absent : SpellsExponent []
  | present {mark : Char} {sign digits : List Char} :
      (mark = 'e' ∨ mark = 'E') →
      IsSign sign →
      digits ≠ [] →
      (∀ c ∈ digits, c.isDigit = true) →
      SpellsExponent (mark :: (sign ++ digits))

/-- A text is a numeral without a sign.  A decimal one has a digit before the point or after it. -/
inductive SpellsUnsigned : List Char → Prop where
  | hexadecimal {mark : Char} {digits : List Char} :
      (mark = 'x' ∨ mark = 'X') →
      digits ≠ [] →
      (∀ c ∈ digits, IsHexDigit c) →
      SpellsUnsigned ('0' :: mark :: digits)
  | decimal {whole fraction decimals exponent : List Char} :
      (∀ c ∈ whole, c.isDigit = true) →
      SpellsDecimals fraction decimals →
      whole ++ decimals ≠ [] →
      SpellsExponent exponent →
      SpellsUnsigned (whole ++ (fraction ++ exponent))

/-- A text is a numeral, with blanks around it. -/
inductive Spells : List Char → Prop where
  | intro {before sign body after : List Char} :
      (∀ c ∈ before, isBlank c = true) →
      IsSign sign →
      SpellsUnsigned body →
      (∀ c ∈ after, isBlank c = true) →
      Spells (before ++ ((sign ++ body) ++ after))

/-! ## Signs -/

/-- A text cut behind its sign.  No sign follows one that is left out. -/
structure SignCut (text sign rest : List Char) : Prop where
  text_eq : text = sign ++ rest
  isSign : IsSign sign
  stop : sign = [] → rest.head? ≠ some '-' ∧ rest.head? ≠ some '+'

theorem exists_signCut (text : List Char) : ∃ sign rest, SignCut text sign rest := by
  by_cases hminus : text.head? = some '-'
  · obtain ⟨rest, rfl⟩ := List.head?_eq_some_iff.mp hminus
    exact ⟨['-'], rest, rfl, .inr (.inl rfl), nofun⟩
  · by_cases hplus : text.head? = some '+'
    · obtain ⟨rest, rfl⟩ := List.head?_eq_some_iff.mp hplus
      exact ⟨['+'], rest, rfl, .inr (.inr rfl), nofun⟩
    · exact ⟨[], text, rfl, .inl rfl, fun _ => ⟨hminus, hplus⟩⟩

theorem signCut_append {sign rest : List Char} (hsign : IsSign sign)
    (hstop : ∀ c, rest.head? = some c → c ≠ '-' ∧ c ≠ '+') : SignCut (sign ++ rest) sign rest where
  text_eq := rfl
  isSign := hsign
  stop _ := ⟨fun hc => (hstop _ hc).1 rfl, fun hc => (hstop _ hc).2 rfl⟩

theorem ne_sign_of_isDigit {c : Char} (h : c.isDigit = true) : c ≠ '-' ∧ c ≠ '+' := by
  constructor <;> rintro rfl <;> exact absurd h (by decide)

/-! ## Exponent parts -/

theorem SpellsExponent.head? {text : List Char} (h : SpellsExponent text) {c : Char}
    (hc : text.head? = some c) : c = 'e' ∨ c = 'E' := by
  cases h with
  | absent => cases hc
  | present hmark =>
    obtain rfl := Option.some.inj hc
    exact hmark

/-- The sign and the digits of an exponent part. -/
theorem exponent?_eq {mark : Char} {text sign digits : List Char} (hmark : mark = 'e' ∨ mark = 'E')
    (h : SignCut text sign digits) :
    exponent? (mark :: text) =
      if digits.isEmpty || !digits.all Char.isDigit then none
      else some (if sign = ['-'] then -(exponentValue digits : Int) else exponentValue digits) := by
  have hletter : (mark == 'e' || mark == 'E') = true := by simpa using hmark
  obtain ⟨rfl, rfl | rfl | rfl, hstop⟩ := h
  · simp only [exponent?, hletter, if_true, List.nil_append]
    split
    · exact absurd rfl (hstop rfl).1
    · exact absurd rfl (hstop rfl).2
    · simp
  · simp [exponent?, hletter]
  · simp [exponent?, hletter]

theorem isSome_exponent? (text : List Char) :
    (exponent? text).isSome = true ↔ SpellsExponent text := by
  constructor
  · intro h
    cases text with
    | nil => exact .absent
    | cons mark text =>
      by_cases hmark : mark = 'e' ∨ mark = 'E'
      · obtain ⟨sign, digits, hcut⟩ := exists_signCut text
        rw [exponent?_eq hmark hcut] at h
        split at h
        · cases h
        · next hdigits =>
          simp only [Bool.or_eq_true, Bool.not_eq_true', not_or, List.isEmpty_iff,
            Bool.not_eq_false, List.all_eq_true] at hdigits
          rw [hcut.text_eq]
          exact .present hmark hcut.isSign hdigits.1 hdigits.2
      · simp [exponent?, hmark] at h
  · intro h
    cases h with
    | absent => rfl
    | @present mark sign digits hmark hsign hne hdigits =>
      have hstop (c : Char) (hc : digits.head? = some c) :=
        ne_sign_of_isDigit (hdigits c (List.mem_of_head? hc))
      have hall : ¬ (digits.isEmpty || !digits.all Char.isDigit) = true := by
        simpa [hne] using hdigits
      rw [exponent?_eq hmark (signCut_append hsign hstop), if_neg hall]
      rfl

/-! ## Decimal numerals -/

/-- A text cut into digits, a point and digits after it, and what follows. -/
structure DecimalCut (text whole fraction decimals rest : List Char) : Prop where
  text_eq : text = whole ++ (fraction ++ rest)
  whole_digits : ∀ c ∈ whole, c.isDigit = true
  spells_fraction : SpellsDecimals fraction decimals
  no_digit : ∀ c, rest.head? = some c → c.isDigit = false
  no_point : fraction = [] → rest.head? ≠ some '.'

theorem exists_decimalCut (text : List Char) :
    ∃ whole fraction decimals rest, DecimalCut text whole fraction decimals rest := by
  have htext : text = text.takeWhile Char.isDigit ++ text.dropWhile Char.isDigit :=
    List.takeWhile_append_dropWhile.symm
  have hwhole := Format.of_mem_takeWhile Char.isDigit text
  by_cases hpoint : (text.dropWhile Char.isDigit).head? = some '.'
  · obtain ⟨rest, hrest⟩ := List.head?_eq_some_iff.mp hpoint
    refine ⟨_, _, rest.takeWhile Char.isDigit, rest.dropWhile Char.isDigit, ?_, hwhole,
      .present (Format.of_mem_takeWhile _ _), fun c => Format.head?_dropWhile, nofun⟩
    rw [List.cons_append, List.takeWhile_append_dropWhile, ← hrest]
    exact htext
  · exact ⟨_, _, _, _, htext, hwhole, .absent, fun c => Format.head?_dropWhile, fun _ => hpoint⟩

theorem decimal?_eq {text whole fraction decimals rest : List Char}
    (h : DecimalCut text whole fraction decimals rest) :
    decimal? text =
      if whole.isEmpty && decimals.isEmpty then none
      else (exponent? rest).map fun power =>
        ofDecimal (decimalValue (whole ++ decimals)) (power - decimals.length) := by
  obtain ⟨rfl, hwhole, hfraction, hdigit, hpoint⟩ := h
  cases hfraction with
  | absent =>
    obtain ⟨htake, hdrop⟩ := Format.takeWhile_run hwhole hdigit
    simp only [List.nil_append, decimal?, htake, hdrop]
    split
    · exact absurd rfl (hpoint rfl)
    · rfl
  | present hdigits =>
    have hmark : ∀ c, ('.' :: (decimals ++ rest)).head? = some c → c.isDigit = false := by
      rintro c ⟨⟩
      rfl
    obtain ⟨htake, hdrop⟩ := Format.takeWhile_run hwhole hmark
    obtain ⟨htake', hdrop'⟩ := Format.takeWhile_run hdigits hdigit
    simp only [List.cons_append, decimal?, htake, hdrop, htake', hdrop']

theorem DecimalCut.of_spells {whole fraction decimals exponent : List Char}
    (hwhole : ∀ c ∈ whole, c.isDigit = true) (hfraction : SpellsDecimals fraction decimals)
    (hexponent : SpellsExponent exponent) :
    DecimalCut (whole ++ (fraction ++ exponent)) whole fraction decimals exponent where
  text_eq := rfl
  whole_digits := hwhole
  spells_fraction := hfraction
  no_digit c hc := by rcases hexponent.head? hc with rfl | rfl <;> rfl
  no_point _ hc := by rcases hexponent.head? hc with h | h <;> cases h

theorem isSome_decimal?_iff {text whole fraction decimals rest : List Char}
    (h : DecimalCut text whole fraction decimals rest) :
    (decimal? text).isSome = true ↔ whole ++ decimals ≠ [] ∧ SpellsExponent rest := by
  rw [decimal?_eq h, ← isSome_exponent?]
  split
  · next hnone =>
    refine iff_of_false nofun fun hsome => hsome.1 ?_
    simpa using hnone
  · next hsome =>
    rw [Option.isSome_map]
    refine (and_iff_right fun hnone => hsome ?_).symm
    simpa using hnone

/-! ## Hexadecimal numerals -/

theorem isSome_digit? (c : Char) : (digit? 16 c).isSome = true ↔ IsHexDigit c := by
  have hle (a b : Char) : a ≤ b ↔ a.toNat ≤ b.toNat := by
    rw [Char.le_def, UInt32.le_iff_toNat_le]
    rfl
  simp only [digit?, IsHexDigit, hle, Char.reduceToNat]
  split_ifs with hdigit hlower hupper
  all_goals
    simp only [Option.filter_some, Option.filter_none, Option.isSome_none, Option.isSome_ite,
      Bool.false_eq_true, decide_eq_true_eq, false_iff]
    omega

theorem isSome_digits? (base : ℕ) (text : List Char) :
    (digits? base text).isSome = true ↔ ∀ c ∈ text, (digit? base c).isSome = true := by
  rw [digits?]
  induction text with
  | nil => simp
  | cons c text ih =>
    rw [List.mapM_cons, List.forall_mem_cons, ← ih]
    cases digit? base c with
    | none => simp
    | some value => cases text.mapM (digit? base) <;> simp

theorem isSome_natural? (text : List Char) :
    (natural? 16 text).isSome = true ↔ text ≠ [] ∧ ∀ c ∈ text, IsHexDigit c := by
  rw [natural?]
  split
  · next hnil => simpa using fun h => absurd (List.isEmpty_iff.mp hnil) h
  · next hne =>
    rw [Option.isSome_map, isSome_digits?]
    simp only [isSome_digit?]
    exact (and_iff_right fun hnil => hne (List.isEmpty_iff.mpr hnil)).symm

/-! ## Numerals -/

/-- The mark of hexadecimal digits does not stand in a decimal numeral. -/
theorem decimal?_mark {mark : Char} (hmark : mark = 'x' ∨ mark = 'X') (digits : List Char) :
    decimal? ('0' :: mark :: digits) = none := by
  rcases hmark with rfl | rfl <;> simp [decimal?, exponent?]

theorem unsigned?_of_decimal? {text : List Char} (h : (decimal? text).isSome = true) :
    unsigned? text = decimal? text := by
  rw [unsigned?.eq_def]
  split
  · rw [decimal?_mark (.inl rfl)] at h
    cases h
  · rw [decimal?_mark (.inr rfl)] at h
    cases h
  · rfl

theorem isSome_unsigned? (text : List Char) :
    (unsigned? text).isSome = true ↔ SpellsUnsigned text := by
  constructor
  · intro h
    rw [unsigned?.eq_def] at h
    split at h
    · obtain ⟨hne, hdigits⟩ := (isSome_natural? _).mp h
      exact .hexadecimal (.inl rfl) hne hdigits
    · obtain ⟨hne, hdigits⟩ := (isSome_natural? _).mp h
      exact .hexadecimal (.inr rfl) hne hdigits
    · obtain ⟨whole, fraction, decimals, rest, hcut⟩ := exists_decimalCut text
      obtain ⟨hsome, hrest⟩ := (isSome_decimal?_iff hcut).mp h
      rw [hcut.text_eq]
      exact .decimal hcut.whole_digits hcut.spells_fraction hsome hrest
  · intro h
    cases h with
    | hexadecimal hmark hne hdigits =>
      have hsome := (isSome_natural? _).mpr ⟨hne, hdigits⟩
      rcases hmark with rfl | rfl <;> exact hsome
    | decimal hwhole hfraction hsome hexponent =>
      have hdecimal := (isSome_decimal?_iff (.of_spells hwhole hfraction hexponent)).mpr
        ⟨hsome, hexponent⟩
      rwa [unsigned?_of_decimal? hdecimal]

/-! ## Blanks -/

theorem trim_eq (skip : Char → Bool) (text : List Char) :
    trim skip text = (text.dropWhile skip).rdropWhile skip := rfl

/-- What is taken off at both ends. -/
theorem exists_trim (skip : Char → Bool) (text : List Char) :
    ∃ before after, text = before ++ (trim skip text ++ after) ∧
      (∀ c ∈ before, skip c = true) ∧ ∀ c ∈ after, skip c = true := by
  refine ⟨text.takeWhile skip, (text.dropWhile skip).rtakeWhile skip, ?_,
    Format.of_mem_takeWhile skip text, fun c hc => List.mem_rtakeWhile_imp hc⟩
  rw [trim_eq, List.rdropWhile_append_rtakeWhile, List.takeWhile_append_dropWhile]

theorem trim_append {skip : Char → Bool} {before core after : List Char}
    (hbefore : ∀ c ∈ before, skip c = true) (hafter : ∀ c ∈ after, skip c = true)
    (hne : core ≠ []) (hcore : ∀ c ∈ core, skip c = false) :
    trim skip (before ++ (core ++ after)) = core := by
  have hstart : (before ++ (core ++ after)).dropWhile skip = core ++ after := by
    refine (Format.takeWhile_run hbefore fun c hc => hcore c ?_).2
    rw [List.head?_append_of_ne_nil _ hne] at hc
    exact List.mem_of_head? hc
  have hend : (after.reverse ++ core.reverse).dropWhile skip = core.reverse := by
    refine (Format.takeWhile_run (fun c hc => hafter c (List.mem_reverse.mp hc)) ?_).2
    intro c hc
    exact hcore c (List.mem_reverse.mp (List.mem_of_head? hc))
  rw [trim, hstart, List.reverse_append, hend, List.reverse_reverse]

theorem isBlank_iff {c : Char} :
    isBlank c = true ↔ c = ' ' ∨ c = '\t' ∨ c = '\n' ∨ c = '\x0c' ∨ c = '\r' := by
  simp [isBlank, or_assoc]

theorem isBlank_of_isDigit {c : Char} (h : c.isDigit = true) : isBlank c = false := by
  rw [← Bool.not_eq_true, isBlank_iff]
  rintro (rfl | rfl | rfl | rfl | rfl) <;> exact absurd h (by decide)

theorem isBlank_of_isHexDigit {c : Char} (h : IsHexDigit c) : isBlank c = false := by
  rw [← Bool.not_eq_true, isBlank_iff]
  rintro (rfl | rfl | rfl | rfl | rfl) <;> exact absurd h (by rw [IsHexDigit]; decide)

theorem IsSign.isBlank {sign : List Char} (h : IsSign sign) : ∀ c ∈ sign, isBlank c = false := by
  rcases h with rfl | rfl | rfl <;> simp [Numeral.isBlank]

theorem SpellsDecimals.isBlank {fraction decimals : List Char}
    (h : SpellsDecimals fraction decimals) : ∀ c ∈ fraction, isBlank c = false := by
  cases h with
  | absent => exact fun c hc => absurd hc List.not_mem_nil
  | present hdigits =>
    exact List.forall_mem_cons.mpr ⟨rfl, fun c hc => isBlank_of_isDigit (hdigits c hc)⟩

theorem SpellsExponent.isBlank {text : List Char} (h : SpellsExponent text) :
    ∀ c ∈ text, isBlank c = false := by
  cases h with
  | absent => exact fun c hc => absurd hc List.not_mem_nil
  | present hmark hsign _ hdigits =>
    refine List.forall_mem_cons.mpr ⟨?_, List.forall_mem_append.mpr ⟨hsign.isBlank, ?_⟩⟩
    · rcases hmark with rfl | rfl <;> rfl
    · exact fun c hc => isBlank_of_isDigit (hdigits c hc)

theorem SpellsUnsigned.isBlank {text : List Char} (h : SpellsUnsigned text) :
    ∀ c ∈ text, isBlank c = false := by
  cases h with
  | hexadecimal hmark _ hdigits =>
    refine List.forall_mem_cons.mpr ⟨rfl, List.forall_mem_cons.mpr ⟨?_, ?_⟩⟩
    · rcases hmark with rfl | rfl <;> rfl
    · exact fun c hc => isBlank_of_isHexDigit (hdigits c hc)
  | decimal hwhole hfraction _ hexponent =>
    refine List.forall_mem_append.mpr ⟨fun c hc => isBlank_of_isDigit (hwhole c hc), ?_⟩
    exact List.forall_mem_append.mpr ⟨hfraction.isBlank, hexponent.isBlank⟩

/-- A numeral without a sign begins with a digit or a point. -/
theorem SpellsUnsigned.head {text : List Char} (h : SpellsUnsigned text) :
    ∃ c rest, text = c :: rest ∧ (c.isDigit = true ∨ c = '.') := by
  cases h with
  | hexadecimal => exact ⟨_, _, rfl, .inl rfl⟩
  | @decimal whole fraction decimals exponent hwhole hfraction hsome =>
    cases whole with
    | cons c whole => exact ⟨c, _, rfl, .inl (hwhole c List.mem_cons_self)⟩
    | nil =>
      cases hfraction with
      | absent => exact absurd rfl hsome
      | present => exact ⟨_, _, rfl, .inr rfl⟩

/-! ## Texts of numbers -/

theorem parse?_eq {text : String} {sign rest : List Char}
    (h : SignCut (trim isBlank text.toList) sign rest) :
    parse? text = (unsigned? rest).map (signed (sign = ['-'])) := by
  have hkept : signed false = id := rfl
  obtain ⟨htext, hsign, hstop⟩ := h
  rw [parse?, htext]
  rcases hsign with rfl | rfl | rfl
  · simp only [List.nil_append]
    split
    · exact absurd rfl (hstop rfl).1
    · exact absurd rfl (hstop rfl).2
    · simp [hkept]
  · simp
  · simp [hkept]

theorem signCut_spelled {sign body : List Char} (hsign : IsSign sign)
    (hbody : SpellsUnsigned body) : SignCut (sign ++ body) sign body := by
  obtain ⟨first, rest, rfl, hfirst⟩ := hbody.head
  refine signCut_append hsign fun c hc => ?_
  obtain rfl := Option.some.inj hc
  rcases hfirst with hdigit | rfl
  · exact ne_sign_of_isDigit hdigit
  · decide

/-- The blanks around a numeral are skipped, and its sign is read first. -/
theorem parse?_spelled {text : String} {before sign body after : List Char}
    (htext : text.toList = before ++ ((sign ++ body) ++ after))
    (hbefore : ∀ c ∈ before, isBlank c = true) (hsign : IsSign sign) (hbody : SpellsUnsigned body)
    (hafter : ∀ c ∈ after, isBlank c = true) :
    parse? text = (unsigned? body).map (signed (sign = ['-'])) := by
  have hne : sign ++ body ≠ [] := by
    obtain ⟨c, rest, rfl, -⟩ := hbody.head
    simp
  have htrim := trim_append hbefore hafter hne
    (List.forall_mem_append.mpr ⟨hsign.isBlank, hbody.isBlank⟩)
  rw [← htext] at htrim
  exact parse?_eq (htrim ▸ signCut_spelled hsign hbody)

/-- A text is read exactly if it is a numeral. -/
theorem isSome_parse? (text : String) : (parse? text).isSome = true ↔ Spells text.toList := by
  constructor
  · intro h
    obtain ⟨before, after, htext, hbefore, hafter⟩ := exists_trim isBlank text.toList
    obtain ⟨sign, rest, hcut⟩ := exists_signCut (trim isBlank text.toList)
    rw [parse?_eq hcut, Option.isSome_map, isSome_unsigned?] at h
    rw [htext, hcut.text_eq]
    exact .intro hbefore hcut.isSign h hafter
  · intro h
    generalize htext : text.toList = chars at h
    obtain ⟨hbefore, hsign, hbody, hafter⟩ := h
    rw [parse?_spelled htext hbefore hsign hbody hafter, Option.isSome_map]
    exact (isSome_unsigned? _).mpr hbody

/-! ## Values of digits -/

/-- Digits joined in pairs write the same number in the square of the base. -/
theorem ofDigits_joinPairs (base : ℕ) (digits : List ℕ) :
    Nat.ofDigits (base * base) (joinPairs base digits) = Nat.ofDigits base digits := by
  fun_induction joinPairs base digits with
  | case1 low high rest ih =>
    simp only [Nat.ofDigits_cons, ih]
    ring
  | case2 rest hrest =>
    cases rest with
    | nil => rfl
    | cons digit rest =>
      cases rest with
      | nil => simp
      | cons next rest => exact absurd rfl (hrest _ _ _)

theorem joinDigits_eq (passes base : ℕ) (digits : List ℕ) :
    joinDigits passes base digits = Nat.ofDigits base digits := by
  induction passes generalizing base digits with
  | zero =>
    rw [joinDigits, Nat.ofDigits_eq_foldr]
    rfl
  | succ passes ih =>
    match digits with
    | [] => rfl
    | [digit] => simp [joinDigits]
    | low :: high :: rest => exact (ih _ _).trans (ofDigits_joinPairs _ _)

/-- Joining digits does not show: the number is that of one digit after the other. -/
theorem decimalValue_eq (text : List Char) : decimalValue text = Nat.ofDigitChars 10 text 0 := by
  rw [decimalValue, joinDigits_eq, Nat.ofDigits_eq_foldr, List.map_reverse, List.foldr_reverse,
    List.foldl_map, Nat.ofDigitChars_eq_foldl]
  congr 1
  funext sum c
  exact Nat.add_comm _ _

/-- An exponent below the bound is read to its end. -/
theorem exponentValue_eq {digits : List Char} (h : Nat.ofDigitChars 10 digits 0 < exponentBound) :
    exponentValue digits = Nat.ofDigitChars 10 digits 0 := by
  rw [exponentValue]
  generalize 0 = start at h ⊢
  induction digits generalizing start with
  | nil => rfl
  | cons c digits ih =>
    rw [Nat.ofDigitChars_cons] at h ⊢
    have hstart : start < exponentBound := by
      rw [Nat.ofDigitChars_eq_ofDigitChars_zero] at h
      have hpow : 0 < 10 ^ digits.length := Nat.pow_pos (by norm_num)
      have hle := Nat.le_mul_of_pos_left (10 * start + (c.toNat - '0'.toNat)) hpow
      omega
    rw [List.foldl_cons, if_pos hstart, Nat.mul_comm start]
    exact ih _ h

/-! ## Numerals by their parts -/

section

open Decimal

variable {l : Literal}

theorem isSign_literal (negative : Bool) : IsSign (if negative then ['-'] else []) := by
  cases negative with
  | true => exact .inr (.inl rfl)
  | false => exact .inl rfl

theorem spellsDecimals_literal (h : l.WellFormed) :
    SpellsDecimals (Literal.decimalsText l.decimals) l.places := by
  obtain ⟨negative, whole, decimals, mark⟩ := l
  cases decimals with
  | none => exact .absent
  | some digits => exact .present h.places

/-- The exponent part of a numeral. -/
theorem exponent?_markText (h : l.WellFormed)
    (hbound : ∀ m, l.mark = some m → Nat.ofDigitChars 10 m.digits 0 < exponentBound) :
    exponent? (Literal.markText l.mark) = some l.power := by
  obtain ⟨negative, whole, decimals, mark⟩ := l
  cases mark with
  | none => rfl
  | some m =>
    obtain ⟨hne, hdigits⟩ := h.mark m rfl
    have hmark : (if m.upper then 'E' else 'e') = 'e' ∨ (if m.upper then 'E' else 'e') = 'E' := by
      cases m.upper <;> simp
    have hsign : IsSign [if m.negative then '-' else '+'] := by
      cases m.negative <;> simp [IsSign]
    have hcut := signCut_append hsign fun c hc =>
      ne_sign_of_isDigit (hdigits c (List.mem_of_head? hc))
    have hall : ¬ (m.digits.isEmpty || !m.digits.all Char.isDigit) = true := by
      simpa [hne] using hdigits
    refine (exponent?_eq hmark hcut).trans ?_
    show _ = some m.power
    rw [if_neg hall, exponentValue_eq (hbound m rfl), Decimal.Mark.power]
    cases m.negative <;> simp

/-- A decimal numeral is read as the double of its digits and its power of ten. -/
theorem parse?_literal (h : l.WellFormed)
    (hbound : ∀ m, l.mark = some m → Nat.ofDigitChars 10 m.digits 0 < exponentBound) :
    parse? (String.ofList l.text) = some (signed l.negative
      (ofDecimal (Nat.ofDigitChars 10 (l.whole ++ l.places) 0) (l.power - l.places.length))) := by
  have hexponent := exponent?_markText h hbound
  have hspells := (isSome_exponent? _).mp (Option.isSome_of_eq_some hexponent)
  have hfraction := spellsDecimals_literal h
  have hsome : l.whole ++ l.places ≠ [] := by simp [h.whole_ne_nil]
  have hcut := DecimalCut.of_spells h.whole hfraction hspells
  have hdecimal := (isSome_decimal?_iff hcut).mpr ⟨hsome, hspells⟩
  have hempty : ¬ (l.whole.isEmpty && l.places.isEmpty) = true := by simpa using hsome
  have htext : (String.ofList l.text).toList =
      [] ++ (((if l.negative then ['-'] else []) ++
        (l.whole ++ (Literal.decimalsText l.decimals ++ Literal.markText l.mark))) ++ []) := by
    rw [String.toList_ofList, List.append_nil]
    rfl
  rw [parse?_spelled htext nofun (isSign_literal l.negative)
      (.decimal h.whole hfraction hsome hspells) nofun,
    unsigned?_of_decimal? hdecimal, decimal?_eq hcut, if_neg hempty, hexponent, decimalValue_eq]
  cases l.negative <;> rfl

end

end Numeral

end LuaRuntime
