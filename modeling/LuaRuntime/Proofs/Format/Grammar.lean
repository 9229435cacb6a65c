import LuaRuntime.Format.Parse
import LuaRuntime.Number.Digits
import LuaRuntime.Proofs.Text.Split
import Mathlib.Algebra.Group.Nat.Defs
import Mathlib.Data.List.Chain

/-!
# The grammar of format strings

A format string is a sequence of pieces: characters, of which a percent sign is doubled, and
directives after a percent sign.  `Spells` says which texts spell which pieces.  It is a relation,
because a text is cut into its parts in more than one way: zeros in front of a width may be flags
or digits.  Either way they are flags, so a directive says the same.

Segments are *normal* if they are what a format string can say, with the characters gathered into
literals as far as they go.  `write` writes normal segments as a text that spells them.
-/

namespace LuaRuntime

namespace Format

/-! ## Texts and pieces -/

/-- A piece of a format string. -/
inductive Piece where
  | char (c : Char)
  | directive (d : Directive)

/-- Whether a character is a flag. -/
def isFlag (c : Char) : Bool := ['-', '+', ' ', '0', '#'].contains c

/-- The flags among some characters. -/
def flagsOf (text : List Char) : Flags where
  left := text.contains '-'
  plus := text.contains '+'
  space := text.contains ' '
  zero := text.contains '0'
  alternate := text.contains '#'

/-- The number that digits write, if there are any. -/
def value? (digits : List Char) : Option Nat :=
  if digits.isEmpty then none else some (number digits)

/-- A text spells a reference. -/
inductive SpellsReference : List Char → Reference → Prop where
  | next : SpellsReference [] .next
  | position {digits : List Char} :
      digits ≠ [] →
      (∀ c ∈ digits, c.isDigit = true) →
      1 ≤ number digits →
      number digits < 2 ^ 64 →
      SpellsReference (digits ++ ['$']) (.position (number digits))
  | path {fields : List (List Char)} :
      fields ≠ [] →
      (∀ field ∈ fields, field ≠ [] ∧ ')' ∉ field ∧ '.' ∉ field) →
      SpellsReference ('(' :: (['.'].intercalate fields ++ [')']))
        (.path (fields.map String.ofList))

/-- A text spells a precision.  A point alone is precision zero. -/
inductive SpellsPrecision : List Char → Option Nat → Prop where
  | absent : SpellsPrecision [] none
  | present {digits : List Char} :
      (∀ c ∈ digits, c.isDigit = true) →
      digits.length ≤ 2 →
      SpellsPrecision ('.' :: digits) (some (number digits))

/-- A text spells a directive, after its percent sign: a reference, flags, at most two digits for
the width, a precision and a letter.  Zeros in front of the width are flags. -/
inductive SpellsDirective : List Char → Directive → Prop where
  | intro {text flags digits point : List Char} {reference : Reference} {precision : Option Nat}
      {letter : Char} {conversion : Conversion} :
      SpellsReference text reference →
      (∀ c ∈ flags, isFlag c = true) →
      (∀ c ∈ digits, c.isDigit = true) →
      digits.length ≤ 2 →
      SpellsPrecision point precision →
      Conversion.ofLetter? letter = some conversion →
      SpellsDirective (text ++ (flags ++ (digits ++ (point ++ [letter]))))
        { reference
          flags := flagsOf (flags ++ digits.takeWhile (· == '0'))
          width := value? (digits.dropWhile (· == '0'))
          precision
          conversion }

/-- A text spells a piece. -/
inductive SpellsPiece : List Char → Piece → Prop where
  | char {c : Char} : c ≠ '%' → SpellsPiece [c] (.char c)
  | percent : SpellsPiece ['%', '%'] (.char '%')
  | directive {text : List Char} {d : Directive} :
      SpellsDirective text d → SpellsPiece ('%' :: text) (.directive d)

/-- A text spells a sequence of pieces. -/
inductive Spells : List Char → List Piece → Prop where
  | nil : Spells [] []
  | cons {text rest : List Char} {piece : Piece} {pieces : List Piece} :
      SpellsPiece text piece → Spells rest pieces → Spells (text ++ rest) (piece :: pieces)

theorem Spells.append {text rest : List Char} {pieces more : List Piece} (h : Spells text pieces)
    (hrest : Spells rest more) : Spells (text ++ rest) (pieces ++ more) := by
  induction h with
  | nil => exact hrest
  | cons hpiece _ ih =>
    rw [List.append_assoc]
    exact .cons hpiece ih

theorem SpellsPiece.spells {text : List Char} {piece : Piece} (h : SpellsPiece text piece) :
    Spells text [piece] := by
  have hspells := Spells.cons h .nil
  rwa [List.append_nil] at hspells

/-- References by position and by path do not occur together. -/
def Unmixed (pieces : List Piece) : Prop :=
  ¬ ((∃ d n, .directive d ∈ pieces ∧ d.reference = .position n) ∧
    ∃ d fields, .directive d ∈ pieces ∧ d.reference = .path fields)

/-! ## Segments -/

/-- The pieces of a segment. -/
def pieces : Segment → List Piece
  | .literal text => text.map .char
  | .directive d => [.directive d]

/-- Whether a segment is a literal. -/
def isLiteral : Segment → Bool
  | .literal _ => true
  | .directive _ => false

/-- References that can be written. -/
def NormalReference : Reference → Prop
  | .next => True
  | .position n => 1 ≤ n ∧ n < 2 ^ 64
  | .path fields =>
      fields ≠ [] ∧ ∀ field ∈ fields, field ≠ "" ∧ ')' ∉ field.toList ∧ '.' ∉ field.toList

/-- Directives that can be written. -/
structure NormalDirective (d : Directive) : Prop where
  reference : NormalReference d.reference
  width : ∀ n, d.width = some n → 1 ≤ n ∧ n ≤ 99
  precision : ∀ n, d.precision = some n → n ≤ 99

/-- Segments that can be written, with literals as long as they go. -/
structure Normal (segments : List Segment) : Prop where
  literals : ∀ text, .literal text ∈ segments → text ≠ []
  apart : segments.IsChain fun a b => ¬ (isLiteral a = true ∧ isLiteral b = true)
  directives : ∀ d, .directive d ∈ segments → NormalDirective d
  unmixed : Unmixed (segments.flatMap pieces)

/-- Pieces as segments, with the characters gathered into literals. -/
def group : List Piece → List Segment
  | [] => []
  | .char c :: rest => consChar c (group rest)
  | .directive d :: rest => .directive d :: group rest

theorem pieces_consChar (c : Char) (segments : List Segment) :
    (consChar c segments).flatMap pieces = .char c :: segments.flatMap pieces := by
  cases segments with
  | nil => rfl
  | cons first rest => cases first <;> rfl

theorem pieces_group (l : List Piece) : (group l).flatMap pieces = l := by
  induction l with
  | nil => rfl
  | cons piece rest ih =>
    cases piece with
    | char c => rw [group, pieces_consChar, ih]
    | directive d =>
      rw [group, List.flatMap_cons, ih]
      rfl

theorem literal_mem_consChar {c : Char} {segments : List Segment} {text : List Char}
    (h : .literal text ∈ consChar c segments) : text ≠ [] ∨ .literal text ∈ segments := by
  cases segments with
  | nil =>
    cases List.mem_singleton.mp h
    exact Or.inl (List.cons_ne_nil _ _)
  | cons first rest =>
    cases first with
    | literal t =>
      rcases List.mem_cons.mp h with heq | hrest
      · cases heq
        exact Or.inl (List.cons_ne_nil _ _)
      · exact Or.inr (List.mem_cons_of_mem _ hrest)
    | directive d =>
      rcases List.mem_cons.mp h with heq | hrest
      · cases heq
        exact Or.inl (List.cons_ne_nil _ _)
      · exact Or.inr hrest

theorem apart_consChar {c : Char} {segments : List Segment}
    (h : segments.IsChain fun a b => ¬ (isLiteral a = true ∧ isLiteral b = true)) :
    (consChar c segments).IsChain fun a b => ¬ (isLiteral a = true ∧ isLiteral b = true) := by
  cases segments with
  | nil => exact List.isChain_singleton _
  | cons first rest =>
    cases first with
    | literal text =>
      rw [consChar]
      cases rest with
      | nil => exact List.isChain_singleton _
      | cons second rest =>
        rw [List.isChain_cons_cons] at h ⊢
        exact h
    | directive d =>
      refine List.isChain_cons_cons.mpr ⟨?_, h⟩
      intro hboth
      cases hboth.2

theorem literal_mem_group {l : List Piece} {text : List Char} (h : .literal text ∈ group l) :
    text ≠ [] := by
  induction l with
  | nil => cases h
  | cons piece rest ih =>
    cases piece with
    | char c => exact (literal_mem_consChar h).elim id ih
    | directive d =>
      rcases List.mem_cons.mp h with heq | hrest
      · cases heq
      · exact ih hrest

theorem apart_group (l : List Piece) :
    (group l).IsChain fun a b => ¬ (isLiteral a = true ∧ isLiteral b = true) := by
  induction l with
  | nil => exact List.isChain_nil
  | cons piece rest ih =>
    cases piece with
    | char c => exact apart_consChar ih
    | directive d =>
      rw [group]
      cases hrest : group rest with
      | nil => exact List.isChain_singleton _
      | cons first more =>
        rw [hrest] at ih
        refine List.isChain_cons_cons.mpr ⟨?_, ih⟩
        intro hboth
        cases hboth.1

theorem group_literal {text : List Char} (hne : text ≠ []) {l : List Piece}
    (h : ∀ t rest, group l ≠ .literal t :: rest) :
    group (text.map .char ++ l) = .literal text :: group l := by
  induction text with
  | nil => exact absurd rfl hne
  | cons c text ih =>
    rw [List.map_cons, List.cons_append, group]
    cases text with
    | nil =>
      rw [List.map_nil, List.nil_append]
      cases hl : group l with
      | nil => rfl
      | cons first rest =>
        cases first with
        | literal t => exact absurd hl (h t rest)
        | directive d => rfl
    | cons next more => rw [ih (List.cons_ne_nil _ _), consChar]

/-- Grouping the pieces of segments gives them back, if they are grouped already. -/
theorem group_pieces {segments : List Segment}
    (hliterals : ∀ text, .literal text ∈ segments → text ≠ [])
    (hapart : segments.IsChain fun a b => ¬ (isLiteral a = true ∧ isLiteral b = true)) :
    group (segments.flatMap pieces) = segments := by
  induction segments with
  | nil => rfl
  | cons first rest ih =>
    have hrest : group (rest.flatMap pieces) = rest :=
      ih (fun text htext => hliterals text (List.mem_cons_of_mem _ htext)) hapart.tail
    rw [List.flatMap_cons]
    cases first with
    | directive d =>
      show .directive d :: group (rest.flatMap pieces) = _
      rw [hrest]
    | literal text =>
      have hnext : ∀ t more, group (rest.flatMap pieces) ≠ .literal t :: more := by
        intro t more heq
        rw [hrest] at heq
        subst heq
        exact (List.isChain_cons_cons.mp hapart).1 ⟨rfl, rfl⟩
      show group (text.map .char ++ rest.flatMap pieces) = _
      rw [group_literal (hliterals text List.mem_cons_self) hnext, hrest]

/-! ## Numbers -/

theorem number_eq_ofDigitChars (digits : List Char) :
    number digits = Nat.ofDigitChars 10 digits 0 := by
  rw [number, Nat.ofDigitChars_eq_foldl]
  simp only [Nat.mul_comm]

theorem number_cons (c : Char) (digits : List Char) :
    number (c :: digits) = 10 ^ digits.length * (c.toNat - '0'.toNat) + number digits := by
  rw [number_eq_ofDigitChars, number_eq_ofDigitChars, Nat.ofDigitChars_cons,
    Nat.ofDigitChars_eq_ofDigitChars_zero, Nat.mul_zero, Nat.zero_add]

theorem digit_le {c : Char} (h : c.isDigit = true) : c.toNat - '0'.toNat ≤ 9 := by
  have hle : c.toNat ≤ 57 := (Char.isDigit_iff_toNat.mp h).2
  have hzero : '0'.toNat = 48 := rfl
  omega

theorem number_lt {digits : List Char} (h : ∀ c ∈ digits, c.isDigit = true) :
    number digits < 10 ^ digits.length := by
  induction digits with
  | nil => exact Nat.one_pos
  | cons c digits ih =>
    have hrest := ih fun d hd => h d (List.mem_cons_of_mem _ hd)
    have hdigit := Nat.mul_le_mul_left (10 ^ digits.length) (digit_le (h c List.mem_cons_self))
    rw [number_cons, List.length_cons, Nat.pow_succ]
    omega

theorem number_le_of_length {digits : List Char} (h : ∀ c ∈ digits, c.isDigit = true)
    (hlength : digits.length ≤ 2) : number digits ≤ 99 := by
  have hlt := number_lt h
  have hpow : 10 ^ digits.length ≤ 10 ^ 2 := Nat.pow_le_pow_right (by decide) hlength
  omega

theorem number_pos {c : Char} {digits : List Char} (hc : c.isDigit = true) (hzero : c ≠ '0') :
    1 ≤ number (c :: digits) := by
  have hge : 48 ≤ c.toNat := (Char.isDigit_iff_toNat.mp hc).1
  have hne : c.toNat ≠ 48 := fun heq => hzero (Char.toNat_inj.mp heq)
  have hvalue : 1 ≤ c.toNat - '0'.toNat := by
    show 1 ≤ c.toNat - 48
    omega
  rw [number_cons]
  exact Nat.le_trans (Nat.mul_pos (Nat.pow_pos (by decide)) hvalue) (Nat.le_add_right _ _)

theorem number_digits (n : Nat) : number (Decimal.digits n) = n := by
  rw [number_eq_ofDigitChars, Decimal.digits_eq_toDigits, Nat.ofDigitChars_ten_toDigits]

theorem isDigit_of_mem_digits {n : Nat} {c : Char} (h : c ∈ Decimal.digits n) :
    c.isDigit = true := by
  rw [Decimal.digits_eq_toDigits] at h
  exact Nat.isDigit_of_mem_toDigits (by decide) (by decide) h

theorem digits_ne_nil (n : Nat) : Decimal.digits n ≠ [] := by
  rw [Decimal.digits_eq_toDigits]
  exact Nat.toDigits_ne_nil

theorem length_digits_le {n : Nat} (h : n ≤ 99) : (Decimal.digits n).length ≤ 2 := by
  rw [Decimal.digits_eq_toDigits, Nat.length_toDigits_le_iff (by decide) (by decide)]
  omega

/-- The digits of a positive number have no zero in front. -/
theorem takeWhile_digits {n : Nat} (h : 1 ≤ n) : (Decimal.digits n).takeWhile (· == '0') = [] := by
  rw [Decimal.digits_eq_toDigits]
  induction n using Nat.strongRecOn with
  | ind n ih =>
    rw [Nat.toDigits_eq_if (by decide)]
    split
    · next hlt =>
      have hne : Nat.digitChar n ≠ '0' := by
        intro heq
        have hvalue := Nat.toNat_digitChar_sub_48_of_lt_ten hlt
        rw [heq] at hvalue
        have hzero : '0'.toNat - 48 = 0 := rfl
        omega
      simp [hne]
    · have hfirst := ih (n / 10) (by omega) (by omega)
      have hlength : (Nat.toDigits 10 (n / 10)).length ≠ 0 := Nat.ne_of_gt Nat.length_toDigits_pos
      rw [List.takeWhile_append, hfirst, if_neg]
      exact fun hzero => hlength hzero.symm

/-! ## What is spelled is normal -/

theorem SpellsReference.normal {text : List Char} {r : Reference} (h : SpellsReference text r) :
    NormalReference r := by
  cases h with
  | next => trivial
  | position _ _ hpos hlt => exact ⟨hpos, hlt⟩
  | path hne hfields =>
    refine ⟨by simpa using hne, ?_⟩
    intro field hfield
    obtain ⟨part, hpart, rfl⟩ := List.mem_map.mp hfield
    obtain ⟨hempty, hclose, hdot⟩ := hfields part hpart
    rw [String.toList_ofList]
    refine ⟨?_, hclose, hdot⟩
    intro heq
    exact hempty (String.ofList_eq_empty_iff.mp heq)

theorem value?_dropWhile {digits : List Char} (h : ∀ c ∈ digits, c.isDigit = true)
    (hlength : digits.length ≤ 2) {n : Nat} (hn : value? (digits.dropWhile (· == '0')) = some n) :
    1 ≤ n ∧ n ≤ 99 := by
  have hsuffix := List.dropWhile_suffix (l := digits) (· == '0')
  have hstop := List.head?_dropWhile_not (· == '0') digits
  cases hrest : digits.dropWhile (· == '0') with
  | nil =>
    rw [hrest] at hn
    cases hn
  | cons c rest =>
    rw [hrest] at hn hstop hsuffix
    cases hn
    have hdigits : ∀ d ∈ c :: rest, d.isDigit = true := fun d hd => h d (hsuffix.subset hd)
    have hzero : c ≠ '0' := by simpa using hstop
    exact ⟨number_pos (hdigits c List.mem_cons_self) hzero,
      number_le_of_length hdigits (Nat.le_trans hsuffix.length_le hlength)⟩

theorem SpellsDirective.normal {text : List Char} {d : Directive} (h : SpellsDirective text d) :
    NormalDirective d := by
  cases h with
  | intro hreference _ hdigits hlength hprecision _ =>
    refine ⟨hreference.normal, fun n hn => value?_dropWhile hdigits hlength hn, ?_⟩
    intro n hn
    cases hprecision with
    | absent => cases hn
    | present hdigits hlength =>
      cases hn
      exact number_le_of_length hdigits hlength

theorem Spells.normal {text : List Char} {l : List Piece} (h : Spells text l) {d : Directive}
    (hd : .directive d ∈ l) : NormalDirective d := by
  induction h with
  | nil => cases hd
  | cons hpiece _ ih =>
    rcases List.mem_cons.mp hd with rfl | hrest
    · cases hpiece with
      | directive hdirective => exact hdirective.normal
    · exact ih hrest

/-! ## Writing -/

/-- The letter of a conversion. -/
def letter : Conversion → Char
  | .char => 'c'
  | .integer => 'd'
  | .octal => 'o'
  | .unsigned => 'u'
  | .hexadecimal upper => if upper then 'X' else 'x'
  | .exponent upper => if upper then 'E' else 'e'
  | .fixed => 'f'
  | .general upper => if upper then 'G' else 'g'
  | .text => 's'
  | .quoted => 'q'

/-- A reference as a text. -/
def writeReference : Reference → List Char
  | .next => []
  | .position n => Decimal.digits n ++ ['$']
  | .path fields => '(' :: (['.'].intercalate (fields.map String.toList) ++ [')'])

/-- Flags as a text. -/
def writeFlags (flags : Flags) : List Char :=
  (if flags.left then ['-'] else []) ++ (if flags.plus then ['+'] else []) ++
    (if flags.space then [' '] else []) ++ (if flags.zero then ['0'] else []) ++
    (if flags.alternate then ['#'] else [])

/-- A precision as a text. -/
def writePrecision : Option Nat → List Char
  | none => []
  | some n => '.' :: Decimal.digits n

/-- A directive as a text, without its percent sign. -/
def writeDirective (d : Directive) : List Char :=
  writeReference d.reference ++ (writeFlags d.flags ++
    (d.width.elim [] Decimal.digits ++ (writePrecision d.precision ++ [letter d.conversion])))

/-- A character of a literal as a text. -/
def writeChar (c : Char) : List Char := if c = '%' then ['%', '%'] else [c]

/-- A segment as a text. -/
def writeSegment : Segment → List Char
  | .literal text => text.flatMap writeChar
  | .directive d => '%' :: writeDirective d

/-- Segments as a text. -/
def write (segments : List Segment) : List Char := segments.flatMap writeSegment

theorem ofLetter?_letter (c : Conversion) : Conversion.ofLetter? (letter c) = some c := by
  cases c with
  | hexadecimal upper => cases upper <;> rfl
  | exponent upper => cases upper <;> rfl
  | general upper => cases upper <;> rfl
  | _ => rfl

theorem flagsOf_writeFlags (flags : Flags) : flagsOf (writeFlags flags) = flags := by
  obtain ⟨left, plus, space, zero, alternate⟩ := flags
  cases left <;> cases plus <;> cases space <;> cases zero <;> cases alternate <;> rfl

theorem isFlag_of_mem_writeFlags (flags : Flags) : ∀ c ∈ writeFlags flags, isFlag c = true := by
  obtain ⟨left, plus, space, zero, alternate⟩ := flags
  rw [← List.all_eq_true]
  cases left <;> cases plus <;> cases space <;> cases zero <;> cases alternate <;> rfl

theorem spellsReference_write {r : Reference} (h : NormalReference r) :
    SpellsReference (writeReference r) r := by
  cases r with
  | next => exact .next
  | position n =>
    have hspells := SpellsReference.position (digits_ne_nil n) (fun c => isDigit_of_mem_digits)
      (by rw [number_digits]; exact h.1) (by rw [number_digits]; exact h.2)
    rwa [number_digits] at hspells
  | path fields =>
    obtain ⟨hne, hfields⟩ := h
    have hparts : ∀ part ∈ fields.map String.toList, part ≠ [] ∧ ')' ∉ part ∧ '.' ∉ part := by
      intro part hpart
      obtain ⟨field, hfield, rfl⟩ := List.mem_map.mp hpart
      obtain ⟨hempty, hclose, hdot⟩ := hfields field hfield
      exact ⟨fun heq => hempty (String.toList_eq_nil_iff.mp heq), hclose, hdot⟩
    have hspells := SpellsReference.path (by simpa using hne) hparts
    have hback : (fields.map String.toList).map String.ofList = fields := by
      simp [Function.comp_def]
    rwa [hback] at hspells

theorem spellsPrecision_write {p : Option Nat} (h : ∀ n, p = some n → n ≤ 99) :
    SpellsPrecision (writePrecision p) p := by
  cases p with
  | none => exact .absent
  | some n =>
    have hspells := SpellsPrecision.present (fun c => isDigit_of_mem_digits)
      (length_digits_le (h n rfl))
    rwa [number_digits] at hspells

theorem spellsDirective_write {d : Directive} (h : NormalDirective d) :
    SpellsDirective (writeDirective d) d := by
  obtain ⟨reference, flags, width, precision, conversion⟩ := d
  have hwidth : ∀ n, width = some n → 1 ≤ n ∧ n ≤ 99 := h.width
  -- The digits of the width are its own, because none of them is a zero in front.
  have hdigits : ∀ c ∈ width.elim [] Decimal.digits, c.isDigit = true := by
    cases width with
    | none => simp
    | some n => exact fun c => isDigit_of_mem_digits
  have hlength : (width.elim [] Decimal.digits).length ≤ 2 := by
    cases width with
    | none => simp
    | some n => exact length_digits_le (hwidth n rfl).2
  have hzeros : (width.elim [] Decimal.digits).takeWhile (· == '0') = [] := by
    cases width with
    | none => rfl
    | some n => exact takeWhile_digits (hwidth n rfl).1
  have hvalue : value? ((width.elim [] Decimal.digits).dropWhile (· == '0')) = width := by
    have hdrop := List.takeWhile_append_dropWhile (p := (· == '0'))
      (l := width.elim [] Decimal.digits)
    rw [hzeros, List.nil_append] at hdrop
    rw [hdrop]
    cases width with
    | none => rfl
    | some n => simp [value?, digits_ne_nil, number_digits]
  have hspells := SpellsDirective.intro (spellsReference_write h.reference)
    (isFlag_of_mem_writeFlags flags) hdigits hlength (spellsPrecision_write h.precision)
    (ofLetter?_letter conversion)
  rwa [hzeros, List.append_nil, flagsOf_writeFlags, hvalue] at hspells

theorem spells_writeChar (c : Char) : SpellsPiece (writeChar c) (.char c) := by
  rw [writeChar]
  split
  · next hc =>
    subst hc
    exact .percent
  · next hc => exact .char hc

theorem spells_literal (text : List Char) : Spells (text.flatMap writeChar) (text.map .char) := by
  induction text with
  | nil => exact .nil
  | cons c text ih => exact .cons (spells_writeChar c) ih

/-- The text of normal segments spells their pieces. -/
theorem spells_write {segments : List Segment}
    (h : ∀ d, .directive d ∈ segments → NormalDirective d) :
    Spells (write segments) (segments.flatMap pieces) := by
  induction segments with
  | nil => exact .nil
  | cons first rest ih =>
    have hrest := ih fun d hd => h d (List.mem_cons_of_mem _ hd)
    refine Spells.append ?_ hrest
    cases first with
    | literal text => exact spells_literal text
    | directive d =>
      exact (SpellsPiece.directive (spellsDirective_write (h d List.mem_cons_self))).spells

end Format

end LuaRuntime
