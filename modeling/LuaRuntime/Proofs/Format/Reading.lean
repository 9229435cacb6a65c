import LuaRuntime.Proofs.Format.Grammar

/-!
# Reading format strings by their grammar

Each reader of a part takes the longest run of its characters, and so each reader is determined by
`takeWhile` and `dropWhile`.  A part that the grammar allows is such a run, because what follows it
begins with a character of another kind.  From this each reader reads a text if and only if the
grammar spells it: a directive that is read is spelled (`directive_eq_ok`), one that is spelled is
read (`SpellsDirective.directive_eq`), and both together give it for whole formats
(`parseSegments_eq_ok_iff`).
-/

namespace LuaRuntime

namespace Format

/-! ## Runs of characters -/

/-- A run ends where a character of another kind follows. -/
theorem takeWhile_run {p : Char → Bool} {run rest : List Char} (h : ∀ c ∈ run, p c = true)
    (hstop : ∀ c, rest.head? = some c → p c = false) :
    (run ++ rest).takeWhile p = run ∧ (run ++ rest).dropWhile p = rest := by
  rw [List.takeWhile_append_of_pos h, List.dropWhile_append_of_pos h]
  cases rest with
  | nil => simp
  | cons c rest => simp [hstop c rfl]

theorem of_mem_takeWhile (p : Char → Bool) (text : List Char) :
    ∀ c ∈ text.takeWhile p, p c = true := by
  rw [← List.all_eq_true]
  exact List.all_takeWhile

/-- What follows the longest run begins with a character of another kind. -/
theorem head?_dropWhile {p : Char → Bool} {text : List Char} {c : Char}
    (h : (text.dropWhile p).head? = some c) : p c = false := by
  have hnot := List.head?_dropWhile_not p text
  rwa [h] at hnot

theorem bind_eq_ok {ε α β : Type} {x : Except ε α} {f : α → Except ε β} {b : β} :
    (x >>= f) = .ok b ↔ ∃ a, x = .ok a ∧ f a = .ok b := by
  constructor
  · intro h
    cases x with
    | error e => cases h
    | ok a => exact ⟨a, rfl, h⟩
  · rintro ⟨a, rfl, h⟩
    exact h

theorem map_eq_ok {ε α β : Type} {x : Except ε α} {f : α → β} {b : β} :
    x.map f = .ok b ↔ ∃ a, x = .ok a ∧ f a = b := by
  cases x with
  | error e => simp [Except.map]
  | ok a => simp [Except.map]

/-! ## References -/

theorem mem_intercalate {mark c : Char} {parts : List (List Char)} {part : List Char}
    (hpart : part ∈ parts) (hc : c ∈ part) : c ∈ [mark].intercalate parts := by
  induction parts with
  | nil => cases hpart
  | cons first rest ih =>
    cases rest with
    | nil =>
      rw [List.mem_singleton.mp hpart] at hc
      rwa [List.intercalate_singleton]
    | cons next more =>
      rw [List.intercalate_cons_cons, List.append_assoc, List.mem_append]
      rcases List.mem_cons.mp hpart with rfl | hrest
      · exact Or.inl hc
      · exact Or.inr (List.mem_append_right _ (ih hrest))

theorem not_mem_intercalate {mark c : Char} {parts : List (List Char)} (hmark : c ≠ mark)
    (h : ∀ part ∈ parts, c ∉ part) : c ∉ [mark].intercalate parts := by
  induction parts with
  | nil => exact List.not_mem_nil
  | cons first rest ih =>
    have hfirst := h first List.mem_cons_self
    have hrest := ih fun part hpart => h part (List.mem_cons_of_mem _ hpart)
    cases rest with
    | nil => rwa [List.intercalate_singleton]
    | cons next more =>
      rw [List.intercalate_cons_cons]
      simp [hfirst, hmark, hrest]

theorem pathReference_eq_ok {text rest : List Char} {r : Reference}
    (h : pathReference text = .ok (r, rest)) :
    ∃ used, SpellsReference ('(' :: used) r ∧ text = used ++ rest := by
  have hsplit := List.takeWhile_append_dropWhile (p := (· != ')')) (l := text)
  rw [pathReference] at h
  cases hdrop : text.dropWhile (· != ')') with
  | nil =>
    rw [hdrop] at h
    cases h
  | cons c tail =>
    have hclose : c = ')' := by simpa using head?_dropWhile (p := (· != ')')) (by rw [hdrop]; rfl)
    subst hclose
    rw [hdrop] at h hsplit
    dsimp only at h
    split at h
    · cases h
    · next hempty =>
      cases h
      have hfields : ∀ field ∈ splitAtChar '.' (text.takeWhile (· != ')')),
          field ≠ [] ∧ ')' ∉ field ∧ '.' ∉ field := by
        intro field hfield
        refine ⟨?_, ?_, not_mem_of_mem_splitAtChar hfield⟩
        · rintro rfl
          exact hempty (List.any_eq_true.mpr ⟨[], hfield, rfl⟩)
        · intro hmem
          have hname : ')' ∈ ['.'].intercalate (splitAtChar '.' (text.takeWhile (· != ')'))) :=
            mem_intercalate hfield hmem
          rw [intercalate_splitAtChar] at hname
          simpa using of_mem_takeWhile _ _ _ hname
      have hspells := SpellsReference.path (splitAtChar_ne_nil '.' _) hfields
      rw [intercalate_splitAtChar] at hspells
      refine ⟨_, hspells, ?_⟩
      rw [List.append_assoc]
      exact hsplit.symm

theorem positionReference_eq_ok {digits text rest : List Char} {r : Reference}
    (h : positionReference digits text = .ok (r, rest)) :
    r = .position (number digits) ∧ rest = text ∧ 1 ≤ number digits ∧ number digits < 2 ^ 64 := by
  rw [positionReference] at h
  split at h
  · cases h
  · next hlt =>
    split at h
    · cases h
    · next hzero =>
      cases h
      exact ⟨rfl, rfl, Nat.one_le_iff_ne_zero.mpr hzero, Nat.not_le.mp hlt⟩

/-- What is read as a reference spells it. -/
theorem reference_eq_ok {text rest : List Char} {r : Reference}
    (h : reference text = .ok (r, rest)) :
    ∃ used, SpellsReference used r ∧ text = used ++ rest := by
  have hsplit := List.takeWhile_append_dropWhile (p := Char.isDigit) (l := text)
  rw [reference.eq_def] at h
  split at h
  · obtain ⟨used, hspells, rfl⟩ := pathReference_eq_ok h
    exact ⟨_, hspells, rfl⟩
  · dsimp only at h
    split at h
    · next tail hdrop =>
      split at h
      · cases h
        exact ⟨[], .next, rfl⟩
      · next hdigits =>
        obtain ⟨rfl, rfl, hpos, hlt⟩ := positionReference_eq_ok h
        rw [hdrop] at hsplit
        have hne : text.takeWhile Char.isDigit ≠ [] := by simpa using hdigits
        refine ⟨_, .position hne (of_mem_takeWhile _ _) hpos hlt, ?_⟩
        rw [List.append_assoc]
        exact hsplit.symm
    · cases h
      exact ⟨[], .next, rfl⟩

/-- A text that begins with neither a path nor a position has no reference. -/
theorem reference_of_head? {text : List Char} (hopen : text.head? ≠ some '(')
    (hdollar : (text.dropWhile Char.isDigit).head? ≠ some '$') :
    reference text = .ok (.next, text) := by
  rw [reference.eq_def]
  split
  · exact absurd rfl hopen
  · dsimp only
    split
    · next hdrop =>
      rw [hdrop] at hdollar
      exact absurd rfl hdollar
    · rfl

/-- A reference that is spelled is read, with one condition if nothing is spelled. -/
theorem reference_of_position {digits rest : List Char} (hne : digits ≠ [])
    (hdigits : ∀ c ∈ digits, c.isDigit = true) (hpos : 1 ≤ number digits)
    (hlt : number digits < positionLimit) :
    reference (digits ++ '$' :: rest) = .ok (.position (number digits), rest) := by
  have hstop : ∀ c, ('$' :: rest).head? = some c → c.isDigit = false := by
    intro c hc
    cases hc
    rfl
  obtain ⟨htake, hdrop⟩ := takeWhile_run hdigits hstop
  have hempty : digits.isEmpty = false := by simpa using hne
  have hfirst : ∀ tail, digits ++ '$' :: rest ≠ '(' :: tail := by
    intro tail heq
    cases digits with
    | nil => exact hne rfl
    | cons d digits =>
      cases heq
      cases hdigits '(' List.mem_cons_self
  rw [reference.eq_def]
  split
  · next heq => exact absurd heq (hfirst _)
  · dsimp only
    rw [htake, hdrop]
    simp only [hempty, Bool.false_eq_true, if_false]
    have hlimit : ¬ positionLimit ≤ number digits := Nat.not_le.mpr hlt
    rw [positionReference, if_neg hlimit, if_neg (Nat.one_le_iff_ne_zero.mp hpos)]

theorem pathReference_of_fields {fields : List (List Char)} {rest : List Char} (hne : fields ≠ [])
    (hfields : ∀ part ∈ fields, part ≠ [] ∧ ')' ∉ part ∧ '.' ∉ part) :
    pathReference (['.'].intercalate fields ++ ')' :: rest) =
      .ok (.path (fields.map String.ofList), rest) := by
  have hname : ∀ c ∈ ['.'].intercalate fields, (c != ')') = true := by
    intro c hc
    rw [bne_iff_ne]
    rintro rfl
    exact not_mem_intercalate (by decide) (fun part hpart => (hfields part hpart).2.1) hc
  have hstop : ∀ c, (')' :: rest).head? = some c → (c != ')') = false := by
    intro c hc
    cases hc
    rfl
  obtain ⟨htake, hdrop⟩ := takeWhile_run hname hstop
  have hsplit : splitAtChar '.' (['.'].intercalate fields) = fields :=
    splitAtChar_intercalate hne fun part hpart => (hfields part hpart).2.2
  have hempty : fields.any List.isEmpty = false := by
    rw [List.any_eq_false]
    intro part hpart
    simpa using (hfields part hpart).1
  rw [pathReference, htake, hdrop]
  simp only [hsplit, hempty, Bool.false_eq_true, if_false]

theorem SpellsReference.reference_eq {used rest : List Char} {r : Reference}
    (h : SpellsReference used r)
    (hopen : r = .next → rest.head? ≠ some '(')
    (hdollar : r = .next → (rest.dropWhile Char.isDigit).head? ≠ some '$') :
    reference (used ++ rest) = .ok (r, rest) := by
  cases h with
  | next => exact reference_of_head? (hopen rfl) (hdollar rfl)
  | @position digits hne hdigits hpos hlt =>
    rw [List.append_assoc, List.singleton_append]
    exact reference_of_position hne hdigits hpos hlt
  | @path fields hne hfields =>
    rw [List.cons_append, List.append_assoc, List.singleton_append]
    exact pathReference_of_fields hne hfields

/-! ## Flags and numbers -/

/-- Flags with more of them. -/
def joinFlags (a b : Flags) : Flags where
  left := a.left || b.left
  plus := a.plus || b.plus
  space := a.space || b.space
  zero := a.zero || b.zero
  alternate := a.alternate || b.alternate

theorem addFlag?_eq (flags : Flags) (c : Char) :
    addFlag? flags c = if isFlag c then some (joinFlags flags (flagsOf [c])) else none := by
  rw [addFlag?.eq_def]
  split
  · simp [isFlag, joinFlags, flagsOf]
  · simp [isFlag, joinFlags, flagsOf]
  · simp [isFlag, joinFlags, flagsOf]
  · simp [isFlag, joinFlags, flagsOf]
  · simp [isFlag, joinFlags, flagsOf]
  · next h1 h2 h3 h4 h5 =>
    have hnone : isFlag c = false := by
      simp only [isFlag, List.contains_eq_mem, List.mem_cons, List.not_mem_nil, or_false,
        decide_eq_false_iff_not, not_or]
      exact ⟨h1, h2, h3, h4, h5⟩
    rw [hnone]
    rfl

theorem joinFlags_flagsOf (flags : Flags) (c : Char) (text : List Char) :
    joinFlags (joinFlags flags (flagsOf [c])) (flagsOf text) =
      joinFlags flags (flagsOf (c :: text)) := by
  simp [joinFlags, flagsOf, Bool.or_assoc]

/-- The flags at the start of a text are its longest run of flags. -/
theorem readFlags_eq (flags : Flags) (text : List Char) :
    readFlags flags text =
      (joinFlags flags (flagsOf (text.takeWhile isFlag)), text.dropWhile isFlag) := by
  induction text generalizing flags with
  | nil => simp [readFlags, joinFlags, flagsOf]
  | cons c rest ih =>
    rw [readFlags, addFlag?_eq]
    cases hc : isFlag c with
    | true =>
      simp only [if_true, List.takeWhile_cons, List.dropWhile_cons, hc]
      rw [ih, joinFlags_flagsOf]
    | false => simp [hc, joinFlags, flagsOf]

theorem readFlags_start (text : List Char) :
    readFlags {} text = (flagsOf (text.takeWhile isFlag), text.dropWhile isFlag) := by
  rw [readFlags_eq]
  simp [joinFlags]

/-- A number at the start of a text is its longest run of digits. -/
theorem readNumber_eq_ok_iff {text rest : List Char} {n : Option Nat} :
    readNumber text = .ok (n, rest) ↔
      (text.takeWhile Char.isDigit).length ≤ 2 ∧ n = value? (text.takeWhile Char.isDigit) ∧
        rest = text.dropWhile Char.isDigit := by
  have hsplit := List.takeWhile_append_dropWhile (p := Char.isDigit) (l := text)
  rw [readNumber, value?]
  cases hdigits : text.takeWhile Char.isDigit with
  | nil =>
    rw [hdigits, List.nil_append] at hsplit
    simp [hsplit, eq_comm]
  | cons c digits =>
    have hlimit : digitLimit = 2 := rfl
    simp only [List.isEmpty_cons, Bool.false_eq_true, if_false]
    by_cases hlong : digitLimit < (c :: digits).length
    · rw [if_pos hlong]
      constructor
      · intro h
        cases h
      · intro h
        omega
    · have hshort : (c :: digits).length ≤ 2 := Nat.not_lt.mp hlong
      rw [if_neg hlong]
      simp only [Except.ok.injEq, Prod.mk.injEq, hshort, true_and]
      exact and_congr eq_comm eq_comm

theorem readPrecision_eq_ok {text rest : List Char} {p : Option Nat}
    (h : readPrecision text = .ok (p, rest)) :
    ∃ used, SpellsPrecision used p ∧ text = used ++ rest := by
  rw [readPrecision.eq_def] at h
  split at h
  · next tail =>
    obtain ⟨⟨n, more⟩, hnumber, heq⟩ := map_eq_ok.mp h
    cases heq
    obtain ⟨hlength, rfl, rfl⟩ := readNumber_eq_ok_iff.mp hnumber
    have hvalue : (value? (tail.takeWhile Char.isDigit)).getD 0 =
        number (tail.takeWhile Char.isDigit) := by
      rw [value?]
      split
      · next hempty => rw [List.isEmpty_iff.mp hempty]; rfl
      · rfl
    rw [hvalue]
    refine ⟨_, .present (of_mem_takeWhile _ _) hlength, ?_⟩
    rw [List.cons_append, List.takeWhile_append_dropWhile]
  · cases h
    exact ⟨[], .absent, rfl⟩

theorem SpellsPrecision.readPrecision_eq {used rest : List Char} {p : Option Nat}
    (h : SpellsPrecision used p) (hpoint : rest.head? ≠ some '.')
    (hdigit : ∀ c, rest.head? = some c → c.isDigit = false) :
    readPrecision (used ++ rest) = .ok (p, rest) := by
  cases h with
  | absent =>
    rw [List.nil_append, readPrecision.eq_def]
    split
    · exact absurd rfl hpoint
    · rfl
  | @present digits hdigits hlength =>
    obtain ⟨htake, hdrop⟩ := takeWhile_run hdigits hdigit
    have hnumber : readNumber (digits ++ rest) = .ok (value? digits, rest) := by
      rw [readNumber_eq_ok_iff, htake, hdrop]
      exact ⟨hlength, rfl, rfl⟩
    show (readNumber (digits ++ rest)).map _ = _
    rw [hnumber, value?]
    cases digits <;> rfl

/-! ## Directives -/

/-- A conversion letter is no character of another part. -/
theorem kind_of_letter {c : Char} {conversion : Conversion}
    (h : Conversion.ofLetter? c = some conversion) :
    c.isDigit = false ∧ isFlag c = false ∧ c ≠ '.' ∧ c ≠ '(' ∧ c ≠ '$' := by
  rw [Conversion.ofLetter?.eq_def] at h
  split at h
  all_goals first | decide | cases h

theorem kind_of_flag {c : Char} (h : isFlag c = true) :
    (c.isDigit = true → c = '0') ∧ c ≠ '(' ∧ c ≠ '$' := by
  have hmem : c ∈ ['-', '+', ' ', '0', '#'] := List.contains_iff_mem.mp h
  simp only [List.mem_cons, List.not_mem_nil, or_false] at hmem
  rcases hmem with rfl | rfl | rfl | rfl | rfl <;> decide

theorem kind_of_digit {c : Char} (h : c.isDigit = true) : c ≠ '.' ∧ c ≠ '(' ∧ c ≠ '$' := by
  refine ⟨?_, ?_, ?_⟩ <;> (rintro rfl; cases h)

theorem SpellsPrecision.kind {used : List Char} {p : Option Nat} (h : SpellsPrecision used p) :
    ∀ c ∈ used, c ≠ '(' ∧ c ≠ '$' := by
  intro c hc
  cases h with
  | absent => cases hc
  | present hdigits _ =>
    rcases List.mem_cons.mp hc with rfl | hc
    · decide
    · exact (kind_of_digit (hdigits c hc)).2

theorem readConversion_eq_ok_iff {text rest : List Char} {conversion : Conversion} :
    readConversion text = .ok (conversion, rest) ↔
      ∃ letter, text = letter :: rest ∧ Conversion.ofLetter? letter = some conversion := by
  cases text with
  | nil => simp [readConversion]
  | cons c tail =>
    rw [readConversion]
    cases hc : Conversion.ofLetter? c with
    | none =>
      simp only [reduceCtorEq, false_iff, not_exists, not_and]
      intro letter heq
      cases heq
      simp [hc]
    | some k =>
      simp only [Except.ok.injEq, Prod.mk.injEq]
      constructor
      · rintro ⟨rfl, rfl⟩
        exact ⟨c, rfl, hc⟩
      · rintro ⟨letter, heq, hletter⟩
        cases heq
        rw [hc] at hletter
        cases hletter
        exact ⟨rfl, rfl⟩

/-- The parts of a directive are read one after the other. -/
theorem directive_eq_ok_iff_parts {text rest : List Char} {d : Directive} :
    directive text = .ok (d, rest) ↔
      ∃ body afterWidth afterPrecision, reference text = .ok (d.reference, body) ∧
        d.flags = flagsOf (body.takeWhile isFlag) ∧
        readNumber (body.dropWhile isFlag) = .ok (d.width, afterWidth) ∧
        readPrecision afterWidth = .ok (d.precision, afterPrecision) ∧
        readConversion afterPrecision = .ok (d.conversion, rest) := by
  constructor
  · intro h
    rw [directive] at h
    obtain ⟨⟨r, body⟩, hreference, h⟩ := bind_eq_ok.mp h
    dsimp only at h
    rw [readFlags_start] at h
    obtain ⟨⟨width, afterWidth⟩, hwidth, h⟩ := bind_eq_ok.mp h
    obtain ⟨⟨precision, afterPrecision⟩, hprecision, h⟩ := bind_eq_ok.mp h
    obtain ⟨⟨conversion, tail⟩, hconversion, h⟩ := bind_eq_ok.mp h
    cases h
    exact ⟨body, afterWidth, afterPrecision, hreference, rfl, hwidth, hprecision, hconversion⟩
  · rintro ⟨body, afterWidth, afterPrecision, hreference, hflags, hwidth, hprecision, hconversion⟩
    rw [directive, hreference]
    refine bind_eq_ok.mpr ⟨_, rfl, ?_⟩
    dsimp only
    rw [readFlags_start]
    refine bind_eq_ok.mpr ⟨_, hwidth, bind_eq_ok.mpr ⟨_, hprecision, bind_eq_ok.mpr
      ⟨_, hconversion, ?_⟩⟩⟩
    rw [← hflags]
    rfl

/-- What is read as a directive spells it. -/
theorem directive_eq_ok {text rest : List Char} {d : Directive}
    (h : directive text = .ok (d, rest)) :
    ∃ used, SpellsDirective used d ∧ text = used ++ rest := by
  obtain ⟨body, afterWidth, afterPrecision, hreference, hflags, hwidth, hprecision, hconversion⟩ :=
    directive_eq_ok_iff_parts.mp h
  obtain ⟨reference, flags, width, precision, conversion⟩ := d
  obtain ⟨used, hspells, rfl⟩ := reference_eq_ok hreference
  obtain ⟨hlength, rfl, hafter⟩ := readNumber_eq_ok_iff.mp hwidth
  obtain ⟨point, hpoint, rfl⟩ := readPrecision_eq_ok hprecision
  obtain ⟨letter, rfl, hletter⟩ := readConversion_eq_ok_iff.mp hconversion
  obtain rfl : flags = _ := hflags
  have hbody := List.takeWhile_append_dropWhile (p := isFlag) (l := body)
  have hrest := List.takeWhile_append_dropWhile (p := Char.isDigit) (l := body.dropWhile isFlag)
  generalize hdigits : (body.dropWhile isFlag).takeWhile Char.isDigit = digits at *
  -- No zero is in front of the digits: it would be a flag.
  have hzeros : digits.takeWhile (· == '0') = [] := by
    cases digits with
    | nil => rfl
    | cons c digits =>
      have hflag : isFlag c = false := head?_dropWhile (by rw [← hrest]; rfl)
      have hc : c ≠ '0' := by
        rintro rfl
        cases hflag
      simp [hc]
  have hdrop := List.takeWhile_append_dropWhile (p := (· == '0')) (l := digits)
  rw [hzeros, List.nil_append] at hdrop
  have hdirective := SpellsDirective.intro hspells (of_mem_takeWhile isFlag body)
    (hdigits ▸ of_mem_takeWhile _ _) hlength hpoint hletter
  rw [hzeros, List.append_nil, hdrop] at hdirective
  refine ⟨_, hdirective, ?_⟩
  rw [← hafter] at hrest
  simp [hbody, hrest]

/-- A text without a dollar sign before its letter has no reference in front. -/
theorem head?_ne_of_plain {run rest : List Char} {letter : Char} {conversion : Conversion}
    (h : ∀ c ∈ run, c ≠ '(' ∧ c ≠ '$') (hletter : Conversion.ofLetter? letter = some conversion) :
    (run ++ letter :: rest).head? ≠ some '(' ∧
      ((run ++ letter :: rest).dropWhile Char.isDigit).head? ≠ some '$' := by
  obtain ⟨hnodigit, -, -, hnoopen, hnodollar⟩ := kind_of_letter hletter
  induction run with
  | nil => simp [hnodigit, hnoopen, hnodollar]
  | cons c run ih =>
    have hc := h c List.mem_cons_self
    refine ⟨by simp [hc.1], ?_⟩
    rw [List.cons_append, List.dropWhile_cons]
    split
    · exact (ih fun d hd => h d (List.mem_cons_of_mem _ hd)).2
    · simp [hc.2]

section

variable {flags digits point : List Char} {precision : Option Nat} {letter : Char}
  {conversion : Conversion} (rest : List Char) (hflags : ∀ c ∈ flags, isFlag c = true)
  (hdigits : ∀ c ∈ digits, c.isDigit = true) (hzero : digits.head? ≠ some '0')
  (hpoint : SpellsPrecision point precision)
  (hletter : Conversion.ofLetter? letter = some conversion)

include hdigits hzero hpoint hletter in
/-- What follows the flags of a directive begins with no flag. -/
theorem head?_after_flags :
    ∀ c, (digits ++ (point ++ letter :: rest)).head? = some c → isFlag c = false := by
  intro c hc
  cases digits with
  | cons d more =>
    cases hc
    rw [← Bool.not_eq_true]
    intro hflag
    have hc := (kind_of_flag hflag).1 (hdigits c List.mem_cons_self)
    exact hzero (congrArg some hc)
  | nil =>
    cases hpoint with
    | absent =>
      cases hc
      exact (kind_of_letter hletter).2.1
    | present =>
      cases hc
      rfl

include hpoint hletter in
theorem head?_after_digits :
    ∀ c, (point ++ letter :: rest).head? = some c → c.isDigit = false := by
  intro c hc
  cases hpoint with
  | absent =>
    cases hc
    exact (kind_of_letter hletter).1
  | present =>
    cases hc
    rfl

include hflags hdigits hpoint hletter in
/-- A directive without a reference has none in front. -/
theorem head?_of_body :
    (flags ++ (digits ++ (point ++ letter :: rest))).head? ≠ some '(' ∧
      ((flags ++ (digits ++ (point ++ letter :: rest))).dropWhile Char.isDigit).head? ≠
        some '$' := by
  have hkind : ∀ c ∈ flags ++ (digits ++ point), c ≠ '(' ∧ c ≠ '$' := by
    intro c hc
    rcases List.mem_append.mp hc with hc | hc
    · exact (kind_of_flag (hflags c hc)).2
    · rcases List.mem_append.mp hc with hc | hc
      · exact (kind_of_digit (hdigits c hc)).2
      · exact hpoint.kind c hc
  have hplain : flags ++ (digits ++ (point ++ letter :: rest)) =
      (flags ++ (digits ++ point)) ++ letter :: rest := by
    simp only [List.append_assoc]
  rw [hplain]
  exact head?_ne_of_plain hkind hletter

include hflags hdigits hzero hpoint hletter in
/-- A directive whose width has no zero in front is read, whatever follows it. -/
theorem directive_of_parts {text : List Char} {r : Reference} (hreference : SpellsReference text r)
    (hlength : digits.length ≤ 2) :
    directive (text ++ (flags ++ (digits ++ (point ++ letter :: rest)))) =
      .ok (⟨r, flagsOf flags, value? digits, precision, conversion⟩, rest) := by
  have hbody := head?_of_body rest hflags hdigits hpoint hletter
  obtain ⟨hflagrun, hafterflags⟩ :=
    takeWhile_run hflags (head?_after_flags rest hdigits hzero hpoint hletter)
  obtain ⟨hdigitrun, hafterdigits⟩ :=
    takeWhile_run hdigits (head?_after_digits rest hpoint hletter)
  obtain ⟨hnodigit, -, hnopoint, -⟩ := kind_of_letter hletter
  refine directive_eq_ok_iff_parts.mpr ⟨_, _, letter :: rest,
    hreference.reference_eq (fun _ => hbody.1) (fun _ => hbody.2), ?_, ?_,
    hpoint.readPrecision_eq ?_ ?_, readConversion_eq_ok_iff.mpr ⟨letter, rfl, hletter⟩⟩
  · rw [hflagrun]
  · rw [hafterflags, readNumber_eq_ok_iff, hdigitrun, hafterdigits]
    exact ⟨hlength, rfl, rfl⟩
  · intro heq
    cases heq
    exact hnopoint rfl
  · intro c hc
    cases hc
    exact hnodigit

end

/-- A directive that is spelled is read, whatever follows it. -/
theorem SpellsDirective.directive_eq {used : List Char} {d : Directive} (h : SpellsDirective used d)
    (rest : List Char) : directive (used ++ rest) = .ok (d, rest) := by
  cases h with
  | @intro text flags digits point reference precision letter conversion hreference hflags hdigits
      hlength hpoint hletter =>
    have hzeros : digits.takeWhile (· == '0') ++ (digits.dropWhile (· == '0') ++
        (point ++ letter :: rest)) = digits ++ (point ++ letter :: rest) := by
      rw [← List.append_assoc, List.takeWhile_append_dropWhile]
    have hbody : (text ++ (flags ++ (digits ++ (point ++ [letter])))) ++ rest =
        text ++ ((flags ++ digits.takeWhile (· == '0')) ++
          (digits.dropWhile (· == '0') ++ (point ++ letter :: rest))) := by
      simp only [List.append_assoc, List.singleton_append, hzeros]
    have hmore : ∀ c ∈ flags ++ digits.takeWhile (· == '0'), isFlag c = true := by
      intro c hc
      rcases List.mem_append.mp hc with hc | hc
      · exact hflags c hc
      · have hzero : (c == '0') = true := of_mem_takeWhile (· == '0') digits c hc
        rw [beq_iff_eq.mp hzero]
        rfl
    have hleft : ∀ c ∈ digits.dropWhile (· == '0'), c.isDigit = true :=
      fun c hc => hdigits c ((List.dropWhile_suffix _).subset hc)
    have hfirst : (digits.dropWhile (· == '0')).head? ≠ some '0' := by
      intro hzero
      cases head?_dropWhile hzero
    rw [hbody]
    exact directive_of_parts rest hmore hleft hfirst hpoint hletter hreference
      (Nat.le_trans (List.dropWhile_suffix _).length_le hlength)

/-! ## Segments -/

/-- References that may follow after some have occurred. -/
def Allows (seen : Seen) (l : List Piece) : Prop :=
  ¬ ((seen.position = true ∨ ∃ d n, .directive d ∈ l ∧ d.reference = .position n) ∧
    (seen.path = true ∨ ∃ d fields, .directive d ∈ l ∧ d.reference = .path fields))

theorem allows_start {l : List Piece} : Allows {} l ↔ Unmixed l := by
  simp [Allows, Unmixed]

theorem allows_char {seen : Seen} {c : Char} {l : List Piece} :
    Allows seen (.char c :: l) ↔ Allows seen l := by
  simp [Allows]

theorem allows_directive {seen : Seen} {d : Directive} {l : List Piece} :
    Allows seen (.directive d :: l) ↔ Allows (seen.add d.reference) l := by
  cases hr : d.reference <;>
    simp [Allows, Seen.add, hr, or_and_right, exists_or]

theorem allows_nil {seen : Seen} : Allows seen [] ↔ ¬ (seen.position && seen.path) = true := by
  simp [Allows]

theorem Allows.not_both {seen : Seen} {l : List Piece} (h : Allows seen l) :
    ¬ (seen.position && seen.path) = true := by
  rw [Bool.and_eq_true]
  exact fun hboth => h ⟨Or.inl hboth.1, Or.inl hboth.2⟩

/-- A percent sign and a text that is read as a directive. -/
theorem parseSegments_directive {seen : Seen} {text tail : List Char} {d : Directive}
    (h : directive text = .ok (d, tail)) :
    parseSegments seen ('%' :: text) =
      if (seen.add d.reference).position && (seen.add d.reference).path then
        .error .mixedReferences
      else (parseSegments (seen.add d.reference) tail).map (.directive d :: ·) := by
  cases text with
  | nil => cases h
  | cons c rest =>
    have hc : c ≠ '%' := by
      rintro rfl
      cases h
    rw [parseSegments]
    · split
      · next heq =>
        rw [h] at heq
        cases heq
      · next heq =>
        rw [h] at heq
        cases heq
        rfl
    · exact hc

/-- What is read spells the pieces of the segments. -/
theorem parseSegments_eq_ok {seen : Seen} {text : List Char} {segments : List Segment}
    (hseen : Allows seen []) (h : parseSegments seen text = .ok segments) :
    ∃ l, Spells text l ∧ Allows seen l ∧ segments = group l := by
  fun_induction parseSegments seen text generalizing segments with
  | case1 seen =>
    cases h
    exact ⟨[], .nil, hseen, rfl⟩
  | case2 seen => cases h
  | case3 seen rest ih =>
    obtain ⟨more, hmore, rfl⟩ := map_eq_ok.mp h
    obtain ⟨l, hspells, hallows, rfl⟩ := ih hseen hmore
    exact ⟨.char '%' :: l, .cons .percent hspells, allows_char.mpr hallows, rfl⟩
  | case4 => cases h
  | case5 => cases h
  | case6 seen c rest hc d tail hd seen' hboth =>
    rename_i ih
    obtain ⟨more, hmore, rfl⟩ := map_eq_ok.mp h
    obtain ⟨l, hspells, hallows, rfl⟩ := ih (allows_nil.mpr hboth) hmore
    obtain ⟨used, hdirective, htext⟩ := directive_eq_ok hd
    refine ⟨.directive d :: l, ?_, allows_directive.mpr hallows, rfl⟩
    rw [htext]
    exact .cons (.directive hdirective) hspells
  | case7 seen c rest hc ih =>
    obtain ⟨more, hmore, rfl⟩ := map_eq_ok.mp h
    obtain ⟨l, hspells, hallows, rfl⟩ := ih hseen hmore
    exact ⟨.char c :: l, .cons (.char hc) hspells, allows_char.mpr hallows, rfl⟩

/-- Pieces that are spelled are read, if their references may occur together. -/
theorem Spells.parseSegments_eq {text : List Char} {l : List Piece} (h : Spells text l)
    {seen : Seen} (hallows : Allows seen l) : parseSegments seen text = .ok (group l) := by
  induction h generalizing seen with
  | nil => rw [parseSegments, group]
  | @cons text rest piece l hpiece _ ih =>
    cases hpiece with
    | char hc =>
      have hrest := ih (allows_char.mp hallows)
      rw [List.singleton_append, parseSegments, hrest]
      · rfl
      · exact hc
    | percent =>
      have hrest := ih (allows_char.mp hallows)
      show parseSegments seen ('%' :: '%' :: rest) = _
      rw [parseSegments, hrest]
      rfl
    | @directive used d hdirective =>
      have hallows' := allows_directive.mp hallows
      rw [List.cons_append, parseSegments_directive (hdirective.directive_eq rest),
        if_neg hallows'.not_both, ih hallows']
      rfl

theorem parseSegments_eq_ok_iff {text : List Char} {segments : List Segment} :
    parseSegments {} text = .ok segments ↔
      ∃ l, Spells text l ∧ Unmixed l ∧ segments = group l := by
  constructor
  · intro h
    obtain ⟨l, hspells, hallows, hsegments⟩ := parseSegments_eq_ok (by simp [Allows]) h
    exact ⟨l, hspells, allows_start.mp hallows, hsegments⟩
  · rintro ⟨l, hspells, hunmixed, rfl⟩
    exact hspells.parseSegments_eq (allows_start.mpr hunmixed)

/-! ## The parser and the grammar -/

theorem normal_group {text : List Char} {l : List Piece} (h : Spells text l) (hl : Unmixed l) :
    Normal (group l) where
  literals _ := literal_mem_group
  apart := apart_group l
  directives d hd := by
    have hmem : .directive d ∈ (group l).flatMap pieces :=
      List.mem_flatMap.mpr ⟨_, hd, List.mem_singleton_self _⟩
    rw [pieces_group] at hmem
    exact h.normal hmem
  unmixed := by rwa [pieces_group]

theorem parse_eq_ok_iff {text : String} {f : Format} :
    parse text = .ok f ↔ parseSegments {} text.toList = .ok f.segments := by
  obtain ⟨segments⟩ := f
  rw [parse, map_eq_ok]
  simp

/-- The parser of format strings accepts exactly its grammar and decodes it in one way.

* Normal segments are read back from the text that `write` writes for them.
* What is read is a list of normal segments, whose pieces the text spells; and a text that spells
  the pieces of normal segments is read as these segments, so there are no others.
* A text is accepted if and only if it spells pieces whose references by position and by path are
  not mixed. -/
theorem parse_accepts_grammar :
    (∀ segments, Normal segments →
      parse (String.ofList (write segments)) = .ok ⟨segments⟩) ∧
    (∀ text f, parse text = .ok f ↔
      Normal f.segments ∧ Spells text.toList (f.segments.flatMap pieces)) ∧
    ∀ text, (∃ f, parse text = .ok f) ↔ ∃ l, Spells text.toList l ∧ Unmixed l := by
  have hread : ∀ text f, parse text = .ok f ↔
      Normal f.segments ∧ Spells text.toList (f.segments.flatMap pieces) := by
    intro text f
    rw [parse_eq_ok_iff, parseSegments_eq_ok_iff]
    constructor
    · rintro ⟨l, hspells, hunmixed, hsegments⟩
      rw [hsegments, pieces_group]
      exact ⟨normal_group hspells hunmixed, hspells⟩
    · rintro ⟨hnormal, hspells⟩
      exact ⟨_, hspells, hnormal.unmixed, (group_pieces hnormal.literals hnormal.apart).symm⟩
  refine ⟨?_, hread, ?_⟩
  · intro segments hnormal
    rw [hread, String.toList_ofList]
    exact ⟨hnormal, spells_write hnormal.directives⟩
  · intro text
    constructor
    · rintro ⟨f, hf⟩
      obtain ⟨l, hspells, hunmixed, -⟩ := parseSegments_eq_ok_iff.mp (parse_eq_ok_iff.mp hf)
      exact ⟨l, hspells, hunmixed⟩
    · rintro ⟨l, hspells, hunmixed⟩
      exact ⟨⟨group l⟩, parse_eq_ok_iff.mpr
        (parseSegments_eq_ok_iff.mpr ⟨l, hspells, hunmixed, rfl⟩)⟩

/-- A number in a field at the left, between literals, with a percent sign at the end. -/
def sample : List Segment :=
  [.literal ['x', '='], .directive ⟨.position 2, { left := true }, some 5, some 2, .fixed⟩,
    .literal ['%']]

theorem sample_is_read : Normal sample ∧ parse "x=%2$-5.2f%%" = .ok ⟨sample⟩ := by
  have hnormal : Normal sample := by
    refine ⟨?_, ?_, ?_, ?_⟩
    · intro text htext
      simp only [sample, List.mem_cons, Segment.literal.injEq, reduceCtorEq, List.not_mem_nil,
        or_false, false_or] at htext
      rcases htext with rfl | rfl <;> exact List.cons_ne_nil _ _
    · simp [sample, isLiteral]
    · intro d hd
      simp only [sample, List.mem_cons, Segment.directive.injEq, reduceCtorEq, List.not_mem_nil,
        or_false, false_or] at hd
      subst hd
      exact ⟨⟨by decide, by decide⟩, by simp, by simp⟩
    · rintro ⟨-, d, fields, hd, hpath⟩
      simp only [sample, pieces, List.flatMap_cons, List.map_cons, List.map_nil, List.flatMap_nil,
        List.cons_append, List.nil_append, List.mem_cons, Piece.directive.injEq, reduceCtorEq,
        List.not_mem_nil, or_false, false_or] at hd
      subst hd
      cases hpath
  have htext : String.ofList (write sample) = "x=%2$-5.2f%%" := by decide +kernel
  refine ⟨hnormal, ?_⟩
  rw [← htext]
  exact parse_accepts_grammar.1 sample hnormal

end Format

end LuaRuntime
