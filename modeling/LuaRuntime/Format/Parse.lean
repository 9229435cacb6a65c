import LuaRuntime.Error
import LuaRuntime.Format.Directive
import LuaRuntime.Text.Split

/-!
# Reading format strings

After a percent sign stand, in this order and each but the last one optional: a
reference, flags, a width, a precision and the conversion letter.  A doubled percent sign
is a literal one.  References by position and by path cannot occur together.

Each reader gives back the text that follows.  `directive_length` says that a directive
uses up some of it, which is why `segments` ends.
-/

namespace LuaRuntime

namespace Format

/-- The most digits a width or a precision may have. -/
def digitLimit : Nat := 2

/-- The first number that is too great to be a position: `2 ^ 64`. -/
def positionLimit : Nat := 0x10000000000000000

/-- The natural number that decimal digits write. -/
def number (digits : List Char) : Nat :=
  digits.foldl (fun sum c => sum * 10 + (c.toNat - '0'.toNat)) 0

/-! ## Parts of a directive -/

/-- A reference by path, after its opening parenthesis. -/
def pathReference (text : List Char) : Except FormatFault (Reference × List Char) :=
  let name := text.takeWhile (· != ')')
  match text.dropWhile (· != ')') with
  | [] => .error .unfinishedReference
  | _ :: rest =>
      let fields := splitAtChar '.' name
      if fields.any List.isEmpty then .error (.fieldReference (String.ofList name))
      else .ok (.path (fields.map String.ofList), rest)

/-- A reference by position, given its digits. -/
def positionReference (digits rest : List Char) : Except FormatFault (Reference × List Char) :=
  let n := number digits
  if positionLimit ≤ n then .error (.positionOutOfRange (String.ofList digits))
  else if n = 0 then .error .positionZero
  else .ok (.position n, rest)

/-- The reference at the start of a directive. -/
def reference (text : List Char) : Except FormatFault (Reference × List Char) :=
  match text with
  | '(' :: rest => pathReference rest
  | _ =>
      let digits := text.takeWhile Char.isDigit
      match text.dropWhile Char.isDigit with
      | '$' :: rest => if digits.isEmpty then .ok (.next, text) else positionReference digits rest
      | _ => .ok (.next, text)

/-- Adds the flag of a character. -/
def addFlag? (flags : Flags) : Char → Option Flags
  | '-' => some { flags with left := true }
  | '+' => some { flags with plus := true }
  | ' ' => some { flags with space := true }
  | '0' => some { flags with zero := true }
  | '#' => some { flags with alternate := true }
  | _ => none

/-- The flags at the start of a text, added to those already read. -/
def readFlags (flags : Flags) : List Char → Flags × List Char
  | [] => (flags, [])
  | c :: rest =>
      match addFlag? flags c with
      | some more => readFlags more rest
      | none => (flags, c :: rest)

/-- A number of few digits at the start of a text, if there is one. -/
def readNumber (text : List Char) : Except FormatFault (Option Nat × List Char) :=
  let digits := text.takeWhile Char.isDigit
  if digits.isEmpty then .ok (none, text)
  else if digitLimit < digits.length then .error .numberTooLong
  else .ok (some (number digits), text.dropWhile Char.isDigit)

/-- A precision at the start of a text, if there is one.  A point alone is precision
zero. -/
def readPrecision (text : List Char) : Except FormatFault (Option Nat × List Char) :=
  match text with
  | '.' :: rest => (readNumber rest).map fun (n, tail) => (some (n.getD 0), tail)
  | _ => .ok (none, text)

/-! ## Directives -/

/-- The conversion letter, which ends a directive. -/
def readConversion (text : List Char) : Except FormatFault (Conversion × List Char) :=
  match text with
  | [] => .error .missingConversion
  | c :: rest =>
      match Conversion.ofLetter? c with
      | some conversion => .ok (conversion, rest)
      | none => .error (.unknownConversion c)

/-- A directive after its percent sign. -/
def directive (text : List Char) : Except FormatFault (Directive × List Char) := do
  let (reference, text) ← reference text
  let (flags, text) := readFlags {} text
  let (width, text) ← readNumber text
  let (precision, text) ← readPrecision text
  let (conversion, text) ← readConversion text
  return (⟨reference, flags, width, precision, conversion⟩, text)

/-! ## Lengths -/

theorem length_dropWhile_le (p : Char → Bool) (text : List Char) :
    (text.dropWhile p).length ≤ text.length :=
  (List.dropWhile_suffix p).length_le

theorem reference_length {text rest : List Char} {r : Reference}
    (h : reference text = .ok (r, rest)) : rest.length ≤ text.length := by
  unfold reference at h
  split at h
  · rename_i tail
    unfold pathReference at h
    have hd := length_dropWhile_le (· != ')') tail
    split at h
    · simp at h
    · rename_i tail' htail
      rw [htail] at hd
      simp only at h
      split at h
      · simp at h
      · simp only [Except.ok.injEq, Prod.mk.injEq] at h
        simp only [List.length_cons] at hd ⊢
        rw [← h.2]
        omega
  · have hd := length_dropWhile_le Char.isDigit text
    simp only at h
    split at h
    · rename_i tail htail
      rw [htail] at hd
      split at h
      · simp only [Except.ok.injEq, Prod.mk.injEq] at h
        simp [← h.2]
      · unfold positionReference at h
        simp only at h
        split at h
        · simp at h
        · split at h
          · simp at h
          · simp only [Except.ok.injEq, Prod.mk.injEq] at h
            simp only [List.length_cons] at hd
            rw [← h.2]
            omega
    · simp only [Except.ok.injEq, Prod.mk.injEq] at h
      simp [← h.2]

theorem readFlags_length (flags : Flags) (text : List Char) :
    (readFlags flags text).2.length ≤ text.length := by
  fun_induction readFlags flags text with
  | case1 => simp
  | case2 flags c rest more _ ih =>
    simp only [List.length_cons]
    omega
  | case3 => simp

theorem readNumber_length {text rest : List Char} {n : Option Nat}
    (h : readNumber text = .ok (n, rest)) : rest.length ≤ text.length := by
  unfold readNumber at h
  simp only at h
  split at h
  · simp only [Except.ok.injEq, Prod.mk.injEq] at h
    simp [← h.2]
  · split at h
    · simp at h
    · simp only [Except.ok.injEq, Prod.mk.injEq] at h
      rw [← h.2]
      exact length_dropWhile_le Char.isDigit text

theorem readPrecision_length {text rest : List Char} {n : Option Nat}
    (h : readPrecision text = .ok (n, rest)) : rest.length ≤ text.length := by
  unfold readPrecision at h
  split at h
  · rename_i tail
    cases hn : readNumber tail with
    | error e => simp [hn, Except.map] at h
    | ok r =>
      obtain ⟨n, tail⟩ := r
      have := readNumber_length hn
      simp only [hn, Except.map, Except.ok.injEq, Prod.mk.injEq] at h
      simp only [List.length_cons]
      rw [← h.2]
      omega
  · simp only [Except.ok.injEq, Prod.mk.injEq] at h
    simp [← h.2]

theorem readConversion_length {text rest : List Char} {c : Conversion}
    (h : readConversion text = .ok (c, rest)) : rest.length < text.length := by
  unfold readConversion at h
  split at h
  · simp at h
  · split at h
    · simp only [Except.ok.injEq, Prod.mk.injEq] at h
      simp [← h.2]
    · simp at h

/-- Reading a directive uses up its conversion letter at least. -/
theorem directive_length {text rest : List Char} {d : Directive}
    (h : directive text = .ok (d, rest)) : rest.length < text.length := by
  unfold directive at h
  cases hr : reference text with
  | error e => simp [hr, bind, Except.bind] at h
  | ok r =>
    obtain ⟨r, text₁⟩ := r
    have h₁ := reference_length hr
    have h₂ := readFlags_length {} text₁
    simp only [hr, bind, Except.bind] at h
    cases hw : readNumber (readFlags {} text₁).2 with
    | error e => simp [hw] at h
    | ok w =>
      obtain ⟨w, text₃⟩ := w
      have h₃ := readNumber_length hw
      simp only [hw] at h
      cases hp : readPrecision text₃ with
      | error e => simp [hp] at h
      | ok p =>
        obtain ⟨p, text₄⟩ := p
        have h₄ := readPrecision_length hp
        simp only [hp] at h
        cases hc : readConversion text₄ with
        | error e => simp [hc] at h
        | ok c =>
          obtain ⟨c, text₅⟩ := c
          have h₅ := readConversion_length hc
          simp only [hc, pure, Except.pure, Except.ok.injEq, Prod.mk.injEq] at h
          rw [← h.2]
          omega

/-! ## Format strings -/

/-- Which kinds of reference have occurred. -/
structure Seen where
  /-- A reference by position. -/
  position : Bool := false
  /-- A reference by path. -/
  path : Bool := false
deriving Repr, DecidableEq

/-- What has occurred after one more reference. -/
def Seen.add (seen : Seen) : Reference → Seen
  | .next => seen
  | .position _ => { seen with position := true }
  | .path _ => { seen with path := true }

/-- Segments with a literal character in front. -/
def consChar (c : Char) : List Segment → List Segment
  | .literal text :: rest => .literal (c :: text) :: rest
  | rest => .literal [c] :: rest

/-- The segments of a text. -/
def parseSegments (seen : Seen) : List Char → Except FormatFault (List Segment)
  | [] => .ok []
  | '%' :: text =>
      match text with
      | [] => .error .trailingPercent
      | '%' :: rest => (parseSegments seen rest).map (consChar '%')
      | c :: rest =>
          match _h : directive (c :: rest) with
          | .error e => .error e
          | .ok (d, tail) =>
              let seen := seen.add d.reference
              if seen.position && seen.path then .error .mixedReferences
              else (parseSegments seen tail).map (.directive d :: ·)
  | c :: rest => (parseSegments seen rest).map (consChar c)
termination_by text => text.length
decreasing_by
  · simp only [List.length_cons]
    omega
  · have := directive_length _h
    simp only [List.length_cons] at this ⊢
    omega
  · simp

/-- The format a text writes. -/
def parse (text : String) : Except FormatFault Format :=
  (parseSegments {} text.toList).map fun segments => ⟨segments⟩

end Format

end LuaRuntime
