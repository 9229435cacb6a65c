import LuaRuntime.Number.Numeral
import LuaRuntime.Pattern.Syntax

/-!
# The syntax of regular expressions

`Regex.parse?` reads the part of the syntax of regular expressions that patterns are translated to.
A text outside this part reads as none, though the engine may know it.

* `(?s)` stands in front, so that a dot is any character, and after it may stand `\A`, the start of
  the text.
* A character is written as it is, or after a backslash if it has a meaning of its own.
* A class in brackets lists its members or, after a caret, what it leaves out.  A member is a
  character, a range, a class with a name, or the complement of one.  A character is a letter, a
  digit, or a code in hexadecimal.
* `(?:\b\B)` asks for the bound of a word and for no such bound, so that it matches nowhere.
* A quantifier follows one of these, `*?` being the one that takes the fewest.
* Parentheses make a group, and `\z` is the end of the text.

What is read is written with the items of patterns.  Of these an expression has neither positions
nor frontiers.
-/

namespace LuaRuntime

namespace Regex

/-- An expression: a list of items, tied to the start of the text or not. -/
abbrev Expression := Pattern

/-- Whether a character has a meaning of its own outside of brackets. -/
def isMeta (c : Char) : Bool := "\\.+*?()|[]\x7b\x7d^$#&-~".toList.contains c

/-- The text after another one that it must start with. -/
def textAfter? (front text : List Char) : Option (List Char) :=
  if front.isPrefixOf text then some (text.drop front.length) else none

theorem textAfter?_eq_some_iff {front text rest : List Char} :
    textAfter? front text = some rest ↔ text = front ++ rest := by
  rw [textAfter?]
  split
  · next hprefix =>
    obtain ⟨tail, rfl⟩ := List.isPrefixOf_iff_prefix.mp hprefix
    rw [List.drop_left, Option.some.injEq, List.append_cancel_left_eq]
  · next hprefix =>
    refine iff_of_false (by simp) ?_
    rintro rfl
    exact hprefix (List.isPrefixOf_iff_prefix.mpr (List.prefix_append front rest))

/-! ## Members of a class -/

/-- The classes with a name. -/
def classNames : List (String × CharClass) :=
  [("[:alpha:]", .letter), ("[:cntrl:]", .control), ("[:digit:]", .digit), ("[:graph:]", .graphic),
    ("[:lower:]", .lower), ("[:punct:]", .punctuation), ("[:space:]", .space),
    ("[:upper:]", .upper), ("[:alnum:]", .alphanumeric), ("[:xdigit:]", .hexadecimal),
    ("\\x00", .zero)]

/-- The class that one of some names in front of a text stands for, and the text after it. -/
def readNamed? (text : List Char) : List (String × CharClass) → Option (CharClass × List Char)
  | [] => none
  | (name, named) :: more =>
      match textAfter? name.toList text with
      | some rest => some (named, rest)
      | none => readNamed? text more

/-- The class whose name stands in front of a text, and the text after it. -/
def readClass? (text : List Char) : Option (CharClass × List Char) := readNamed? text classNames

/-- The character of a code. -/
def charOf? (code : Nat) : Option Char :=
  if code.isValidChar then some (Char.ofNat code) else none

/-- The character whose code stands in front of a text, up to a closing brace, and the text after
it. -/
def readCode? (text : List Char) : Option (Char × List Char) :=
  match text.dropWhile (· != '\x7d') with
  | _ :: rest =>
      ((Numeral.naturalValue? 16 (text.takeWhile (· != '\x7d'))).bind charOf?).map (·, rest)
  | [] => none

/-- The character in front of a text inside brackets, and the text after it. -/
def readChar? : List Char → Option (Char × List Char)
  | [] => none
  | '\\' :: 'x' :: '\x7b' :: rest => readCode? rest
  | c :: rest => if c.isAlphanum then some (c, rest) else none

/-- A character and the text after it, as a range if a hyphen and another one follow.  A range must
not be empty. -/
def rangeFrom? (first : Char) : List Char → Option (SetItem × List Char)
  | '-' :: rest =>
      match readChar? rest with
      | some (last, rest) => if first ≤ last then some (.range first last, rest) else none
      | none => none
  | rest => some (.char first, rest)

/-- The member in front of a text inside brackets, and the text after it. -/
def readMember? (text : List Char) : Option (SetItem × List Char) :=
  match readClass? text with
  | some (named, rest) => some (.class named false, rest)
  | none =>
      match text with
      | '[' :: '^' :: inner =>
          match readClass? inner with
          | some (named, ']' :: rest) => some (.class named true, rest)
          | _ => none
      | _ => (readChar? text).bind fun (first, rest) => rangeFrom? first rest

theorem readNamed?_length {text rest : List Char} {named : CharClass}
    {names : List (String × CharClass)} (hnames : ∀ entry ∈ names, entry.1.toList ≠ [])
    (h : readNamed? text names = some (named, rest)) : rest.length < text.length := by
  induction names with
  | nil => cases h
  | cons entry more ih =>
    obtain ⟨hfirst, hmore⟩ := List.forall_mem_cons.mp hnames
    rw [readNamed?] at h
    split at h
    · next rest' hprefix =>
      cases h
      rw [textAfter?_eq_some_iff.mp hprefix, List.length_append]
      have := List.length_pos_iff.mpr hfirst
      omega
    · exact ih hmore h

theorem readClass?_length {text rest : List Char} {named : CharClass}
    (h : readClass? text = some (named, rest)) : rest.length < text.length :=
  readNamed?_length (by decide) h

theorem readCode?_length {text rest : List Char} {c : Char}
    (h : readCode? text = some (c, rest)) : rest.length < text.length := by
  rw [readCode?] at h
  split at h
  · next d tail hdrop =>
    obtain ⟨c', -, hc⟩ := Option.map_eq_some_iff.mp h
    cases hc
    have hlength := (List.dropWhile_sublist (l := text) (· != '\x7d')).length_le
    rw [hdrop, List.length_cons] at hlength
    omega
  · cases h

theorem readChar?_length {text rest : List Char} {c : Char}
    (h : readChar? text = some (c, rest)) : rest.length < text.length := by
  unfold readChar? at h
  split at h
  · cases h
  · have := readCode?_length h
    simp only [List.length_cons]
    omega
  · split at h
    · cases h
      simp
    · cases h

theorem rangeFrom?_length {first : Char} {text rest : List Char} {item : SetItem}
    (h : rangeFrom? first text = some (item, rest)) : rest.length ≤ text.length := by
  unfold rangeFrom? at h
  split at h
  · split at h
    · next tail last rest' hlast =>
      have := readChar?_length hlast
      split at h
      · cases h
        simp only [List.length_cons]
        omega
      · cases h
    · cases h
  · cases h
    exact Nat.le_refl _

theorem readMember?_length {text rest : List Char} {item : SetItem}
    (h : readMember? text = some (item, rest)) : rest.length < text.length := by
  unfold readMember? at h
  split at h
  · next named rest' hclass =>
    cases h
    exact readClass?_length hclass
  · split at h
    · next inner =>
      split at h
      · next named rest' hclass =>
        cases h
        have := readClass?_length hclass
        simp only [List.length_cons] at *
        omega
      · cases h
    · obtain ⟨⟨first, tail⟩, hfirst, hrange⟩ := Option.bind_eq_some_iff.mp h
      exact Nat.lt_of_le_of_lt (rangeFrom?_length hrange) (readChar?_length hfirst)

/-- The members of a class up to the closing bracket, and the text after it. -/
def readMembers? : List Char → Option (List SetItem × List Char)
  | [] => none
  | ']' :: rest => some ([], rest)
  | text =>
      match _h : readMember? text with
      | some (item, rest) => (readMembers? rest).map fun (items, tail) => (item :: items, tail)
      | none => none
termination_by text => text.length
decreasing_by exact readMember?_length _h

/-! ## Items -/

/-- A class after its opening bracket, with one member at least, and the text after it. -/
def readBrackets? (negated : Bool) (text : List Char) : Option (Single × List Char) :=
  match readMembers? text with
  | some (item :: items, rest) => some (.set ⟨item :: items, negated⟩, rest)
  | _ => none

/-- The item in front of a text that matches one character, and the text after it. -/
def readSingle? (text : List Char) : Option (Single × List Char) :=
  match textAfter? "(?:\\b\\B)".toList text with
  | some rest => some (.set ⟨[], false⟩, rest)
  | none =>
      match text with
      | '.' :: rest => some (.any, rest)
      | '[' :: '^' :: rest => readBrackets? true rest
      | '[' :: rest => readBrackets? false rest
      | '\\' :: c :: rest => if isMeta c then some (.char c, rest) else none
      | c :: rest => if isMeta c then none else some (.char c, rest)
      | [] => none

/-- The quantifier in front of a text, if there is one, and the text after it. -/
def readQuantifier : List Char → Option Repetition × List Char
  | '*' :: '?' :: rest => (some .fewest, rest)
  | '*' :: rest => (some .many, rest)
  | '+' :: rest => (some .some, rest)
  | '?' :: rest => (some .optional, rest)
  | rest => (none, rest)

/-- A single item as it is, or repeated if a quantifier follows, and the text after it. -/
def quantified (single : Single) (text : List Char) : Item × List Char :=
  match readQuantifier text with
  | (some repetition, rest) => (.repeated single repetition, rest)
  | (none, rest) => (.one single, rest)

/-- The item in front of a text, and the text after it. -/
def readItem? (text : List Char) : Option (Item × List Char) :=
  match readSingle? text with
  | some (single, rest) => some (quantified single rest)
  | none =>
      match text with
      | '(' :: rest => some (.openCapture, rest)
      | ')' :: rest => some (.closeCapture, rest)
      | '\\' :: 'z' :: rest => some (.endAnchor, rest)
      | _ => none

theorem readMembers?_length {text rest : List Char} {items : List SetItem}
    (h : readMembers? text = some (items, rest)) : rest.length < text.length := by
  fun_induction readMembers? text generalizing items with
  | case1 => cases h
  | case2 rest' =>
    cases h
    simp
  | case3 text _ _ item tail hitem ih =>
    obtain ⟨⟨others, rest'⟩, hothers, hpair⟩ := Option.map_eq_some_iff.mp h
    cases hpair
    exact Nat.lt_trans (ih hothers) (readMember?_length hitem)
  | case4 => cases h

theorem readBrackets?_length {negated : Bool} {text rest : List Char} {single : Single}
    (h : readBrackets? negated text = some (single, rest)) : rest.length < text.length := by
  unfold readBrackets? at h
  split at h
  · next item items rest' hmembers =>
    cases h
    exact readMembers?_length hmembers
  · cases h

theorem readSingle?_length {text rest : List Char} {single : Single}
    (h : readSingle? text = some (single, rest)) : rest.length < text.length := by
  unfold readSingle? at h
  split at h
  · next rest' hprefix =>
    cases h
    rw [textAfter?_eq_some_iff.mp hprefix, List.length_append]
    exact Nat.lt_add_of_pos_left (by decide)
  · split at h
    · cases h
      simp
    · have := readBrackets?_length h
      simp only [List.length_cons]
      omega
    · have := readBrackets?_length h
      simp only [List.length_cons]
      omega
    · split at h
      · cases h
        simp only [List.length_cons]
        omega
      · cases h
    · split at h
      · cases h
      · cases h
        simp
    · cases h

theorem readQuantifier_length (text : List Char) :
    (readQuantifier text).2.length ≤ text.length := by
  unfold readQuantifier
  split <;> simp only [List.length_cons] <;> omega

theorem quantified_length (single : Single) (text : List Char) :
    (quantified single text).2.length ≤ text.length := by
  have h := readQuantifier_length text
  unfold quantified
  split
  · next hread => rwa [hread] at h
  · next hread => rwa [hread] at h

theorem readItem?_length {text rest : List Char} {item : Item}
    (h : readItem? text = some (item, rest)) : rest.length < text.length := by
  unfold readItem? at h
  split at h
  · next single tail hsingle =>
    have hlength := quantified_length single tail
    rw [Option.some.inj h] at hlength
    exact Nat.lt_of_le_of_lt hlength (readSingle?_length hsingle)
  · split at h
    · cases h
      simp
    · cases h
      simp
    · cases h
      simp only [List.length_cons]
      omega
    · cases h

/-! ## Expressions -/

/-- All items of a text, with `depth` groups open before it.  Each group must be closed. -/
def readItems? (depth : Nat) : List Char → Option (List Item)
  | [] => if depth = 0 then some [] else none
  | c :: text =>
      match _h : readItem? (c :: text) with
      | some (item, rest) =>
          match item.depthAfter? depth with
          | some next => (readItems? next rest).map (item :: ·)
          | none => none
      | none => none
termination_by text => text.length
decreasing_by exact readItem?_length _h

/-- The expression a text writes. -/
def parse? (text : List Char) : Option Expression :=
  match textAfter? "(?s)".toList text with
  | some ('\\' :: 'A' :: rest) => (readItems? 0 rest).map (⟨true, ·⟩)
  | some rest => (readItems? 0 rest).map (⟨false, ·⟩)
  | none => none

end Regex

end LuaRuntime
