import LuaRuntime.Error
import LuaRuntime.Pattern.Syntax

/-!
# Reading patterns

`Pattern.parse` reads the text of a pattern.  A quantifier stands after the
single-character item it repeats.  Anywhere else it is an ordinary character, which may
itself be followed by a quantifier.  So the reader looks for a quantifier after every
single-character item, and nowhere else.

Some constructs are refused: balanced matches, references back to a capture, classes
inside a set, the quantifier `-` after anything but a plain character, and a frontier
after a repetition.  The number of captures is limited.

The reader of a set gives back the text after the closing bracket.  `setItems_length`
says that this text is shorter than what it was given, which is why the reader of items
ends.
-/

namespace LuaRuntime

namespace Pattern

/-- The most captures a pattern may have. -/
def captureLimit : Nat := 32

/-! ## Sets -/

/-- What a reader of a list of members gives: the members and the text after them. -/
abbrev SetReading := Except PatternFault (List SetItem × List Char)

/-- A reading with one more member in front. -/
def SetReading.cons (item : SetItem) (reading : SetReading) : SetReading :=
  reading.map fun (items, tail) => (item :: items, tail)

theorem SetReading.cons_eq_ok {item : SetItem} {reading : SetReading} {items : List SetItem}
    {tail : List Char} (h : SetReading.cons item reading = .ok (items, tail)) :
    ∃ others, reading = .ok (others, tail) := by
  cases reading with
  | error e => simp [SetReading.cons, Except.map] at h
  | ok r =>
    simp only [SetReading.cons, Except.map, Except.ok.injEq, Prod.mk.injEq] at h
    exact ⟨r.1, by rw [← h.2]⟩

/-- The members of a set after its first one, up to the closing bracket, and the text
after that.  Classes are refused unless `classes` is set. -/
def setItems (classes : Bool) : List Char → SetReading
  | [] => .error .missingBracket
  | ']' :: rest => .ok ([], rest)
  | ['%'] => .error .missingBracket
  | '%' :: c :: rest =>
      match CharClass.ofLetter? c with
      | some named =>
          if classes then .cons (.class named c.isUpper) (setItems classes rest)
          else .error (.unsupported "character class inside a set")
      | none => .cons (.char c) (setItems classes rest)
  | first :: '-' :: last :: rest =>
      if last = ']' then .ok ([.char first, .char '-'], rest)
      else .cons (.range first last) (setItems classes rest)
  | c :: rest => .cons (.char c) (setItems classes rest)

theorem setItems_length {classes : Bool} {text : List Char} {items : List SetItem}
    {tail : List Char} (h : setItems classes text = .ok (items, tail)) :
    tail.length < text.length := by
  fun_induction setItems classes text generalizing items tail with
  | case1 => simp at h
  | case2 rest =>
    simp only [Except.ok.injEq, Prod.mk.injEq] at h
    simp [← h.2]
  | case3 => simp at h
  | case4 c rest named _ _ ih =>
    obtain ⟨others, hr⟩ := SetReading.cons_eq_ok h
    have := ih hr
    simp only [List.length_cons]
    omega
  | case5 => simp at h
  | case6 c rest _ ih =>
    obtain ⟨others, hr⟩ := SetReading.cons_eq_ok h
    have := ih hr
    simp only [List.length_cons]
    omega
  | case7 first rest =>
    simp only [Except.ok.injEq, Prod.mk.injEq] at h
    simp only [← h.2, List.length_cons]
    omega
  | case8 first last rest _ _ _ ih =>
    obtain ⟨others, hr⟩ := SetReading.cons_eq_ok h
    have := ih hr
    simp only [List.length_cons]
    omega
  | case9 c rest _ _ _ _ ih =>
    obtain ⟨others, hr⟩ := SetReading.cons_eq_ok h
    have := ih hr
    simp only [List.length_cons]
    omega

/-- The members of a set up to the closing bracket.  A closing bracket in the first place
is a member. -/
def members (classes : Bool) : List Char → SetReading
  | ']' :: rest => .cons (.char ']') (setItems classes rest)
  | rest => setItems classes rest

theorem members_length {classes : Bool} {text : List Char} {items : List SetItem}
    {tail : List Char} (h : members classes text = .ok (items, tail)) :
    tail.length < text.length := by
  unfold members at h
  split at h
  · obtain ⟨others, hr⟩ := SetReading.cons_eq_ok h
    have := setItems_length hr
    simp only [List.length_cons]
    omega
  · exact setItems_length h

/-- A set after its opening bracket, and the text after its closing one. -/
def charSet (classes : Bool) (text : List Char) : Except PatternFault (CharSet × List Char) :=
  match text with
  | '^' :: rest => (members classes rest).map fun (items, tail) => (⟨items, true⟩, tail)
  | rest => (members classes rest).map fun (items, tail) => (⟨items, false⟩, tail)

theorem charSet_length {classes : Bool} {text : List Char} {set : CharSet} {tail : List Char}
    (h : charSet classes text = .ok (set, tail)) : tail.length < text.length := by
  unfold charSet at h
  split at h
  · rename_i rest
    cases hm : members classes rest with
    | error e => simp [hm, Except.map] at h
    | ok r =>
      simp only [hm, Except.map, Except.ok.injEq, Prod.mk.injEq] at h
      have := members_length hm
      simp only [← h.2, List.length_cons]
      omega
  · cases hm : members classes text with
    | error e => simp [hm, Except.map] at h
    | ok r =>
      simp only [hm, Except.map, Except.ok.injEq, Prod.mk.injEq] at h
      have := members_length hm
      rw [← h.2]
      exact this

/-! ## Items -/

/-- What the reader knows about the items before the current place. -/
structure Context where
  /-- The number of captures so far. -/
  captures : Nat := 0
  /-- The number of captures not closed yet. -/
  opened : Nat := 0
  /-- Whether there was a repetition. -/
  repeated : Bool := false
deriving Repr, DecidableEq

/-- The repetition a character stands for after a single-character item. -/
def quantifier? : Char → Option Repetition
  | '*' => some .many
  | '+' => some .some
  | '?' => some .optional
  | '-' => some .fewest
  | _ => none

/-- A single-character item with the quantifier after it, if there is one. -/
def quantified (context : Context) (single : Single) (text : List Char) :
    Item × List Char × Context :=
  match text with
  | [] => (.one single, [], context)
  | c :: rest =>
      match quantifier? c with
      | some repetition => (.repeated single repetition, rest, { context with repeated := true })
      | none => (.one single, c :: rest, context)

theorem quantified_length (context : Context) (single : Single) (text : List Char) :
    (quantified context single text).2.1.length ≤ text.length := by
  unfold quantified
  split
  · simp
  · split <;> simp

/-- The item after an opening parenthesis. -/
def capture (context : Context) (text : List Char) :
    Except PatternFault (Item × List Char × Context) :=
  if captureLimit ≤ context.captures then .error .tooManyCaptures
  else
    let context := { context with captures := context.captures + 1 }
    match text with
    | ')' :: rest => .ok (.position, rest, context)
    | rest => .ok (.openCapture, rest, { context with opened := context.opened + 1 })

/-- The item after a closing parenthesis. -/
def closing (context : Context) (text : List Char) :
    Except PatternFault (Item × List Char × Context) :=
  if context.opened = 0 then .error .unopenedCapture
  else if text.head? = some '-' then .error (.unsupported "'-' after a capture group")
  else .ok (.closeCapture, text, { context with opened := context.opened - 1 })

/-- The item after an opening bracket. -/
def set (context : Context) (text : List Char) :
    Except PatternFault (Item × List Char × Context) :=
  match charSet false text with
  | .error e => .error e
  | .ok (members, rest) =>
      if rest.head? = some '-' then .error (.unsupported "'-' after a character set")
      else .ok (quantified context (.set members) rest)

/-- The frontier after `%f`. -/
def frontier (context : Context) (text : List Char) :
    Except PatternFault (Item × List Char × Context) :=
  match text with
  | '[' :: rest =>
      if context.repeated then .error (.unsupported "'%f' after a repeated item")
      else
        match charSet true rest with
        | .error e => .error e
        | .ok (members, tail) => .ok (.frontier members, tail, context)
  | _ => .error .frontierWithoutSet

/-- The item after a percent sign and another character. -/
def escaped (context : Context) (c : Char) (text : List Char) :
    Except PatternFault (Item × List Char × Context) :=
  if c = 'b' then .error (.unsupported "balanced match '%b'")
  else if c = 'f' then frontier context text
  else if c.isDigit then .error (.unsupported "back-reference '%N'")
  else
    match CharClass.ofLetter? c with
    | some named =>
        if text.head? = some '-' then .error (.unsupported "'-' after a character class")
        else .ok (quantified context (.class named c.isUpper) text)
    | none => .ok (quantified context (.char c) text)

/-- The first item of a text that starts with a character, the text after it, and what is
known then. -/
def item (context : Context) (c : Char) (text : List Char) :
    Except PatternFault (Item × List Char × Context) :=
  match c with
  | '(' => capture context text
  | ')' => closing context text
  | '[' => set context text
  | '.' => .ok (quantified context .any text)
  | '%' =>
      match text with
      | [] => .error .trailingPercent
      | d :: rest => escaped context d rest
  | '$' =>
      if text.isEmpty then .ok (.endAnchor, [], context)
      else .ok (quantified context (.char '$') text)
  | c => .ok (quantified context (.char c) text)

theorem capture_length {context next : Context} {text rest : List Char} {i : Item}
    (h : capture context text = .ok (i, rest, next)) : rest.length ≤ text.length := by
  unfold capture at h
  split at h
  · simp at h
  · split at h <;> simp only [Except.ok.injEq, Prod.mk.injEq] at h <;> simp [← h.2.1]

theorem closing_length {context next : Context} {text rest : List Char} {i : Item}
    (h : closing context text = .ok (i, rest, next)) : rest.length ≤ text.length := by
  unfold closing at h
  split at h
  · simp at h
  · split at h
    · simp at h
    · simp only [Except.ok.injEq, Prod.mk.injEq] at h
      simp [← h.2.1]

theorem length_of_quantified {context next : Context} {single : Single}
    {text rest : List Char} {i : Item}
    (h : (.ok (quantified context single text) :
      Except PatternFault (Item × List Char × Context)) = .ok (i, rest, next)) :
    rest.length ≤ text.length := by
  have := quantified_length context single text
  simp only [Except.ok.injEq] at h
  rw [h] at this
  exact this

theorem set_length {context next : Context} {text rest : List Char} {i : Item}
    (h : set context text = .ok (i, rest, next)) : rest.length ≤ text.length := by
  unfold set at h
  split at h
  · simp at h
  · rename_i members tail hm
    have := charSet_length hm
    split at h
    · simp at h
    · have := length_of_quantified h
      omega

theorem frontier_length {context next : Context} {text rest : List Char} {i : Item}
    (h : frontier context text = .ok (i, rest, next)) : rest.length ≤ text.length := by
  unfold frontier at h
  split at h
  · split at h
    · simp at h
    · split at h
      · simp at h
      · rename_i members tail hm
        have := charSet_length hm
        simp only [Except.ok.injEq, Prod.mk.injEq] at h
        simp only [← h.2.1, List.length_cons]
        omega
  · simp at h

theorem escaped_length {context next : Context} {c : Char} {text rest : List Char} {i : Item}
    (h : escaped context c text = .ok (i, rest, next)) : rest.length ≤ text.length := by
  unfold escaped at h
  split at h
  · simp at h
  · split at h
    · exact frontier_length h
    · split at h
      · simp at h
      · split at h
        · split at h
          · simp at h
          · exact length_of_quantified h
        · exact length_of_quantified h

/-- Reading an item uses up its first character at least. -/
theorem item_length {context next : Context} {c : Char} {text rest : List Char} {i : Item}
    (h : item context c text = .ok (i, rest, next)) : rest.length ≤ text.length := by
  unfold item at h
  split at h
  · exact capture_length h
  · exact closing_length h
  · exact set_length h
  · exact length_of_quantified h
  · split at h
    · simp at h
    · have := escaped_length h
      simp only [List.length_cons]
      omega
  · split at h
    · simp only [Except.ok.injEq, Prod.mk.injEq] at h
      simp [← h.2.1]
    · exact length_of_quantified h
  · exact length_of_quantified h

/-- All items of a text. -/
def parseItems (context : Context) : List Char → Except PatternFault (List Item)
  | [] => if 0 < context.opened then .error .unfinishedCapture else .ok []
  | c :: text =>
      match _h : item context c text with
      | .error e => .error e
      | .ok (first, rest, next) => (parseItems next rest).map (first :: ·)
termination_by text => text.length
decreasing_by
  have := item_length _h
  simp only [List.length_cons]
  omega

/-- The pattern a text writes.  A caret in the first place anchors it. -/
def parse (text : String) : Except PatternFault Pattern :=
  match text.toList with
  | '^' :: rest => (parseItems {} rest).map fun items => ⟨true, items⟩
  | rest => (parseItems {} rest).map fun items => ⟨false, items⟩

/-- Whether a text has no character that is special in a pattern, so that it matches
itself alone. -/
def isPlain (text : String) : Bool :=
  !text.toList.any fun c => "^$*+?.()[]%-".toList.contains c

end Pattern

end LuaRuntime
