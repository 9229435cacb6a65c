import LuaRuntime.Library.String
import LuaRuntime.Proofs.State.Action

/-!
# Quoted texts

`Quoted.read` reads a text between double quotes at the start of a text, and gives back what
follows.  A backslash goes with the characters after it: up to three decimal digits are the code of
a character, `r` is a carriage return, and any other character stands for itself.  The first double
quote that no backslash goes with is the end.

Reading undoes `Field.quote`, whatever follows (`read_quote`).  The digits of a code are read as far
as they go, so what is written for a character must not depend on the next one: the zero character
has all three digits, and `readBody_quoteChar` holds before any text.
-/

namespace LuaRuntime

namespace Quoted

open LuaRuntime.Field (quote quoteChar)

/-! ## Reading -/

/-- The digits of a code, three of them at most. -/
def codeDigits (text : List Char) : List Char := (text.take 3).takeWhile Char.isDigit

/-- The character that a backslash and the characters after it stand for, and what follows. -/
def readEscape (text : List Char) : Option (Char × List Char) :=
  if codeDigits text = [] then
    match text with
    | [] => none
    | c :: rest => some (if c = 'r' then '\r' else c, rest)
  else
    some (Char.ofNat (Nat.ofDigitChars 10 (codeDigits text) 0), text.drop (codeDigits text).length)

theorem readEscape_length {text rest : List Char} {c : Char}
    (h : readEscape text = some (c, rest)) : rest.length < text.length := by
  rw [readEscape.eq_def] at h
  split at h
  · cases text with
    | nil => cases h
    | cons d text =>
      obtain ⟨-, rfl⟩ := Prod.mk.inj (Option.some.inj h)
      exact Nat.lt_succ_self _
  · next hdigits =>
    obtain ⟨-, rfl⟩ := Prod.mk.inj (Option.some.inj h)
    have hpos : 0 < (codeDigits text).length := List.length_pos_iff.mpr hdigits
    have hle : (codeDigits text).length ≤ text.length :=
      Nat.le_trans (List.takeWhile_sublist _).length_le (List.take_sublist 3 text).length_le
    rw [List.length_drop]
    omega

/-- The characters up to the double quote that ends them, and what follows it. -/
def readBody : List Char → Option (List Char × List Char)
  | [] => none
  | c :: rest =>
      if c = '"' then some ([], rest)
      else if c = '\n' then none
      else if c = '\\' then
        match _h : readEscape rest with
        | none => none
        | some (d, tail) => (readBody tail).map (Prod.map (d :: ·) id)
      else (readBody rest).map (Prod.map (c :: ·) id)
termination_by text => text.length
decreasing_by
  · exact Nat.lt_succ_of_lt (readEscape_length _h)
  · exact Nat.lt_succ_self _

/-- The text between double quotes that another text starts with, and what follows. -/
def read : List Char → Option (List Char × List Char)
  | '"' :: body => readBody body
  | _ => none

/-! ## One character -/

theorem readBody_quote (rest : List Char) : readBody ('"' :: rest) = some ([], rest) := by
  rw [readBody, if_pos rfl]

theorem readBody_backslash {text rest : List Char} {c : Char}
    (h : readEscape text = some (c, rest)) :
    readBody ('\\' :: text) = (readBody rest).map (Prod.map (c :: ·) id) := by
  rw [readBody, if_neg (by decide), if_neg (by decide), if_pos rfl]
  split
  · next hnone => cases hnone.symm.trans h
  · next d tail hsome =>
    obtain ⟨rfl, rfl⟩ := Prod.mk.inj (Option.some.inj (hsome.symm.trans h))
    rfl

theorem readBody_plain {c : Char} (hquote : c ≠ '"') (hline : c ≠ '\n') (hback : c ≠ '\\')
    (rest : List Char) : readBody (c :: rest) = (readBody rest).map (Prod.map (c :: ·) id) := by
  rw [readBody, if_neg hquote, if_neg hline, if_neg hback]

/-- What is written for a character is read as that character, whatever follows. -/
theorem readBody_quoteChar (c : Char) (rest : List Char) :
    readBody (quoteChar c ++ rest) = (readBody rest).map (Prod.map (c :: ·) id) := by
  rw [Field.quoteChar.eq_def]
  split
  · exact readBody_backslash rfl
  · exact readBody_backslash rfl
  · exact readBody_backslash rfl
  · exact readBody_backslash rfl
  · exact readBody_backslash rfl
  · next hquote hback hline _ _ => exact readBody_plain hquote hline hback rest

/-! ## Whole texts -/

theorem readBody_flatMap (text rest : List Char) :
    readBody (text.flatMap quoteChar ++ '"' :: rest) = some (text, rest) := by
  induction text with
  | nil => exact readBody_quote rest
  | cons c text ih =>
    rw [List.flatMap_cons, List.append_assoc, readBody_quoteChar, ih]
    rfl

theorem read_quote (text rest : List Char) : read (quote text ++ rest) = some (text, rest) := by
  have hquote : quote text ++ rest = '"' :: (text.flatMap quoteChar ++ '"' :: rest) := by
    simp [quote]
  rw [hquote]
  exact readBody_flatMap text rest

/-! ## Texts that go on -/

/-- The digits of a code stay the same if they are followed by something already. -/
theorem codeDigits_append {text : List Char} (h : (codeDigits text).length < text.length)
    (more : List Char) : codeDigits (text ++ more) = codeDigits text := by
  rw [codeDigits] at h
  rw [codeDigits, codeDigits, List.take_append, List.takeWhile_append]
  split
  · next hall =>
    rw [hall, List.length_take] at h
    have hthree : 3 - text.length = 0 := by omega
    rw [hthree, List.take_zero, List.takeWhile_nil, List.append_nil]
    exact ((List.takeWhile_prefix _).eq_of_length hall).symm
  · rfl

theorem readEscape_append {text rest : List Char} {c : Char}
    (h : readEscape text = some (c, rest)) (hrest : rest ≠ []) (more : List Char) :
    readEscape (text ++ more) = some (c, rest ++ more) := by
  have hlength : (codeDigits text).length < text.length := by
    rw [readEscape.eq_def] at h
    split at h
    · next hnone =>
      rw [hnone]
      cases text with
      | nil => cases h
      | cons => exact Nat.succ_pos _
    · obtain ⟨-, rfl⟩ := Prod.mk.inj (Option.some.inj h)
      exact Nat.lt_of_not_le fun hle => hrest (List.drop_eq_nil_iff.mpr hle)
  rw [readEscape.eq_def] at h ⊢
  rw [codeDigits_append hlength]
  split at h
  · next hnone =>
    rw [if_pos hnone]
    cases text with
    | nil => cases h
    | cons d text =>
      obtain ⟨rfl, rfl⟩ := Prod.mk.inj (Option.some.inj h)
      rfl
  · next hsome =>
    obtain ⟨rfl, rfl⟩ := Prod.mk.inj (Option.some.inj h)
    rw [if_neg hsome, List.drop_append_of_le_length (Nat.le_of_lt hlength)]

/-- Once a text between double quotes has ended, what follows is only handed on. -/
theorem readBody_append {text value rest : List Char} (h : readBody text = some (value, rest))
    (more : List Char) : readBody (text ++ more) = some (value, rest ++ more) := by
  fun_induction readBody text generalizing value rest with
  | case1 => cases h
  | case2 tail =>
    obtain ⟨rfl, rfl⟩ := Prod.mk.inj (Option.some.inj h)
    exact readBody_quote _
  | case3 => cases h
  | case4 => cases h
  | case5 tail d after hescape _ _ ih =>
    obtain ⟨⟨value, rest⟩, hbody, heq⟩ := Option.map_eq_some_iff.mp h
    cases heq
    have hafter : after ≠ [] := by
      rintro rfl
      simp [readBody] at hbody
    rw [List.cons_append, readBody_backslash (readEscape_append hescape hafter more), ih hbody]
    rfl
  | case6 c tail hquote hline hback ih =>
    obtain ⟨⟨value, rest⟩, hbody, heq⟩ := Option.map_eq_some_iff.mp h
    cases heq
    rw [List.cons_append, readBody_plain hquote hline hback, ih hbody]
    rfl

theorem read_append {text value rest : List Char} (h : read text = some (value, rest))
    (more : List Char) : read (text ++ more) = some (value, rest ++ more) := by
  rw [read.eq_def] at h
  split at h
  · exact readBody_append h more
  · cases h

/-- No text is quoted by what another quoted text starts with. -/
theorem read_front {text front more : List Char} (h : quote text = front ++ more)
    (hmore : more ≠ []) : read front = none := by
  cases hfront : read front with
  | none => rfl
  | some result =>
    obtain ⟨value, rest⟩ := result
    have hwhole := read_quote text []
    rw [List.append_nil, h, read_append hfront more, Option.some.injEq, Prod.mk.injEq] at hwhole
    exact absurd (List.append_eq_nil_iff.mp hwhole.2).2 hmore

theorem quote_injective : Function.Injective quote := by
  intro left right h
  have hread := read_quote left []
  rw [h, read_quote, Option.some.injEq, Prod.mk.injEq] at hread
  exact hread.1.symm

/-! ## Fields -/

/-- The field of a quoting directive is the quoted text of its value, with spaces on one side if it
has a width. -/
theorem renderDirective_quoted (call : Invoke) {d : Directive} (hd : d.conversion = .quoted)
    (position : Nat) {v : Value} {s t : State} {x : String} (h : Gives (text call v) s x t) :
    ∃ left right, (d.width = none → left = 0 ∧ right = 0) ∧
      Gives (renderDirective call d v position) s
        (List.replicate left ' ' ++ (quote x.toList ++ List.replicate right ' ')) t := by
  have hrun : Gives (renderDirective call d v position) s
      (Field.padText d (quote x.toList)) t := by
    rw [renderDirective, hd]
    have hfield : Field.textField d x.toList = Field.padText d (quote x.toList) := by
      rw [Field.textField, hd]
    exact hfield ▸ h.bind (gives_pure _ t)
  rw [Field.padText, Field.fill] at hrun
  have hnone : d.width = none → d.width.getD 0 - (quote x.toList).length = 0 := by
    intro hwidth
    rw [hwidth, Option.getD_none, Nat.zero_sub]
  split at hrun
  · exact ⟨0, _, fun hwidth => ⟨rfl, hnone hwidth⟩, hrun⟩
  · exact ⟨_, 0, fun hwidth => ⟨hnone hwidth, rfl⟩, by simpa using hrun⟩

/-- A quoted text reads back as the text that was quoted, and is read to its end and no further,
whatever follows.  So no two texts are quoted alike, none ends before its last character, and a
quoting directive writes a text that reads back as that of its value. -/
theorem quoted_text_reads_back :
    (∀ text, read (quote text) = some (text, [])) ∧
      (∀ text rest, read (quote text ++ rest) = some (text, rest)) ∧
      Function.Injective quote ∧
      (∀ text front more, quote text = front ++ more → more ≠ [] → read front = none) ∧
      ∀ (call : Invoke) (d : Directive) (position : Nat) (v : Value) (s t : State) (x : String),
        d.conversion = .quoted → Gives (text call v) s x t →
          ∃ left right, (d.width = none → left = 0 ∧ right = 0) ∧
            Gives (renderDirective call d v position) s
              (List.replicate left ' ' ++ (quote x.toList ++ List.replicate right ' ')) t := by
  refine ⟨fun text => ?_, read_quote, quote_injective, fun _ _ _ => read_front, ?_⟩
  · rw [← read_quote text [], List.append_nil]
  · intro call d position v s t x hd h
    exact renderDirective_quoted call hd position h

/-- A zero character before a digit, a double quote and a line break. -/
def awkwardText : List Char := ['\x00', '1', '"', '\n']

theorem awkwardText_reads_back :
    quote awkwardText = "\"\\0001\\\"\\\n\"".toList ∧
      read (quote awkwardText) = some (awkwardText, []) ∧
      read "\"\\0001\\\"\\\n".toList = none ∧
      Gives (renderDirective (fun _ _ => throw .stackOverflow) ⟨.next, {}, none, none, .quoted⟩
        (.string (String.ofList awkwardText)) 1) (State.initial {} .keep 0) (quote awkwardText)
        (State.initial {} .keep 0) := by
  obtain ⟨hread, -, -, hfront, hfield⟩ := quoted_text_reads_back
  refine ⟨by decide, hread awkwardText, hfront awkwardText _ ['"'] (by decide) (by decide), ?_⟩
  obtain ⟨left, right, hwidth, hgives⟩ := hfield (fun _ _ => throw .stackOverflow)
    ⟨.next, {}, none, none, .quoted⟩ 1 (.string (String.ofList awkwardText))
    (State.initial {} .keep 0) (State.initial {} .keep 0) (String.ofList awkwardText) rfl rfl
  obtain ⟨rfl, rfl⟩ := hwidth rfl
  rw [String.toList_ofList] at hgives
  simpa using hgives

end Quoted

end LuaRuntime
