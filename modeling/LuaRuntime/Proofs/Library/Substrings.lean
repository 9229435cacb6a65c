import LuaRuntime.Proofs.Library.IntegerReads
import LuaRuntime.Proofs.Text.Slice

/-!
# Parts of a string

`string.sub` gives a part of a string, `string.byte` the codes of its characters, and `string.char`
makes a string of codes.  All three speak of the characters in a range of positions, and a code is
a number that stands for one character and no other (`charsOfCodes_codes`).
-/

namespace LuaRuntime

/-- The codes of the characters of a text. -/
def codesOf (text : String) : List Value := text.toList.map fun c => .ofNat c.toNat

/-- The arguments name a text and two positions. -/
structure SliceArguments (args : List Value) (text : String) (first last : Int) : Prop where
  subject : ∀ function, Argument.string args 1 function = .ok text
  first : (Argument.get args 2).toInteger? = some first
  last : (Argument.get args 3).toInteger? = some last

/-! ## Codes -/

theorem charOf?_toNat (c : Char) : Field.charOf? c.toNat = some c := by
  have hvalid : Nat.isValidChar c.toNat := c.valid
  simp [Field.charOf?, hvalid]

/-- The codes of characters are those of these characters again. -/
theorem charsOfCodes_codes (position : Nat) (chars : List Char) :
    charsOfCodes position (chars.map fun c => .ofNat c.toNat) = .ok chars := by
  induction chars generalizing position with
  | nil => rfl
  | cons c chars ih =>
    have hcode : (Value.ofNat c.toNat).toInteger? = some (c.toNat : Int) := by
      have hlt : c.toNat < 2 ^ 32 := c.val.toNat_lt
      exact Value.toInteger?_ofNat (by omega)
    simp only [List.map_cons, charsOfCodes, hcode, charOf?_toNat, ih]
    rfl

/-! ## Runs -/

section

variable {engine : Regex.Engine} (call : Invoke) {args : List Value} {text : String}
  {first last : Int}

theorem runString_sub (hargs : SliceArguments args text first last) (s : State) :
    Gives (runString engine call .sub args) s [.string (Text.slice text first last)] s := by
  have hsub : subString args = .ok (Text.slice text first last) := by
    rw [subString, hargs.subject, Argument.optional_integer "sub" hargs.first,
      Argument.optional_integer "sub" hargs.last]
    rfl
  rw [runString]
  exact (gives_lift hsub s).bind (gives_pure _ s)

/-- The codes are those of the slice, though the characters are not reached by their offsets. -/
theorem codesOfRange_eq (hargs : SliceArguments args text first last) :
    codesOfRange args = .ok (codesOf (Text.slice text first last)) := by
  rw [codesOfRange, hargs.subject, Argument.optional_integer "byte" hargs.first,
    Argument.optional_integer "byte" hargs.last]
  simp only [bind, Except.bind, Option.getD_some]
  cases hrange : Text.range? first last text.length with
  | none =>
    rw [Text.slice_of_range?_eq_none hrange]
    rfl
  | some range =>
    rw [codesOf, Text.toList_slice_of_range? hrange]
    rfl

theorem runString_byte (hargs : SliceArguments args text first last) (s : State) :
    Gives (runString engine call .byte args) s (codesOf (Text.slice text first last)) s := by
  rw [runString]
  exact gives_lift (codesOfRange_eq hargs) s

/-- `string.char` makes a text of its codes. -/
theorem runString_char (text : String) (s : State) :
    Gives (runString engine call .char (codesOf text)) s [.string text] s := by
  have hchars := charsOfCodes_codes 1 text.toList
  rw [runString]
  refine (gives_lift hchars s).bind ?_
  rw [String.ofList_toList]
  exact gives_pure _ s

end

/-! ## Agreement -/

/-- A slice of a text has the characters from the first position to the last one, as far as they
are in the text, and is empty if and only if there are none.  `string.sub` gives the slice, and
`string.byte` the codes of its characters, of which `string.char` makes the slice again.  The
slices up to a position and after it make up the text. -/
theorem sub_byte_and_char_agree (engine : Regex.Engine) (call : Invoke) (text : String) :
    (∀ first last : Int,
      (Text.slice text first last).toList =
        Text.charsBetween text.toList (max 1 (Text.resolve first text.length))
          (min text.length (Text.resolve last text.length)) ∧
      (Text.slice text first last = "" ↔
        min (text.length : Int) (Text.resolve last text.length) <
          max 1 (Text.resolve first text.length))) ∧
    (∀ {args : List Value} {first last : Int} (s : State),
      SliceArguments args text first last →
      Gives (runString engine call .sub args) s [.string (Text.slice text first last)] s ∧
      Gives (runString engine call .byte args) s (codesOf (Text.slice text first last)) s ∧
      Gives (runString engine call .char (codesOf (Text.slice text first last))) s
        [.string (Text.slice text first last)] s) ∧
    ∀ k : Nat, k ≤ text.length →
      Text.slice text 1 k ++ Text.slice text (k + 1) (-1) = text := by
  refine ⟨fun first last => ⟨Text.toList_slice text first last, ?_⟩, ?_, ?_⟩
  · exact Text.slice_eq_empty_iff text first last
  · intro args first last s hargs
    exact ⟨runString_sub call hargs s, runString_byte call hargs s, runString_char call _ s⟩
  · intro k hk
    exact Text.slice_append_slice hk

/-- The last four characters of `naïve`, up to a position beyond the greatest integer. -/
theorem sub_byte_and_char_agree_on_accent :
    SliceArguments [.string "naïve", .ofInt (-4), .ofNat (2 ^ 63)] "naïve" (-4)
        Value.greatestInteger ∧
      Gives (runString Regex.backtracking (invoke 1) .sub
          [.string "naïve", .ofInt (-4), .ofNat (2 ^ 63)])
        (.initial {} .keep 0) [.string "aïve"] (.initial {} .keep 0) ∧
      Gives (runString Regex.backtracking (invoke 1) .byte
          [.string "naïve", .ofInt (-4), .ofNat (2 ^ 63)])
        (.initial {} .keep 0) [.ofNat 97, .ofNat 239, .ofNat 118, .ofNat 101]
        (.initial {} .keep 0) ∧
      Gives (runString Regex.backtracking (invoke 1) .char
          [.ofNat 97, .ofNat 239, .ofNat 118, .ofNat 101])
        (.initial {} .keep 0) [.string "aïve"] (.initial {} .keep 0) ∧
      2 ≤ "naïve".length ∧
      Text.slice "naïve" 1 2 ++ Text.slice "naïve" 3 (-1) = "naïve" := by
  have hargs : SliceArguments [.string "naïve", .ofInt (-4), .ofNat (2 ^ 63)] "naïve" (-4)
      Value.greatestInteger := ⟨fun _ => rfl, by decide +kernel, by decide +kernel⟩
  have hslice : Text.slice "naïve" (-4) Value.greatestInteger = "aïve" := by decide +kernel
  have hcodes : codesOf "aïve" = [.ofNat 97, .ofNat 239, .ofNat 118, .ofNat 101] := by
    decide +kernel
  obtain ⟨-, hruns, hparts⟩ := sub_byte_and_char_agree Regex.backtracking (invoke 1) "naïve"
  obtain ⟨hsub, hbyte, hchar⟩ := hruns (.initial {} .keep 0) hargs
  rw [hslice] at hsub
  rw [hslice, hcodes] at hbyte hchar
  exact ⟨hargs, hsub, hbyte, hchar, by decide, hparts 2 (by decide)⟩

end LuaRuntime
