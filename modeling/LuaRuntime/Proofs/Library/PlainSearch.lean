import LuaRuntime.Machine
import LuaRuntime.Proofs.Pattern.Compiled
import LuaRuntime.Proofs.Pattern.Plain
import LuaRuntime.Proofs.State.Action

/-!
# Searching for a plain text

`string.find` looks for a text without special characters as it is, and for any other text as a
pattern.  `findText` and `findPattern` are the two answers.  They count differently: the one adds
the characters of the wanted text to the first position, the other takes the place where the match
stops.  For a plain text they are the same (`plain_search_agrees`).

A plain text can always be read as a pattern, but the engine may refuse what it is translated to.
The engine that backtracks does so exactly if the text is too long (`new_backtracking_of_isPlain`).
The search for the text as it is asks no engine.
-/

namespace LuaRuntime

/-- The positions of the first match of a pattern and its captures, nil if there is none. -/
def findPattern (s : String) (c : CompiledPattern) (start : Cursor) : List Value :=
  match c.findAt s start with
  | none => [.nil]
  | some m => .ofNat (m.start.position + 1) :: .ofNat m.stop.position :: m.captureValues s

/-- The answer of a search from a position on, nil if that lies past the end of the text. -/
def foundFrom (s : String) (init : Int) (answer : Cursor → List Value) : List Value :=
  (searchStart? s init).elim [.nil] answer

/-- What the arguments of `string.find` say. -/
structure FindArguments (args : List Value) (text source : String) (init : Int) : Prop where
  subject : Argument.string args 1 "find" = .ok text
  pattern : Argument.string args 2 "find" = .ok source
  position : ∃ named, Argument.optional Argument.integer args 3 "find" = .ok named ∧
    named.getD 1 = init

/-! ## Places of a search -/

theorem isPlace_of_searchStart? {s : String} {init : Int} {start : Cursor}
    (h : searchStart? s init = some start) : start.IsPlace s := by
  rw [searchStart?] at h
  split at h
  · cases h
  · next hle =>
    cases h
    exact Cursor.isPlace_iff.mpr ⟨_, by omega, rfl⟩

/-! ## Plain texts as compiled patterns -/

namespace CompiledPattern

/-- A plain text is not compiled only if the engine refuses it. -/
theorem new_eq_error_of_isPlain {engine : Regex.Engine} {source : String}
    (hplain : Pattern.isPlain source = true) {fault : PatternFault}
    (h : new engine source = .error fault) :
    ∃ message, engine (Pattern.literal source.toList).regexText = .error message ∧
      fault = .refused message := by
  rw [new, Pattern.parse_of_isPlain hplain] at h
  dsimp only at h
  split at h
  · cases h
  · next message hmessage =>
    cases h
    exact ⟨message, hmessage, rfl⟩

/-- A plain text takes one state for each of its bytes. -/
theorem size_translated_literal (text : List Char) :
    Regex.size (Pattern.literal text).translated = String.utf8Len text * Regex.stateSize := by
  induction text with
  | nil => rfl
  | cons c text ih =>
    rw [String.utf8Len_cons, Nat.add_mul, ← ih, Nat.add_comm]
    rfl

/-- The engine that backtracks builds a plain text if and only if it is short enough. -/
theorem new_backtracking_of_isPlain {source : String} (hplain : Pattern.isPlain source = true) :
    new Regex.backtracking source =
      if Regex.sizeLimit < source.utf8ByteSize * Regex.stateSize then
        .error (.refused Regex.tooLarge)
      else .ok (ofPattern (Pattern.literal source.toList)) := by
  rw [new_backtracking (Pattern.parse_of_isPlain hplain), size_translated_literal,
    String.utf8Len_toList]

/-- Searching for the pattern of a plain text finds what searching for the text does. -/
theorem findAt_of_isPlain {engine : Regex.Engine} (hengine : engine.IsLeftmostFirst)
    {source : String} (hplain : Pattern.isPlain source = true) {c : CompiledPattern}
    (hc : new engine source = .ok c) {s : String} {start : Cursor} (hstart : start.IsPlace s) :
    c.findAt s start = (Text.find? s source start).map (Pattern.literalMatch s source) := by
  have hparse := Pattern.parse_of_isPlain hplain
  rw [findAt_eq_find hengine hparse hc hstart, Pattern.find_plain hplain hparse hstart]

end CompiledPattern

theorem findText_eq_findPattern {engine : Regex.Engine} (hengine : engine.IsLeftmostFirst)
    {source : String} (hplain : Pattern.isPlain source = true) {c : CompiledPattern}
    (hc : CompiledPattern.new engine source = .ok c) (s : String) (init : Int) :
    foundFrom s init (findText s source) = foundFrom s init (findPattern s c) := by
  rw [foundFrom, foundFrom]
  cases hstart : searchStart? s init with
  | none => rfl
  | some start =>
    rw [Option.elim_some, Option.elim_some, findText, findPattern,
      CompiledPattern.findAt_of_isPlain hengine hplain hc (isPlace_of_searchStart? hstart)]
    cases Text.find? s source start <;> rfl

/-! ## Runs -/

section

variable {engine : Regex.Engine} {args : List Value} {text source : String} {init : Int}

/-- The search for a plain text reads no pattern and changes nothing. -/
theorem findIn_of_isPlain (hargs : FindArguments args text source init)
    (hplain : Pattern.isPlain source = true) (s : State) :
    Gives (findIn engine args) s (foundFrom text init (findText text source)) s := by
  obtain ⟨named, hnamed, rfl⟩ := hargs.position
  rw [findIn]
  refine (gives_lift hargs.subject s).bind ((gives_lift hargs.pattern s).bind
    ((gives_lift hnamed s).bind ?_))
  dsimp only
  rw [foundFrom]
  cases searchStart? text (named.getD 1) with
  | none => exact gives_pure _ s
  | some start =>
    simp only [hplain, Bool.or_true, if_true]
    exact gives_pure _ s

/-- Any other text is read as a pattern, and the answer is the one of its first match. -/
theorem findIn_of_pattern (hargs : FindArguments args text source init)
    (hplain : Pattern.isPlain source = false) (hflag : (Argument.get args 4).isTruthy = false)
    {s t : State} {c : CompiledPattern} (hread : Gives (readPattern engine source) s c t)
    {start : Cursor} (hstart : searchStart? text init = some start) :
    Gives (findIn engine args) s (findPattern text c start) t := by
  obtain ⟨named, hnamed, rfl⟩ := hargs.position
  rw [findIn]
  refine (gives_lift hargs.subject s).bind ((gives_lift hargs.pattern s).bind
    ((gives_lift hnamed s).bind ?_))
  dsimp only
  rw [hstart]
  simp only [hplain, hflag, Bool.or_false, Bool.false_eq_true, if_false]
  refine hread.bind ?_
  rw [findPattern]
  cases c.findAt text start <;> exact gives_pure _ t

end

/-- A text without special characters can be read as a pattern, and only the engine may refuse what
it is translated to.  The answer of `string.find` is the one of the search for the text as it is.

If the engine builds the expression, searching for it and looking for the text come to the same
place wherever the search starts, and the match is as long as the text and has no captures.  So
`string.find` gives for every subject and every position what it would give by the pattern: the
positions of the first and of the last character, or nil. -/
theorem plain_search_agrees {engine : Regex.Engine} (hengine : engine.IsLeftmostFirst)
    {source : String} (hplain : Pattern.isPlain source = true) :
    (∃ p, Pattern.parse source = .ok p ∧
      ∀ fault, CompiledPattern.new engine source = .error fault →
        ∃ message, engine p.regexText = .error message ∧ fault = .refused message) ∧
    (∀ (call : Invoke) {args : List Value} {text : String} {init : Int} (s : State),
      FindArguments args text source init →
      Gives (runString engine call .find args) s (foundFrom text init (findText text source)) s) ∧
    ∀ c, CompiledPattern.new engine source = .ok c →
      (∀ text start, start.IsPlace text →
        c.findAt text start =
          (Text.find? text source start).map fun place =>
            ⟨place, place.forward text source.length, []⟩) ∧
      (∀ text init, foundFrom text init (findText text source) =
        foundFrom text init (findPattern text c)) ∧
      ∀ (call : Invoke) {args : List Value} {text : String} {init : Int} (s : State),
        FindArguments args text source init →
        Gives (runString engine call .find args) s (foundFrom text init (findPattern text c))
          s := by
  have hrun (call : Invoke) {args : List Value} {text : String} {init : Int} (s : State)
      (hargs : FindArguments args text source init) :
      Gives (runString engine call .find args) s (foundFrom text init (findText text source)) s :=
    findIn_of_isPlain hargs hplain s
  refine ⟨⟨_, Pattern.parse_of_isPlain hplain, fun fault =>
    CompiledPattern.new_eq_error_of_isPlain hplain⟩, hrun, fun c hc => ?_⟩
  have hagree := findText_eq_findPattern hengine hplain hc
  refine ⟨fun text start => CompiledPattern.findAt_of_isPlain hengine hplain hc, hagree, ?_⟩
  intro call args text init s hargs
  rw [← hagree]
  exact hrun call s hargs

/-- `ïv` stands at the third and fourth character of `naïve`. -/
theorem plain_search_finds_accent :
    Regex.backtracking.IsLeftmostFirst ∧ Pattern.isPlain "ïv" = true ∧
      FindArguments [.string "naïve", .string "ïv", .ofInt (-4)] "naïve" "ïv" (-4) ∧
      ∃ c, CompiledPattern.new Regex.backtracking "ïv" = .ok c ∧
        foundFrom "naïve" (-4) (findPattern "naïve" c) = [.ofNat 3, .ofNat 4] ∧
        Gives (runString Regex.backtracking (invoke 1) .find
            [.string "naïve", .string "ïv", .ofInt (-4)])
          (.initial {} .keep 0) [.ofNat 3, .ofNat 4] (.initial {} .keep 0) := by
  have hplain : Pattern.isPlain "ïv" = true := by decide
  have hargs : FindArguments [.string "naïve", .string "ïv", .ofInt (-4)] "naïve" "ïv" (-4) :=
    ⟨rfl, rfl, some (-4), by decide +kernel, rfl⟩
  have hc : CompiledPattern.new Regex.backtracking "ïv" =
      .ok (.ofPattern (Pattern.literal "ïv".toList)) := by
    rw [CompiledPattern.new_backtracking_of_isPlain hplain]
    exact if_neg (by decide)
  obtain ⟨-, hrun, hbuilt⟩ := plain_search_agrees Regex.backtracking_isLeftmostFirst hplain
  obtain ⟨-, hagree, -⟩ := hbuilt _ hc
  have hfound : foundFrom "naïve" (-4) (findText "naïve" "ïv") = [.ofNat 3, .ofNat 4] := by
    decide +kernel
  have hgives := hrun (invoke 1) (.initial {} .keep 0) hargs
  rw [hfound] at hgives
  exact ⟨Regex.backtracking_isLeftmostFirst, hplain, hargs, _, hc, (hagree _ _).symm.trans hfound,
    hgives⟩

/-- A million letters are a plain text, and too long for the engine that backtracks. -/
theorem new_millionLetters_eq_error :
    Pattern.isPlain (String.ofList (List.replicate 1000000 'a')) = true ∧
      CompiledPattern.new Regex.backtracking (String.ofList (List.replicate 1000000 'a')) =
        .error (.refused Regex.tooLarge) := by
  have hplain : Pattern.isPlain (String.ofList (List.replicate 1000000 'a')) = true := by
    rw [Pattern.isPlain_iff, String.toList_ofList]
    intro c hc
    obtain rfl := List.eq_of_mem_replicate hc
    decide
  have hsize (n : Nat) : String.utf8Len (List.replicate n 'a') = n := by
    induction n with
    | zero => rfl
    | succ n ih =>
      rw [List.replicate_succ, String.utf8Len_cons, ih]
      rfl
  refine ⟨hplain, ?_⟩
  rw [CompiledPattern.new_backtracking_of_isPlain hplain, ← String.utf8Len_toList,
    String.toList_ofList, hsize]
  exact if_pos (by decide)

/-- The empty text stands at the end of a text, and nowhere after it. -/
example : foundFrom "naïve" 6 (findText "naïve" "") = [.ofNat 6, .ofNat 5] ∧
    foundFrom "naïve" 7 (findText "naïve" "") = [.nil] := by
  decide +kernel

end LuaRuntime
