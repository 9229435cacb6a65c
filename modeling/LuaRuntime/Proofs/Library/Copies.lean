import LuaRuntime.Machine
import LuaRuntime.Proofs.State.Action
import Mathlib.Tactic.Ring

/-!
# Copies of a text

`string.rep` builds copies of a text with a separator between neighbours, and refuses to if they
have more bytes than the limit.  The size is known beforehand: `Copies.utf8ByteSize_eq` gives it in
terms of the two texts.  It is worked out in steps that must each fit a word, and no step is greater
than the size itself, so as the limit fits a word, too, a step that does not fit tells of a size
above the limit (`repeatedSize?_eq`).

The limit may be greater than the capacity of any text.  Then there are sizes that are allowed, and
panic.
-/

namespace LuaRuntime

/-- Copies of a text, with a separator between neighbours and nowhere else. -/
inductive Copies (text separator : String) : ℕ → String → Prop
  | one : Copies text separator 1 text
  | more {n : ℕ} {copies : String} :
      Copies text separator n copies →
      Copies text separator (n + 1) (copies ++ separator ++ text)

variable {text separator : String}

/-! ## Sizes -/

/-- The exact number of bytes of copies of a text. -/
def copiesSize (text separator : String) (count : ℕ) : ℕ :=
  count * text.utf8ByteSize + (count - 1) * separator.utf8ByteSize

theorem Copies.pos {n : ℕ} {copies : String} (h : Copies text separator n copies) : 0 < n := by
  cases h with
  | one => exact Nat.one_pos
  | more h => exact Nat.succ_pos _

theorem Copies.utf8ByteSize_eq {n : ℕ} {copies : String} (h : Copies text separator n copies) :
    copies.utf8ByteSize = copiesSize text separator n := by
  induction h with
  | one => simp [copiesSize]
  | @more n copies h ih =>
    obtain ⟨k, rfl⟩ := Nat.exists_eq_succ_of_ne_zero h.pos.ne'
    simp only [String.utf8ByteSize_append, ih, copiesSize, Nat.succ_eq_add_one, Nat.add_sub_cancel]
    ring

/-- Each round adds a copy to those that were added before. -/
theorem Copies.addCopies {n : ℕ} {built : String} (h : Copies text separator n built)
    (count : ℕ) :
    Copies text separator (n + count) (addCopies text separator count n built) := by
  induction count generalizing n built with
  | zero => exact h
  | succ count ih =>
    have hnext := ih (.more h)
    rw [LuaRuntime.addCopies, if_pos h.pos]
    rwa [Nat.add_right_comm] at hnext

/-- The first round adds the text alone. -/
theorem copies_addCopies {count : ℕ} (h : 0 < count) :
    Copies text separator count (addCopies text separator count 0 "") := by
  obtain ⟨n, rfl⟩ := Nat.exists_eq_succ_of_ne_zero h.ne'
  have hfirst : Copies text separator 1 ("" ++ text) := by
    rw [String.empty_append]
    exact .one
  have hcopies := hfirst.addCopies n
  rwa [Nat.add_comm] at hcopies

/-- The size is missing exactly if it does not fit a word. -/
theorem repeatedSize?_eq (text separator : String) (count : ℕ) :
    repeatedSize? text.utf8ByteSize separator.utf8ByteSize count =
      if copiesSize text separator count < Value.wordCount then
        some (copiesSize text separator count)
      else none := by
  rw [copiesSize, Nat.mul_comm count, Nat.mul_comm (count - 1), repeatedSize?]
  generalize text.utf8ByteSize * count = body
  generalize separator.utf8ByteSize * (count - 1) = gaps
  by_cases hsize : body + gaps < Value.wordCount
  · have hbody : fitSize? body = some body := if_pos (by omega)
    have hgaps : fitSize? gaps = some gaps := if_pos (by omega)
    rw [hbody, hgaps, if_pos hsize]
    exact if_pos hsize
  · rw [if_neg hsize]
    -- Whichever step is the first that does not fit, there is no size.
    by_cases hbody : body < Value.wordCount
    · by_cases hgaps : gaps < Value.wordCount
      · simp [fitSize?, hbody, hgaps, hsize]
      · simp [fitSize?, hbody, hgaps]
    · simp [fitSize?, hbody]

/-! ## Runs -/

/-- What `string.rep` is asked for: a text, a number of copies, and a separator, by default an empty
one. -/
structure CopyArguments (args : List Value) (text : String) (count : ℤ) (separator : String) :
    Prop where
  text : Argument.string args 1 "rep" = .ok text
  count : Argument.integer args 2 "rep" = .ok count
  separator : ∃ given, Argument.optional Argument.string args 3 "rep" = .ok given ∧
    given.getD "" = separator

section

variable {args : List Value} {count : ℤ} {s : State}

/-- The copies are built exactly if their size is neither above the limit nor above the capacity of
a text. -/
theorem repeatString_run (hargs : CopyArguments args text count separator)
    (hlimit : s.limits.stringSize < Value.wordCount) :
    repeatString args s =
      if count ≤ 0 then (.ok "", s)
      else if s.limits.stringSize < copiesSize text separator count.toNat then
        (.error .stringTooLarge, s)
      else if greatestCapacity < copiesSize text separator count.toNat then (.error .panic, s)
      else (.ok (addCopies text separator count.toNat 0 ""), s) := by
  obtain ⟨given, hgiven, rfl⟩ := hargs.separator
  rw [repeatString, hargs.text, hargs.count, hgiven]
  simp only [lift_ok_bind]
  split
  · rfl
  · rw [repeatedSize?_eq]
    by_cases hword : copiesSize text (given.getD "") count.toNat < Value.wordCount
    · rw [if_pos hword]
      dsimp only
      rw [bind_run, gives_get]
      dsimp only
      split
      · rfl
      · split
        · rfl
        · rfl
    · rw [if_neg hword, if_pos (by omega)]
      rfl

/-- Let the limit be any size that fits a word.  A count that is not positive gives the empty text.
A positive one is refused, with an error of the class of types, if and only if the exact size of the
copies is above the limit.  Otherwise it gives copies of just that size, unless no text has so much
room, and then it panics.  Nothing changes the state. -/
theorem rep_builds_copies_or_refuses (engine : Regex.Engine) (call : Invoke)
    (hargs : CopyArguments args text count separator)
    (hlimit : s.limits.stringSize < Value.wordCount) :
    (count ≤ 0 → Gives (runString engine call .rep args) s [.string ""] s) ∧
    (0 < count →
      ((∃ e, e.class = .type ∧ runString engine call .rep args s = (.error e, s)) ↔
        s.limits.stringSize < copiesSize text separator count.toNat) ∧
      (copiesSize text separator count.toNat ≤ s.limits.stringSize →
        (copiesSize text separator count.toNat ≤ greatestCapacity →
          ∃ copies, Gives (runString engine call .rep args) s [.string copies] s ∧
            Copies text separator count.toNat copies ∧
            copies.utf8ByteSize = copiesSize text separator count.toNat) ∧
        (greatestCapacity < copiesSize text separator count.toNat →
          runString engine call .rep args s = (.error .panic, s)))) := by
  have hrun := repeatString_run hargs hlimit
  have hgives {copies : String} (h : repeatString args s = (.ok copies, s)) :
      Gives (runString engine call .rep args) s [.string copies] s := by
    rw [runString]
    exact Gives.bind h (gives_pure _ s)
  have hfails {e : Error} (h : repeatString args s = (.error e, s)) :
      runString engine call .rep args s = (.error e, s) := by
    rw [runString, bind_run, h]
  refine ⟨fun hcount => ?_, fun hcount => ?_⟩
  · rw [if_pos hcount] at hrun
    exact hgives hrun
  rw [if_neg (by omega)] at hrun
  by_cases hsize : s.limits.stringSize < copiesSize text separator count.toNat
  · rw [if_pos hsize] at hrun
    refine ⟨iff_of_true ⟨.stringTooLarge, rfl, hfails hrun⟩ hsize, fun hle => ?_⟩
    exact absurd hsize (Nat.not_lt.mpr hle)
  · rw [if_neg hsize] at hrun
    by_cases hroom : greatestCapacity < copiesSize text separator count.toNat
    · rw [if_pos hroom] at hrun
      refine ⟨iff_of_false ?_ hsize, fun _ => ⟨fun hle => ?_, fun _ => hfails hrun⟩⟩
      · rintro ⟨e, hclass, hrefused⟩
        rw [hfails hrun] at hrefused
        cases hrefused
        cases hclass
      · exact absurd hroom (Nat.not_lt.mpr hle)
    · rw [if_neg hroom] at hrun
      have hcopies : Copies text separator count.toNat _ := copies_addCopies (by omega)
      refine ⟨iff_of_false ?_ hsize, fun _ => ⟨fun _ => ?_, fun h => absurd h hroom⟩⟩
      · rintro ⟨e, -, hrefused⟩
        have hbuilds := hgives hrun
        rw [Gives, hrefused] at hbuilds
        cases hbuilds
      · exact ⟨_, hgives hrun, hcopies, hcopies.utf8ByteSize_eq⟩

end

/-- Three copies of `né` have just the eleven bytes that are allowed.  As many copies as the
greatest integer says are refused, whose size fits no word. -/
theorem rep_builds_or_refuses_accent :
    CopyArguments [.string "né", .ofNat 3, .string "-"] "né" 3 "-" ∧
      CopyArguments [.string "né", .ofNat (2 ^ 63), .string "-"] "né" Value.greatestInteger "-" ∧
      (State.initial { stringSize := 11 } .keep 0).limits.stringSize < Value.wordCount ∧
      Gives (runString Regex.backtracking (invoke 1) .rep [.string "né", .ofNat 3, .string "-"])
        (.initial { stringSize := 11 } .keep 0) [.string "né-né-né"]
        (.initial { stringSize := 11 } .keep 0) ∧
      ∃ e, e.class = .type ∧
        runString Regex.backtracking (invoke 1) .rep [.string "né", .ofNat (2 ^ 63), .string "-"]
          (.initial { stringSize := 11 } .keep 0) =
          (.error e, .initial { stringSize := 11 } .keep 0) := by
  have hfew : CopyArguments [.string "né", .ofNat 3, .string "-"] "né" 3 "-" :=
    ⟨rfl, by decide +kernel, some "-", rfl, rfl⟩
  have hmany :
      CopyArguments [.string "né", .ofNat (2 ^ 63), .string "-"] "né" Value.greatestInteger "-" :=
    ⟨rfl, by decide +kernel, some "-", rfl, rfl⟩
  have hlimit : (State.initial { stringSize := 11 } .keep 0).limits.stringSize <
      Value.wordCount := by decide
  obtain ⟨-, hbuilt⟩ := rep_builds_copies_or_refuses Regex.backtracking (invoke 1) hfew hlimit
  obtain ⟨-, hrefused⟩ := rep_builds_copies_or_refuses Regex.backtracking (invoke 1) hmany hlimit
  obtain ⟨-, hcopies⟩ := hbuilt (by decide)
  obtain ⟨copies, hgives, hthree, -⟩ := (hcopies (by decide +kernel)).1 (by decide +kernel)
  obtain ⟨hlarge, -⟩ := hrefused (by decide)
  have hjoined : copies = "né-né-né" := by
    cases hthree with
    | more htwo =>
      cases htwo with
      | more hone =>
        cases hone with
        | one => decide +kernel
        | more hnone => exact absurd hnone.pos (by decide)
  rw [hjoined] at hgives
  exact ⟨hfew, hmany, hlimit, hgives, hlarge.mpr (by decide +kernel)⟩

/-- A runtime that allows a text of any size that fits a word. -/
def unlimited : State := .initial { stringSize := Value.wordCount - 1 } .keep 0

/-- So many copies of `ab` are allowed whose size no text has room for. -/
theorem rep_panics_beyond_capacity :
    CopyArguments [.string "ab", .ofNat (2 ^ 62)] "ab" (2 ^ 62) "" ∧
      copiesSize "ab" "" (2 ^ 62) ≤ unlimited.limits.stringSize ∧
      unlimited.limits.stringSize < Value.wordCount ∧
      runString Regex.backtracking (invoke 1) .rep [.string "ab", .ofNat (2 ^ 62)] unlimited =
        (.error .panic, unlimited) := by
  have hargs : CopyArguments [.string "ab", .ofNat (2 ^ 62)] "ab" (2 ^ 62) "" :=
    ⟨rfl, by decide +kernel, none, rfl, rfl⟩
  have hlimit : unlimited.limits.stringSize < Value.wordCount := by decide
  have hrun := repeatString_run hargs hlimit
  rw [if_neg (by decide), if_neg (by decide +kernel), if_pos (by decide +kernel)] at hrun
  refine ⟨hargs, by decide +kernel, hlimit, ?_⟩
  rw [runString, bind_run, hrun]

end LuaRuntime
