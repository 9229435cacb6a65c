import LuaRuntime.Text.Cursor
import Mathlib.Data.String.Basic

/-!
# Places and characters

A cursor with `n` characters before it stands where the list of characters is cut after its first
`n`.  Each operation of a cursor is told here as one on positions and on that list, so that no
later proof speaks of bytes.
-/

namespace LuaRuntime

/-- The character before a position of a text, NUL at the start. -/
def priorChar (text : List Char) (n : Nat) : Char :=
  if n = 0 then '\x00' else text.getD (n - 1) '\x00'

/-- The character after a position of a text, NUL at the end. -/
def nextChar (text : List Char) (n : Nat) : Char := text.getD n '\x00'

namespace Cursor

theorem offsetAfter_succ (s : String) (n : Nat) (offset : String.Pos.Raw) :
    offsetAfter s (n + 1) offset = (offsetAfter s n offset).next s := by
  induction n generalizing offset with
  | zero => rfl
  | succ n ih => exact ih (offset.next s)

@[simp] theorem position_atPosition (s : String) (n : Nat) : (atPosition s n).position = n := by
  simp [atPosition, forward, start]

@[simp] theorem atPosition_zero (s : String) : atPosition s 0 = start := rfl

@[simp] theorem next_atPosition (s : String) (n : Nat) :
    (atPosition s n).next s = atPosition s (n + 1) := by
  simp only [next, atPosition, forward, offsetAfter_succ, Nat.add_assoc]

/-- The bytes before a place are those of the characters before it. -/
theorem offset_atPosition {s : String} {n : Nat} (h : n ≤ s.length) :
    (atPosition s n).offset = ⟨String.utf8Len (s.toList.take n)⟩ := by
  induction n with
  | zero => rfl
  | succ n ih =>
    have hn : n < s.toList.length := by rwa [String.length_toList]
    have hcut : s.toList = s.toList.take n ++ s.toList[n] :: s.toList.drop (n + 1) := by
      simp
    calc (atPosition s (n + 1)).offset
        = (atPosition s n).offset.next s := by rw [← next_atPosition]; rfl
      _ = String.Pos.Raw.next s ⟨String.utf8Len (s.toList.take n)⟩ := by rw [ih (by omega)]
      _ = ⟨String.utf8Len (s.toList.take n) + s.toList[n].utf8Size⟩ := by
          have := String.next_of_valid (s.toList.take n) s.toList[n] (s.toList.drop (n + 1))
          rwa [← hcut, String.ofList_toList] at this
      _ = ⟨String.utf8Len (s.toList.take (n + 1))⟩ := by
          rw [List.take_succ_eq_append_getElem hn, String.utf8Len_append, String.utf8Len_cons,
            String.utf8Len_nil, Nat.zero_add]

theorem offset_le {s : String} {m n : Nat} (hmn : m ≤ n) (hn : n ≤ s.length) :
    (atPosition s m).offset ≤ (atPosition s n).offset := by
  rw [offset_atPosition (Nat.le_trans hmn hn), offset_atPosition hn]
  exact String.utf8Len_le_of_prefix (List.take_prefix_take_left hmn)

theorem atPosition_eq {s : String} {n : Nat} (h : n ≤ s.length) :
    atPosition s n = ⟨n, ⟨String.utf8Len (s.toList.take n)⟩⟩ := by
  rw [← offset_atPosition h]
  simp [atPosition, forward, start]

/-- A cursor stands between two characters of a string, or at one of its ends, and counts what is
before it. -/
def IsPlace (s : String) (c : Cursor) : Prop :=
  ∃ before after, s = before ++ after ∧ c = ⟨before.length, before.rawEndPos⟩

theorem isPlace_iff {s : String} {c : Cursor} :
    c.IsPlace s ↔ ∃ n, n ≤ s.length ∧ c = atPosition s n := by
  constructor
  · rintro ⟨before, after, rfl, rfl⟩
    have hn : before.length ≤ (before ++ after).length := by
      rw [String.length_append]
      omega
    refine ⟨before.length, hn, ?_⟩
    rw [atPosition_eq hn, String.toList_append, ← String.length_toList, List.take_left,
      String.utf8Len_toList]
    rfl
  · rintro ⟨n, hn, rfl⟩
    refine ⟨String.ofList (s.toList.take n), String.ofList (s.toList.drop n), ?_, ?_⟩
    · rw [← String.ofList_append, List.take_append_drop, String.ofList_toList]
    · rw [atPosition_eq hn, String.rawEndPos_ofList, String.length_ofList, List.length_take,
        String.length_toList, Nat.min_eq_left hn]

theorem isEnd_atPosition {s : String} {n : Nat} (h : n ≤ s.length) :
    (atPosition s n).isEnd s = decide (n = s.length) := by
  have hend := String.atEnd_of_valid (s.toList.take n) (s.toList.drop n)
  rw [List.take_append_drop, String.ofList_toList, ← offset_atPosition h,
    List.drop_eq_nil_iff, String.length_toList] at hend
  rw [Bool.eq_iff_iff, isEnd, hend, decide_eq_true_iff]
  omega

theorem get_atPosition {s : String} {n : Nat} (h : n < s.toList.length) :
    (atPosition s n).get s = s.toList[n] := by
  have hn : n ≤ s.length := by
    rw [← String.length_toList]
    omega
  have hget := String.get_of_valid (s.toList.take n) (s.toList.drop n)
  rw [List.take_append_drop, String.ofList_toList, ← offset_atPosition hn,
    List.drop_eq_getElem_cons h] at hget
  exact hget

theorem previous_atPosition {s : String} {n : Nat} (h : n < s.length) :
    (atPosition s (n + 1)).previous s = atPosition s n := by
  have hn : n < s.toList.length := by rwa [String.length_toList]
  have hprev := String.prev_of_valid' (s.toList.take (n + 1)) (s.toList.drop (n + 1))
  rw [List.take_append_drop, String.ofList_toList, ← offset_atPosition h,
    List.take_succ_eq_append_getElem hn, List.dropLast_concat,
    ← offset_atPosition (by omega)] at hprev
  simp only [previous, position_atPosition, Nat.add_sub_cancel, hprev]
  simp [atPosition, forward, start]

theorem atPosition_length (s : String) : atPosition s s.length = ⟨s.length, s.rawEndPos⟩ := by
  rw [atPosition_eq (Nat.le_refl _), ← String.length_toList, List.take_length,
    String.utf8Len_toList]
  rfl

theorem charBefore_atPosition {s : String} {n : Nat} (h : n ≤ s.length) :
    (atPosition s n).charBefore s = priorChar s.toList n := by
  cases n with
  | zero => rfl
  | succ n =>
    have hn : n < s.toList.length := by rwa [String.length_toList]
    rw [charBefore, if_neg (by simp), previous_atPosition h, get_atPosition hn, priorChar,
      if_neg (by omega), Nat.add_sub_cancel]
    simp [hn]

theorem charAfter_atPosition {s : String} {n : Nat} (h : n ≤ s.length) :
    (atPosition s n).charAfter s = nextChar s.toList n := by
  rw [charAfter, isEnd_atPosition h, nextChar]
  by_cases hn : n = s.length
  · have hnone : s.toList[n]? = none := by
      rw [List.getElem?_eq_none_iff, String.length_toList, hn]
    rw [if_pos (by simpa using hn), List.getD_eq_getElem?_getD, hnone, Option.getD_none]
  · have hlt : n < s.toList.length := by
      rw [String.length_toList]
      omega
    rw [if_neg (by simp [hn]), get_atPosition hlt]
    simp [hlt]

/-- The text between two places is that part of the list of characters. -/
theorem textTo_atPosition {s : String} {m n : Nat} (hmn : m ≤ n) (hn : n ≤ s.length) :
    (atPosition s m).textTo s (atPosition s n) =
      String.ofList ((s.toList.take n).drop m) := by
  have hcut : s.toList =
      s.toList.take m ++ (s.toList.take n).drop m ++ s.toList.drop n := by
    have hm : s.toList.take m = (s.toList.take n).take m := by
      rw [List.take_take, Nat.min_eq_left hmn]
    rw [hm, List.take_append_drop, List.take_append_drop]
  have hbytes : String.utf8Len (s.toList.take n) =
      String.utf8Len (s.toList.take m) + String.utf8Len ((s.toList.take n).drop m) := by
    have hm : s.toList.take m = (s.toList.take n).take m := by
      rw [List.take_take, Nat.min_eq_left hmn]
    rw [hm, ← String.utf8Len_append, List.take_append_drop]
  have hextract := String.extract_of_valid (s.toList.take m) ((s.toList.take n).drop m)
    (s.toList.drop n)
  rw [← hcut, String.ofList_toList, ← hbytes] at hextract
  rw [textTo, offset_atPosition (by omega), offset_atPosition hn]
  exact hextract

end Cursor

end LuaRuntime
