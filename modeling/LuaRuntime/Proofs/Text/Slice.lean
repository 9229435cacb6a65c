import LuaRuntime.Proofs.Text.Search
import LuaRuntime.Text.Range

/-!
# Slices

`Text.slice` cuts a string between two byte offsets.  Its characters are those whose positions lie
in the range (`toList_slice`), so that neither the offsets nor the way a range is brought into the
text matter afterwards.  Two slices that meet make up the text (`slice_append_slice`).
-/

namespace LuaRuntime

namespace Text

/-- The characters of a text whose positions, counted from 1, lie between two numbers. -/
def charsBetween (text : List Char) (first last : Int) : List Char :=
  ((text.zipIdx 1).filter fun (_, position) => first ≤ position ∧ position ≤ last).map Prod.fst

/-! ## Ranges of positions -/

/-- The characters in a range of positions stand next to each other, wherever the count of the
positions starts. -/
theorem map_fst_filter_zipIdx (text : List Char) (start : Nat) (first last : Int) :
    ((text.zipIdx start).filter fun (_, position) => first ≤ position ∧ position ≤ last).map
        Prod.fst =
      (text.take (last + 1 - start).toNat).drop (first - start).toNat := by
  induction text generalizing start with
  | nil => simp
  | cons c text ih =>
    have ih := ih (start + 1)
    rw [List.zipIdx_cons, List.filter_cons]
    by_cases hlast : (start : Int) ≤ last
    · have htake : (last + 1 - start).toNat = (last + 1 - (start + 1 : Nat)).toNat + 1 := by omega
      by_cases hfirst : first ≤ start
      · have hdrop : (first - start).toNat = 0 := by omega
        have hdrop' : (first - (start + 1 : Nat)).toNat = 0 := by omega
        rw [hdrop', List.drop_zero] at ih
        simp only [hfirst, hlast, and_self, decide_true, if_true, List.map_cons, htake, hdrop,
          List.take_succ_cons, List.drop_zero, ih]
      · have hdrop : (first - start).toNat = (first - (start + 1 : Nat)).toNat + 1 := by omega
        simp only [hfirst, false_and, decide_false, Bool.false_eq_true, if_false, htake, hdrop,
          List.take_succ_cons, List.drop_succ_cons, ih]
    · have htake : (last + 1 - start).toNat = 0 := by omega
      have htake' : (last + 1 - (start + 1 : Nat)).toNat = 0 := by omega
      rw [htake', List.take_zero, List.drop_nil] at ih
      simp only [hlast, and_false, decide_false, Bool.false_eq_true, if_false, htake,
        List.take_zero, List.drop_nil, ih]

theorem charsBetween_eq (text : List Char) (first last : Int) :
    charsBetween text first last = (text.take last.toNat).drop (first - 1).toNat := by
  rw [charsBetween, map_fst_filter_zipIdx, Int.natCast_one, Int.add_sub_cancel]

theorem charsBetween_eq_nil_iff {text : List Char} {first last : Int} (hfirst : 1 ≤ first)
    (hlast : last ≤ text.length) : charsBetween text first last = [] ↔ last < first := by
  rw [charsBetween_eq, List.drop_eq_nil_iff, List.length_take]
  omega

/-! ## Slices -/

/-- A slice has the characters in the range of its positions, where a negative position counts
from the end. -/
theorem toList_slice (text : String) (first last : Int) :
    (slice text first last).toList =
      charsBetween text.toList (max 1 (resolve first text.length))
        (min text.length (resolve last text.length)) := by
  rw [slice, range?, max_comm 1, min_comm (text.length : Int)]
  obtain ⟨a, ha⟩ : ∃ a : Nat, max (resolve first text.length) 1 = a + 1 :=
    ⟨(max (resolve first text.length) 1 - 1).toNat, by omega⟩
  by_cases hle : max (resolve first text.length) 1 ≤ min (resolve last text.length) text.length
  · obtain ⟨b, hb⟩ : ∃ b : Nat, min (resolve last text.length) text.length = b :=
      ⟨(min (resolve last text.length) text.length).toNat, by omega⟩
    have hab : (a : Int) + 1 ≤ b := by omega
    have hstop : a + (b - (a + 1) + 1) = b := by omega
    simp only [ha, hb, if_pos hab, Int.toNat_natCast_add_one, Int.toNat_natCast,
      Nat.add_sub_cancel, forward_atPosition, hstop]
    rw [Cursor.textTo_atPosition (by omega) (by omega), String.toList_ofList, charsBetween_eq]
    simp
  · rw [(charsBetween_eq_nil_iff (by omega) (by rw [String.length_toList]; omega)).mpr
      (Int.not_le.mp hle)]
    simp [hle]

/-- The characters of a slice, taken one after the other. -/
theorem toList_slice_of_range? {text : String} {first last : Int} {a b : Nat}
    (h : range? first last text.length = some (a, b)) :
    (slice text first last).toList = (text.toList.drop (a - 1)).take (b - a + 1) := by
  rw [range?] at h
  split at h
  · cases h
    rw [toList_slice, charsBetween_eq, List.drop_take]
    congr 2 <;> omega
  · cases h

theorem slice_of_range?_eq_none {text : String} {first last : Int}
    (h : range? first last text.length = none) : slice text first last = "" := by
  rw [slice, h]

/-- A slice is empty if and only if no position of the text is in its range. -/
theorem slice_eq_empty_iff (text : String) (first last : Int) :
    slice text first last = "" ↔
      min (text.length : Int) (resolve last text.length) <
        max 1 (resolve first text.length) := by
  rw [← String.toList_eq_nil_iff, toList_slice,
    charsBetween_eq_nil_iff (by omega) (by rw [String.length_toList]; omega)]

/-- Between two positions of the text, a slice is the text between two places. -/
theorem slice_of_le {text : String} {a b : Nat} (hab : a ≤ b) (hb : b ≤ text.length) :
    slice text (a + 1) b =
      (Cursor.atPosition text a).textTo text (.atPosition text b) := by
  apply String.ext
  rw [toList_slice, charsBetween_eq, Cursor.textTo_atPosition hab hb, String.toList_ofList,
    resolve, resolve, if_neg (by omega), if_neg (by omega)]
  congr 2 <;> omega

/-- The characters up to a position and those after it are the whole text. -/
theorem slice_append_slice {text : String} {k : Nat} (hk : k ≤ text.length) :
    slice text 1 k ++ slice text (k + 1) (-1) = text := by
  have hlength := text.length_toList
  apply String.ext
  rw [String.toList_append, toList_slice, toList_slice, charsBetween_eq, charsBetween_eq]
  have hfirst : (min (text.length : Int) (resolve k text.length)).toNat = k := by
    rw [resolve]
    omega
  have hrest : (max 1 (resolve (k + 1) text.length) - 1).toNat = k := by
    rw [resolve]
    omega
  have hlast : (min (text.length : Int) (resolve (-1) text.length)).toNat = text.length := by
    rw [resolve]
    omega
  rw [hfirst, hrest, hlast, ← hlength, List.take_length]
  simp [resolve]

end Text

end LuaRuntime
