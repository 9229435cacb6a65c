import LuaRuntime.Proofs.Table.Sequence

/-!
# Shifting a sequence

Inserting an item moves the values from its position on one index up, and removing one moves the
values after it one index down.  Only the indices from the position up to the length take part
(with the one after it, for an insertion): what lies past the first gap stays where it is.

`getD_insertItem` and `getD_removeItem` say this of the array layout, index by index.  `Inserted`
and `Removed` say it of tables, and every well-formed table is changed so by its operations, whether
an inserted nil cuts its items or an inserted value joins them with the overflow.
-/

namespace LuaRuntime

namespace Indexed

open Std (HashMap)

section

variable {items : Array Value} {overflow : HashMap Nat Value}

/-- The overflow of a well-formed layout has nothing up to the index after the items. -/
theorem overflow_eq_none (h : (array items overflow).WellFormed) {i : Nat}
    (hi : i ≤ items.size + 1) : overflow[i]? = none := by
  obtain ⟨-, -, hover⟩ := h
  rw [Option.eq_none_iff_forall_ne_some]
  intro v hv
  have := (hover i v hv).2.1
  omega

theorem getD_insertItem_nil (h : (array items overflow).WellFormed) {position : Nat}
    (h1 : 0 < position) (h2 : position ≤ items.size + 1) (i : Nat) :
    (((array items overflow).insertItem position .nil).get? i).getD .nil =
      if i < position then ((array items overflow).get? i).getD .nil
      else if i = position then .nil
      else if i ≤ items.size + 1 then ((array items overflow).get? (i - 1)).getD .nil
      else ((array items overflow).get? i).getD .nil := by
  have hnil : Value.isNil .nil = true := rfl
  simp only [insertItem, hnil, if_true]
  have hcut : (items.extract 0 (position - 1)).size = position - 1 := by
    simp only [Array.size_extract]
    omega
  have htail : (items.extract (position - 1) items.size).toList.length =
      items.size - (position - 1) := by
    simp only [Array.length_toList, Array.size_extract, Nat.min_self]
  rcases Nat.lt_trichotomy i position with hlow | rfl | hhigh
  · -- Before the cut the items are those of the old layout.
    rw [if_pos hlow]
    rcases Nat.eq_zero_or_pos i with rfl | hpos
    · simp [get?, getElem?_writeFrom]
    · rw [get?_array_of_le hpos (by omega), get?_array_of_le hpos (by omega),
        Array.getElem?_extract, if_pos (by omega), Nat.zero_add]
  · rw [if_neg (Nat.lt_irrefl i), if_pos rfl, get?_array_of_lt (by omega), getElem?_writeFrom,
      if_neg (by omega), overflow_eq_none h h2]
    rfl
  · rw [if_neg (by omega), if_neg (by omega), get?_array_of_lt (by omega), getElem?_writeFrom,
      htail]
    split
    · next hmoved =>
      rw [if_pos (by omega), getD_bind_ofValue?, get?_array_of_le (by omega) (by omega),
        Array.getElem?_toList, Array.getElem?_extract, if_pos (by omega)]
      congr 2
      omega
    · next hbeyond => rw [if_neg (by omega), get?_array_of_lt (by omega)]

/-- The value at each index after an insertion. -/
theorem getD_insertItem (h : (array items overflow).WellFormed) {position : Nat}
    (h1 : 0 < position) (h2 : position ≤ items.size + 1) (v : Value) (i : Nat) :
    (((array items overflow).insertItem position v).get? i).getD .nil =
      if i < position then ((array items overflow).get? i).getD .nil
      else if i = position then v
      else if i ≤ items.size + 1 then ((array items overflow).get? (i - 1)).getD .nil
      else ((array items overflow).get? i).getD .nil := by
  cases hv : v.isNil with
  | true =>
    rw [Table.isNil_eq_true_iff] at hv
    subst hv
    exact getD_insertItem_nil h h1 h2 i
  | false =>
    have hins : items.insertIdxIfInBounds (position - 1) v =
        items.insertIdx (position - 1) v (by omega) := by
      rw [Array.insertIdxIfInBounds, dif_pos (by omega)]
    simp only [insertItem, hv, Bool.false_eq_true, if_false, get?_ofParts, hins]
    have hsize : (items.insertIdx (position - 1) v (by omega)).size = items.size + 1 :=
      Array.size_insertIdx _
    rcases Nat.lt_trichotomy i position with hlow | rfl | hhigh
    · rw [if_pos hlow]
      rcases Nat.eq_zero_or_pos i with rfl | hpos
      · simp [get?]
      · rw [get?_array_of_le hpos (by omega), get?_array_of_le hpos (by omega),
          Array.getElem?_insertIdx, if_pos (by omega)]
    · rw [if_neg (Nat.lt_irrefl i), if_pos rfl, get?_array_of_le h1 (by omega),
        Array.getElem?_insertIdx, if_neg (Nat.lt_irrefl _), if_pos rfl, if_pos (by omega),
        Option.getD_some]
    · rw [if_neg (by omega), if_neg (by omega)]
      split
      · next hmoved =>
        rw [get?_array_of_le (by omega) (by omega), get?_array_of_le (by omega) (by omega),
          Array.getElem?_insertIdx, if_neg (by omega), if_neg (by omega)]
      · next hbeyond => rw [get?_array_of_lt (by omega), get?_array_of_lt (by omega)]

/-- The value at each index after a removal. -/
theorem getD_removeItem (h : (array items overflow).WellFormed) {position : Nat}
    (h1 : 0 < position) (h2 : position ≤ items.size) (i : Nat) :
    (((array items overflow).removeItem position).get? i).getD .nil =
      if i < position then ((array items overflow).get? i).getD .nil
      else if i < items.size then ((array items overflow).get? (i + 1)).getD .nil
      else if i = items.size then .nil
      else ((array items overflow).get? i).getD .nil := by
  have herase : items.eraseIdxIfInBounds (position - 1) =
      items.eraseIdx (position - 1) (by omega) := by
    rw [Array.eraseIdxIfInBounds, dif_pos (by omega)]
  have hsize : (items.eraseIdx (position - 1) (by omega)).size = items.size - 1 :=
    Array.size_eraseIdx _ _
  simp only [removeItem, herase]
  rcases Nat.lt_or_ge i position with hlow | hhigh
  · rw [if_pos hlow]
    rcases Nat.eq_zero_or_pos i with rfl | hpos
    · simp [get?]
    · rw [get?_array_of_le hpos (by omega), get?_array_of_le hpos (by omega),
        Array.getElem?_eraseIdx, if_pos (by omega)]
  · rw [if_neg (by omega)]
    rcases Nat.lt_trichotomy i items.size with hmoved | rfl | hbeyond
    · rw [if_pos hmoved, get?_array_of_le (by omega) (by omega),
        get?_array_of_le (by omega) (by omega), Array.getElem?_eraseIdx, if_neg (by omega)]
      congr 2
      omega
    · rw [if_neg (Nat.lt_irrefl _), if_pos rfl, get?_array_of_lt (by omega),
        overflow_eq_none h (by omega)]
      rfl
    · rw [if_neg (by omega), if_neg (by omega), get?_array_of_lt (by omega),
        get?_array_of_lt (by omega)]

end

end Indexed

namespace Table

/-! ## Tables -/

/-- A value was inserted into a table at a position. -/
structure Inserted (t u : Table) (position : Nat) (v : Value) : Prop where
  /-- The position has the value. -/
  here : u.get (.index position) = v
  /-- The values from the position up to the length are one index further. -/
  moved : ∀ i, position ≤ i → i ≤ t.length → u.get (.index (i + 1)) = t.get (.index i)
  /-- No other key has changed. -/
  others : ∀ k, (∀ i, position ≤ i → i ≤ t.length + 1 → k ≠ .index i) → u.get k = t.get k

/-- The value at a position was removed from a table. -/
structure Removed (t u : Table) (position : Nat) : Prop where
  /-- The values after the position up to the length are one index nearer. -/
  moved : ∀ i, position ≤ i → i < t.length → u.get (.index i) = t.get (.index (i + 1))
  /-- The last index has no value. -/
  last : u.get (.index t.length) = .nil
  /-- No other key has changed. -/
  others : ∀ k, (∀ i, position ≤ i → i ≤ t.length → k ≠ .index i) → u.get k = t.get k

theorem WellFormed.size_items {t : Table} (h : t.WellFormed) : t.items.size = t.length := by
  rw [← Array.length_toList, h.toList_items, length_sequence]

theorem WellFormed.hasRoomAt_iff {t : Table} (h : t.WellFormed) {position : Nat} :
    t.hasRoomAt position = true ↔ 1 ≤ position ∧ position ≤ t.length + 1 := by
  simp only [hasRoomAt, h.size_items, Bool.and_eq_true, decide_eq_true_eq]
  rfl

/-- The array layout that a change of the items starts from. -/
theorem WellFormed.exists_array {t : Table} (h : t.WellFormed) :
    ∃ items overflow, t.indexed.toArray = .array items overflow ∧
      (Indexed.array items overflow).WellFormed ∧ items.size = t.length ∧
      ∀ i, t.get (.index i) = ((Indexed.array items overflow).get? i).getD .nil := by
  obtain ⟨items, overflow, heq⟩ := Indexed.toArray_eq_array t.indexed
  refine ⟨items, overflow, heq, ?_, ?_, ?_⟩
  · rw [← heq]
    exact Indexed.wellFormed_toArray h.indexed
  · rw [← items_eq heq, h.size_items]
  · intro i
    rw [← heq, Indexed.get?_toArray]
    rfl

theorem WellFormed.inserted {t : Table} (h : t.WellFormed) {position : Nat} (h1 : 1 ≤ position)
    (h2 : position ≤ t.length + 1) (v : Value) :
    t.Inserted (t.insertItem position v) position v := by
  obtain ⟨items, overflow, heq, hwf, hsize, hget⟩ := h.exists_array
  have hvalue : ∀ i, (t.insertItem position v).get (.index i) =
      if i < position then t.get (.index i)
      else if i = position then v
      else if i ≤ t.length + 1 then t.get (.index (i - 1))
      else t.get (.index i) := by
    intro i
    simp only [hget, ← hsize]
    rw [← Indexed.getD_insertItem hwf h1 (by omega) v i, ← heq]
    rfl
  refine ⟨?_, ?_, ?_⟩
  · rw [hvalue, if_neg (Nat.lt_irrefl _), if_pos rfl]
  · intro i hi1 hi2
    rw [hvalue, if_neg (by omega), if_neg (by omega), if_pos (by omega), Nat.add_sub_cancel]
  · intro k hk
    cases k with
    | index i =>
      rw [hvalue]
      split
      · rfl
      · next hlow =>
        have hhigh : ¬ i ≤ t.length + 1 := fun hi => hk i (Nat.not_lt.mp hlow) hi rfl
        rw [if_neg (by omega), if_neg hhigh]
    | _ => rfl

theorem WellFormed.removed {t : Table} (h : t.WellFormed) {position : Nat} (h1 : 1 ≤ position)
    (h2 : position ≤ t.length) : t.Removed (t.removeItem position) position := by
  obtain ⟨items, overflow, heq, hwf, hsize, hget⟩ := h.exists_array
  have hvalue : ∀ i, (t.removeItem position).get (.index i) =
      if i < position then t.get (.index i)
      else if i < t.length then t.get (.index (i + 1))
      else if i = t.length then .nil
      else t.get (.index i) := by
    intro i
    simp only [hget, ← hsize]
    rw [← Indexed.getD_removeItem hwf h1 (by omega) i, ← heq]
    rfl
  refine ⟨?_, ?_, ?_⟩
  · intro i hi1 hi2
    rw [hvalue, if_neg (by omega), if_pos hi2]
  · rw [hvalue, if_neg (by omega), if_neg (Nat.lt_irrefl _), if_pos rfl]
  · intro k hk
    cases k with
    | index i =>
      rw [hvalue]
      split
      · rfl
      · next hlow =>
        have hhigh : ¬ i ≤ t.length := fun hi => hk i (Nat.not_lt.mp hlow) hi rfl
        rw [if_neg (by omega), if_neg (by omega)]
    | _ => rfl

/-- A change of the items begins with the array layout, which changes no value. -/
theorem get_forSequence (t : Table) (k : Key) : t.forSequence.get k = t.get k := by
  rw [← get_toArray t]
  cases k <;> rfl

theorem WellFormed.length_toArray {t : Table} (h : t.WellFormed) :
    t.toArray.length = t.length := by
  have hget : ∀ i, t.toArray.indexed.get? i = t.indexed.get? i := Indexed.get?_toArray t.indexed
  have harray := h.toArray.isBorder_length
  simp only [Indexed.IsBorder, hget] at harray
  exact Indexed.IsBorder.unique harray h.isBorder_length

theorem WellFormed.item?_eq {t : Table} (h : t.WellFormed) {position : Nat} (h1 : 1 ≤ position) :
    t.item? position =
      if position ≤ t.length then some (t.get (.index position)) else none := by
  obtain ⟨i, rfl⟩ : ∃ i, position = i + 1 := ⟨position - 1, by omega⟩
  show t.items[i]? = _
  rw [← Array.getElem?_toList, h.toList_items]
  split
  · next hi => exact getElem?_upTo t hi
  · next hi => exact List.getElem?_eq_none (by rw [length_sequence]; omega)

/-! ## Undoing an insertion -/

section

variable {t u w : Table} {position : Nat} {v : Value}

/-- After an insertion the length is one more, unless a value was waiting behind the gap. -/
theorem Inserted.length_eq (h : t.Inserted u position v) (ht : t.WellFormed) (hu : u.WellFormed)
    (hv : v ≠ .nil) (h1 : 1 ≤ position) (h2 : position ≤ t.length + 1)
    (hgap : t.get (.index (t.length + 2)) = .nil) : u.length = t.length + 1 := by
  have hborder : u.indexed.IsBorder (t.length + 1) := by
    constructor
    · intro i hi1 hi2
      show (u.get? (.index i)).isSome = true
      rw [Option.isSome_iff_ne_none, ne_eq, ← hu.get_eq_nil_iff]
      have hold : ∀ j, 1 ≤ j → j ≤ t.length → t.get (.index j) ≠ .nil := by
        intro j hj1 hj2
        rw [ne_eq, ht.get_eq_nil_iff]
        exact Option.isSome_iff_ne_none.mp (ht.isBorder_length.1 j hj1 hj2)
      rcases Nat.lt_trichotomy i position with hlt | rfl | hgt
      · rw [h.others (.index i) (fun j hj _ heq => by cases heq; omega)]
        exact hold i hi1 (by omega)
      · rwa [h.here]
      · obtain ⟨j, rfl⟩ : ∃ j, i = j + 1 := ⟨i - 1, by omega⟩
        rw [h.moved j (by omega) (by omega)]
        exact hold j (by omega) (by omega)
    · show u.get? (.index (t.length + 2)) = none
      rw [← hu.get_eq_nil_iff, h.others _ (fun j _ hj heq => by cases heq; omega)]
      exact hgap
  exact hu.isBorder_length.unique hborder

/-- Removing what was inserted gives every key its value back. -/
theorem Inserted.get_of_removed (h : t.Inserted u position v) (hr : u.Removed w position)
    (ht : t.WellFormed) (hlength : u.length = t.length + 1) (k : Key) : w.get k = t.get k := by
  have hindex : ∀ i, position ≤ i → i ≤ t.length + 1 → w.get (.index i) = t.get (.index i) := by
    intro i hi1 hi2
    rcases Nat.lt_or_ge t.length i with hlast | hbefore
    · obtain rfl : i = t.length + 1 := by omega
      rw [← hlength, hr.last, hlength]
      exact ((ht.get_eq_nil_iff (.index _)).mpr ht.isBorder_length.2).symm
    · rw [hr.moved i hi1 (by omega), h.moved i hi1 hbefore]
  by_cases hk : ∃ i, position ≤ i ∧ i ≤ t.length + 1 ∧ k = .index i
  · obtain ⟨i, hi1, hi2, rfl⟩ := hk
    exact hindex i hi1 hi2
  · have hothers : ∀ i, position ≤ i → i ≤ t.length + 1 → k ≠ .index i := by
      intro i hi1 hi2 heq
      exact hk ⟨i, hi1, hi2, heq⟩
    rw [hr.others k (by rwa [hlength]), h.others k hothers]

end

end Table

end LuaRuntime
