import LuaRuntime.Proofs.Table.Invariant

/-!
# Values at consecutive indices

The items of a well-formed table are its values at the indices up to its length.  Writing a list
over the indices from 1 on puts the values of the list there and changes nothing at any other key,
whichever of the two ways it is done in.
-/

namespace LuaRuntime

namespace Indexed

theorem getD_bind_ofValue? (o : Option Value) :
    (o.bind Table.ofValue?).getD .nil = o.getD .nil := by
  cases o with
  | none => rfl
  | some v => exact Table.getD_ofValue? v

theorem getD_entries (items : Array Value) (overflow : Std.HashMap Nat Value) (i : Nat) :
    ((array items overflow).entries[i]?).getD .nil =
      ((array items overflow).get? i).getD .nil := by
  rw [entries, getElem?_writeFrom, Array.length_toList, Array.getElem?_toList]
  split
  · next hi => rw [get?_array_of_le (by omega) (by omega), getD_bind_ofValue?]
  · next hi => rw [get?, if_neg (by omega)]

/-- The value at each index after a list was written over the indices from 1 on. -/
theorem getD_replaceItems (values : List Value) (items : Array Value)
    (overflow : Std.HashMap Nat Value) (i : Nat) :
    (((array items overflow).replaceItems values).get? i).getD .nil =
      if 1 ≤ i ∧ i ≤ values.length then (values[i - 1]?).getD .nil
      else ((array items overflow).get? i).getD .nil := by
  rw [replaceItems]
  split
  · next h =>
    -- The values take the place of as many items, and the overflow stays.
    rw [get?, List.size_toArray, List.getElem?_toArray, apply_ite (Option.getD · Value.nil)]
    refine ite_congr rfl (fun _ => rfl) fun hi => ?_
    rw [get?, if_neg (by rw [h.1]; exact hi)]
  · rw [get?_ofParts, get?_array_empty]
    show ((writeFrom 1 values (array items overflow).entries)[i]?).getD .nil = _
    rw [getElem?_writeFrom]
    split
    · next hi => rw [if_pos (by omega), getD_bind_ofValue?]
    · next hi => rw [if_neg (by omega), getD_entries]

end Indexed

namespace Table

/-- The values at the indices from 1 up to a bound. -/
def upTo (t : Table) (n : Nat) : List Value := (List.range' 1 n).map fun i => t.get (.index i)

theorem length_upTo (t : Table) (n : Nat) : (t.upTo n).length = n := by
  rw [upTo, List.length_map, List.length_range']

theorem getElem?_upTo (t : Table) {n i : Nat} (h : i < n) :
    (t.upTo n)[i]? = some (t.get (.index (i + 1))) := by
  rw [upTo, List.getElem?_map, List.getElem?_range' h, Option.map_some, Nat.one_mul, Nat.add_comm]

theorem upTo_congr {t u : Table} {n : Nat} (h : ∀ k, t.get k = u.get k) : t.upTo n = u.upTo n := by
  rw [upTo, upTo]
  exact List.map_congr_left fun i _ => h (.index i)

/-- The values up to the length. -/
def sequence (t : Table) : List Value := t.upTo t.length

theorem length_sequence (t : Table) : t.sequence.length = t.length := length_upTo t t.length

theorem get_toArray (t : Table) (k : Key) : t.toArray.get k = t.get k := by
  rw [get, get, get?_toArray]

theorem WellFormed.toList_items {t : Table} (h : t.WellFormed) :
    t.items.toList = t.sequence := by
  obtain ⟨items, overflow, heq⟩ := Indexed.toArray_eq_array t.indexed
  have hget (i : Nat) : t.indexed.get? i = (Indexed.array items overflow).get? i := by
    rw [← heq, Indexed.get?_toArray]
  have hborder : t.indexed.IsBorder items.size := by
    have hrun := Indexed.run_isBorder (Indexed.wellFormed_toArray h.indexed)
    rw [heq, Indexed.IsBorder] at hrun
    simp only [← hget] at hrun
    exact hrun
  have hlength : t.length = items.size := h.isBorder_length.unique hborder
  rw [items_eq heq, sequence, hlength]
  refine List.ext_getElem? fun i => ?_
  rcases Nat.lt_or_ge i items.size with hi | hi
  · rw [getElem?_upTo t hi, get, get?, hget, Indexed.get?_array_of_le (Nat.succ_pos i) hi]
    simp [hi]
  · rw [List.getElem?_eq_none (by simpa using hi), List.getElem?_eq_none (by rwa [length_upTo])]

theorem get_replaceItems (t : Table) (values : List Value) (i : Nat) :
    (t.replaceItems values).get (.index i) =
      if 1 ≤ i ∧ i ≤ values.length then (values[i - 1]?).getD .nil else t.get (.index i) := by
  obtain ⟨items, overflow, heq⟩ := Indexed.toArray_eq_array t.indexed
  rw [← get_toArray t]
  show ((t.indexed.toArray.replaceItems values).get? i).getD .nil =
    if _ then _ else (t.indexed.toArray.get? i).getD .nil
  rw [heq]
  exact Indexed.getD_replaceItems values items overflow i

theorem upTo_replaceItems (t : Table) (values : List Value) :
    (t.replaceItems values).upTo values.length = values := by
  refine List.ext_getElem? fun i => ?_
  rcases Nat.lt_or_ge i values.length with hi | hi
  · rw [getElem?_upTo _ hi, get_replaceItems, if_pos ⟨Nat.succ_pos i, hi⟩, Nat.add_sub_cancel,
      List.getElem?_eq_getElem hi]
    rfl
  · rw [List.getElem?_eq_none hi, List.getElem?_eq_none (by rwa [length_upTo])]

theorem get_replaceItems_of_ne (t : Table) (values : List Value) {k : Key}
    (hk : ∀ i, 1 ≤ i → i ≤ values.length → k ≠ .index i) :
    (t.replaceItems values).get k = t.get k := by
  cases k with
  | index i =>
    rw [get_replaceItems, if_neg]
    rintro ⟨h1, h2⟩
    exact hk i h1 h2 rfl
  | _ => rfl

end Table

end LuaRuntime
