import LuaRuntime.Table.Sequence
import Mathlib.Data.List.Perm.Subperm

/-!
# The two layouts of indices

`Indexed.get?` is the one view of the entries at indices.  A layout is *well-formed* if it stores
no nil, keeps to the range of indices and, in the array layout, has a gap between the items and
the overflow.  Each operation is described by what it does to the view, and keeps the layout
well-formed.

* `toArray` and `toSparse` keep the view (`get?_toArray`, `get?_toSparse`).
* `put` writes one index (`get?_put`).
* `run` is the first border of the view (`run_isBorder`), by counting: the loop that looks for it
  may take one step for each entry, and a run longer than that would need more entries.
* `indices` lists the indices of the view once each (`mem_indices`, `indices_nodup`).
-/

namespace LuaRuntime

open Std (HashMap)

namespace Table

theorem ofValue?_of_ne_nil {v : Value} (h : v ≠ .nil) : ofValue? v = some v := by
  cases v <;> first | rfl | exact absurd rfl h

theorem ofValue?_eq_some {v w : Value} (h : ofValue? v = some w) : v = w ∧ w ≠ .nil := by
  cases v <;> simp [ofValue?, Value.isNil] at h <;> subst h <;> simp

theorem getD_ofValue? (v : Value) : (ofValue? v).getD .nil = v := by
  cases v <;> rfl

end Table

namespace Indexed

/-- The rules of a layout. -/
def WellFormed : Indexed → Prop
  | .array items overflow =>
      (∀ v ∈ items, v ≠ .nil) ∧ items.size ≤ Key.greatestIndex ∧
        ∀ i v, overflow[i]? = some v → v ≠ .nil ∧ items.size + 1 < i ∧ i ≤ Key.greatestIndex
  | .sparse entries =>
      ∀ i v, entries[i]? = some v → v ≠ .nil ∧ 1 ≤ i ∧ i ≤ Key.greatestIndex

/-- All indices up to a border are there, and the next one is not. -/
def IsBorder (part : Indexed) (n : Nat) : Prop :=
  (∀ i, 1 ≤ i → i ≤ n → (part.get? i).isSome = true) ∧ part.get? (n + 1) = none

theorem IsBorder.unique {part : Indexed} {m n : Nat} (hm : part.IsBorder m)
    (hn : part.IsBorder n) : m = n := by
  rcases Nat.lt_trichotomy m n with h | h | h
  · have := hn.1 (m + 1) (by omega) h
    rw [hm.2] at this
    cases this
  · exact h
  · have := hm.1 (n + 1) (by omega) h
    rw [hn.2] at this
    cases this

/-! ## Reading -/

theorem get?_array_of_le {items : Array Value} {overflow : HashMap Nat Value} {i : Nat}
    (h1 : 0 < i) (h2 : i ≤ items.size) : (array items overflow).get? i = items[i - 1]? :=
  if_pos ⟨h1, h2⟩

theorem get?_array_of_lt {items : Array Value} {overflow : HashMap Nat Value} {i : Nat}
    (h : items.size < i) : (array items overflow).get? i = overflow[i]? :=
  if_neg (by omega)

theorem isSome_get?_array_of_le {items : Array Value} {overflow : HashMap Nat Value} {i : Nat}
    (h1 : 0 < i) (h2 : i ≤ items.size) : ((array items overflow).get? i).isSome = true := by
  rw [get?_array_of_le h1 h2, Array.getElem?_eq_getElem (by omega)]
  rfl

theorem proper_of_get? {part : Indexed} (h : part.WellFormed) {i : Nat} {v : Value}
    (hv : part.get? i = some v) : v ≠ .nil ∧ 1 ≤ i ∧ i ≤ Key.greatestIndex := by
  cases part with
  | array items overflow =>
    obtain ⟨hitems, hsize, hover⟩ := h
    by_cases hi : 0 < i ∧ i ≤ items.size
    · rw [get?_array_of_le hi.1 hi.2] at hv
      exact ⟨hitems v (Array.mem_of_getElem? hv), hi.1, by omega⟩
    · simp only [get?, if_neg hi] at hv
      obtain ⟨hne, hgap, hle⟩ := hover i v hv
      exact ⟨hne, by omega, hle⟩
  | sparse entries => exact h i v hv

/-! ## Writing a list -/

/-- Writing from an index on changes the entries at as many indices as there are values. -/
theorem getElem?_writeFrom (i j : Nat) (vs : List Value) (entries : HashMap Nat Value) :
    (writeFrom i vs entries)[j]? =
      if i ≤ j ∧ j < i + vs.length then (vs[j - i]?).bind Table.ofValue? else entries[j]? := by
  induction vs generalizing i entries with
  | nil =>
    rw [writeFrom, if_neg]
    simp only [List.length_nil]
    omega
  | cons v vs ih =>
    have hhead : (if v.isNil then entries.erase i else entries.insert i v)[j]? =
        if i = j then Table.ofValue? v else entries[j]? := by
      cases hv : v.isNil with
      | true => simp [Std.HashMap.getElem?_erase, Table.ofValue?, hv]
      | false => simp [Std.HashMap.getElem?_insert, Table.ofValue?, hv]
    rw [writeFrom, ih, hhead, List.length_cons]
    by_cases hij : i = j
    · subst hij
      rw [if_neg (by omega), if_pos rfl, if_pos (by omega)]
      simp
    · rw [if_neg hij]
      by_cases hr : i + 1 ≤ j ∧ j < i + 1 + vs.length
      · rw [if_pos hr, if_pos (by omega), show j - i = (j - (i + 1)) + 1 by omega,
          List.getElem?_cons_succ]
      · rw [if_neg hr, if_neg (by omega)]

theorem getElem?_entries {part : Indexed} (h : part.WellFormed) (i : Nat) :
    part.entries[i]? = part.get? i := by
  cases part with
  | sparse entries => rfl
  | array items overflow =>
    obtain ⟨hitems, _, _⟩ := h
    rw [entries, getElem?_writeFrom, get?, Array.length_toList]
    by_cases hi : 0 < i ∧ i ≤ items.size
    · rw [if_pos (by omega), if_pos hi, Array.getElem?_toList,
        Array.getElem?_eq_getElem (by omega), Option.bind_some]
      exact Table.ofValue?_of_ne_nil (hitems _ (Array.getElem_mem _))
    · rw [if_neg (by omega), if_neg hi]

/-! ## The sparse layout -/

theorem get?_toSparse {part : Indexed} (h : part.WellFormed) (i : Nat) :
    part.toSparse.get? i = part.get? i :=
  getElem?_entries h i

theorem wellFormed_toSparse {part : Indexed} (h : part.WellFormed) : part.toSparse.WellFormed := by
  intro i v hv
  rw [getElem?_entries h] at hv
  exact proper_of_get? h hv

theorem get?_put {part : Indexed} (h : part.WellFormed) (i j : Nat) (v : Value) :
    (part.put i v).get? j = if i = j then Table.ofValue? v else part.get? j := by
  rw [put, get?, getElem?_writeFrom, getElem?_entries h]
  by_cases hij : i = j
  · subst hij
    simp
  · rw [if_neg hij, if_neg]
    simp only [List.length_singleton]
    omega

theorem wellFormed_put {part : Indexed} (h : part.WellFormed) {i : Nat} (h1 : 1 ≤ i)
    (h2 : i ≤ Key.greatestIndex) (v : Value) : (part.put i v).WellFormed := by
  intro j w hw
  have hget : (part.put i v).get? j = some w := hw
  rw [get?_put h] at hget
  split at hget
  · next hij =>
    subst hij
    exact ⟨(Table.ofValue?_eq_some hget).2, h1, h2⟩
  · exact proper_of_get? h hget

/-! ## The array layout -/

theorem get?_absorb (fuel : Nat) (items : Array Value) (overflow : HashMap Nat Value) (j : Nat) :
    (array (absorb fuel items overflow).1 (absorb fuel items overflow).2).get? j =
      (array items overflow).get? j := by
  induction fuel generalizing items overflow with
  | zero => rfl
  | succ fuel ih =>
    rw [absorb]
    cases hv : overflow[items.size + 1]? with
    | none => rfl
    | some v =>
      simp only []
      rw [ih, get?, get?, Array.size_push]
      by_cases hj : 0 < j ∧ j ≤ items.size
      · rw [if_pos (by omega), if_pos hj, Array.getElem?_push_lt (by omega),
          Array.getElem?_eq_getElem]
      · by_cases hlast : j = items.size + 1
        · subst hlast
          rw [if_pos (by omega), if_neg hj, hv]
          simp
        · rw [if_neg (by omega), if_neg hj, HashMap.getElem?_erase]
          simp [Ne.symm hlast]

/-- What holds of the items and of the overflow before they are taken as an array layout: the
overflow starts after the items, perhaps right after them. -/
def Adjacent (items : Array Value) (overflow : HashMap Nat Value) : Prop :=
  (∀ v ∈ items, v ≠ .nil) ∧ items.size ≤ Key.greatestIndex ∧
    ∀ i v, overflow[i]? = some v → v ≠ .nil ∧ items.size < i ∧ i ≤ Key.greatestIndex

theorem Adjacent.step {items : Array Value} {overflow : HashMap Nat Value}
    (h : Adjacent items overflow) {v : Value} (hv : overflow[items.size + 1]? = some v) :
    Adjacent (items.push v) (overflow.erase (items.size + 1)) := by
  obtain ⟨hitems, _, hover⟩ := h
  obtain ⟨hne, _, hle⟩ := hover _ v hv
  refine ⟨?_, ?_, ?_⟩
  · intro w hw
    rcases Array.mem_push.mp hw with hw | rfl
    · exact hitems w hw
    · exact hne
  · rw [Array.size_push]
    exact hle
  · intro i w hw
    rw [HashMap.getElem?_erase] at hw
    split at hw
    · cases hw
    · next hi =>
      obtain ⟨hwne, hlt, hwle⟩ := hover i w hw
      have hi' : items.size + 1 ≠ i := by simpa using hi
      rw [Array.size_push]
      exact ⟨hwne, by omega, hwle⟩

/-- With fuel for every entry of the overflow, nothing that continues the items is left. -/
theorem wellFormed_absorb (fuel : Nat) (items : Array Value) (overflow : HashMap Nat Value)
    (hfuel : overflow.size ≤ fuel) (h : Adjacent items overflow) :
    (array (absorb fuel items overflow).1 (absorb fuel items overflow).2).WellFormed := by
  induction fuel generalizing items overflow with
  | zero =>
    obtain ⟨hitems, hsize, _⟩ := h
    refine ⟨hitems, hsize, ?_⟩
    intro i v hv
    have hempty : overflow.isEmpty = true := by
      rw [HashMap.isEmpty_eq_size_eq_zero]
      simpa using hfuel
    simp [absorb, HashMap.getElem?_of_isEmpty hempty] at hv
  | succ fuel ih =>
    rw [absorb]
    cases hv : overflow[items.size + 1]? with
    | none =>
      change (array items overflow).WellFormed
      obtain ⟨hitems, hsize, hover⟩ := h
      refine ⟨hitems, hsize, ?_⟩
      intro i w hw
      obtain ⟨hne, hlt, hle⟩ := hover i w hw
      have hi : i ≠ items.size + 1 := by
        rintro rfl
        rw [hv] at hw
        cases hw
      exact ⟨hne, by omega, hle⟩
    | some v =>
      refine ih _ _ ?_ (h.step hv)
      have hmem : items.size + 1 ∈ overflow := by
        rw [HashMap.mem_iff_isSome_getElem?, hv]
        rfl
      rw [HashMap.size_erase, if_pos hmem]
      omega

theorem get?_ofParts (items : Array Value) (overflow : HashMap Nat Value) (j : Nat) :
    (ofParts items overflow).get? j = (array items overflow).get? j :=
  get?_absorb _ items overflow j

theorem wellFormed_ofParts {items : Array Value} {overflow : HashMap Nat Value}
    (h : Adjacent items overflow) : (ofParts items overflow).WellFormed :=
  wellFormed_absorb _ items overflow (Nat.le_refl _) h

theorem get?_array_empty {entries : HashMap Nat Value} (j : Nat) :
    (array #[] entries).get? j = (sparse entries).get? j :=
  if_neg (by simp; omega)

theorem adjacent_empty {entries : HashMap Nat Value} (h : (sparse entries).WellFormed) :
    Adjacent #[] entries := by
  refine ⟨by simp, by simp, ?_⟩
  intro i v hv
  obtain ⟨hne, h1, h2⟩ := h i v hv
  exact ⟨hne, h1, h2⟩

theorem get?_toArray (part : Indexed) (j : Nat) : part.toArray.get? j = part.get? j := by
  cases part with
  | array items overflow => rfl
  | sparse entries => rw [toArray, get?_ofParts, get?_array_empty]

theorem wellFormed_toArray {part : Indexed} (h : part.WellFormed) : part.toArray.WellFormed := by
  cases part with
  | array items overflow => exact h
  | sparse entries => exact wellFormed_ofParts (adjacent_empty h)

theorem toArray_eq_array (part : Indexed) :
    ∃ items overflow, part.toArray = array items overflow := by
  cases part with
  | array items overflow => exact ⟨items, overflow, rfl⟩
  | sparse entries => exact ⟨_, _, rfl⟩

/-! ## The border -/

/-- The run stops at an absent index, or when the fuel is used up. -/
theorem runFrom_spec (entries : HashMap Nat Value) (fuel i : Nat) :
    i ≤ runFrom entries fuel i ∧
      (∀ j, i < j → j ≤ runFrom entries fuel i → j ∈ entries) ∧
      (runFrom entries fuel i + 1 ∉ entries ∨ runFrom entries fuel i = i + fuel) := by
  induction fuel generalizing i with
  | zero =>
    refine ⟨Nat.le_refl _, ?_, Or.inr rfl⟩
    intro j h1 h2
    simp only [runFrom] at h2
    omega
  | succ fuel ih =>
    rw [runFrom]
    split
    · next hc =>
      obtain ⟨h1, h2, h3⟩ := ih (i + 1)
      refine ⟨by omega, ?_, ?_⟩
      · intro j hj1 hj2
        by_cases hj : j = i + 1
        · subst hj
          exact HashMap.mem_iff_contains.mpr hc
        · exact h2 j (by omega) hj2
      · rcases h3 with h3 | h3
        · exact Or.inl h3
        · exact Or.inr (by omega)
    · next hc =>
      refine ⟨Nat.le_refl _, ?_, Or.inl ?_⟩
      · intro j hj1 hj2
        omega
      · rw [HashMap.mem_iff_contains]
        exact hc

/-- A map whose keys hold all numbers from 1 to `n` has `n` entries at least. -/
theorem le_size_of_run {entries : HashMap Nat Value} {n : Nat}
    (h : ∀ j, 0 < j → j ≤ n → j ∈ entries) : n ≤ entries.size := by
  have hsub : List.range' 1 n ⊆ entries.keys := by
    intro j hj
    rw [List.mem_range'_1] at hj
    exact HashMap.mem_keys.mpr (h j (by omega) (by omega))
  have hlen := (List.subperm_of_subset List.nodup_range' hsub).length_le
  rwa [List.length_range', HashMap.length_keys] at hlen

theorem run_isBorder {part : Indexed} (h : part.WellFormed) : part.IsBorder part.run := by
  cases part with
  | array items overflow =>
    obtain ⟨_, _, hover⟩ := h
    refine ⟨fun i h1 h2 => isSome_get?_array_of_le h1 h2, ?_⟩
    rw [run, get?_array_of_lt (Nat.lt_succ_self _), Option.eq_none_iff_forall_ne_some]
    intro v hv
    have := (hover _ v hv).2.1
    omega
  | sparse entries =>
    obtain ⟨_, h2, h3⟩ := runFrom_spec entries entries.size 0
    have habsent : runFrom entries entries.size 0 + 1 ∉ entries := by
      rcases h3 with h3 | h3
      · exact h3
      · -- The loop took all its steps, so a run that goes on has more indices than there are
        -- entries.
        intro hmem
        have hall : ∀ j, 0 < j → j ≤ entries.size + 1 → j ∈ entries := by
          intro j hj1 hj2
          by_cases hj : j = entries.size + 1
          · rw [hj]
            rwa [h3, Nat.zero_add] at hmem
          · exact h2 j hj1 (by omega)
        have := le_size_of_run hall
        omega
    refine ⟨fun i h1 hi => ?_, ?_⟩
    · exact HashMap.mem_iff_isSome_getElem?.mp (h2 i h1 hi)
    · exact HashMap.getElem?_eq_none habsent

/-! ## Listing -/

theorem mem_sortedKeys {entries : HashMap Nat Value} {i : Nat} :
    i ∈ sortedKeys entries ↔ (entries[i]?).isSome = true := by
  rw [sortedKeys, List.mem_mergeSort, HashMap.mem_keys, HashMap.mem_iff_isSome_getElem?]

theorem sortedKeys_nodup (entries : HashMap Nat Value) : (sortedKeys entries).Nodup :=
  (List.mergeSort_perm _ _).nodup_iff.mpr HashMap.nodup_keys

theorem length_sortedKeys (entries : HashMap Nat Value) :
    (sortedKeys entries).length = entries.size := by
  rw [sortedKeys, List.length_mergeSort, HashMap.length_keys]

theorem mem_indices {part : Indexed} (h : part.WellFormed) {i : Nat} :
    i ∈ part.indices ↔ (part.get? i).isSome = true := by
  cases part with
  | sparse entries => exact mem_sortedKeys
  | array items overflow =>
    obtain ⟨_, _, hover⟩ := h
    rw [indices, List.mem_append, List.mem_range'_1, mem_sortedKeys]
    by_cases hi : 0 < i ∧ i ≤ items.size
    · rw [isSome_get?_array_of_le hi.1 hi.2]
      simp only [iff_true]
      exact Or.inl (by omega)
    · rw [get?, if_neg hi]
      constructor
      · rintro (hi' | hi')
        · omega
        · exact hi'
      · exact Or.inr

theorem indices_nodup {part : Indexed} (h : part.WellFormed) : part.indices.Nodup := by
  cases part with
  | sparse entries => exact sortedKeys_nodup entries
  | array items overflow =>
    obtain ⟨_, _, hover⟩ := h
    refine List.nodup_append.mpr ⟨List.nodup_range', sortedKeys_nodup overflow, ?_⟩
    intro i hi j hj hij
    subst hij
    rw [List.mem_range'_1] at hi
    rw [mem_sortedKeys, Option.isSome_iff_exists] at hj
    obtain ⟨v, hv⟩ := hj
    have := (hover i v hv).2.1
    omega

theorem length_indices (part : Indexed) : part.indices.length = part.size := by
  cases part with
  | sparse entries => exact length_sortedKeys entries
  | array items overflow =>
    rw [indices, List.length_append, List.length_range', length_sortedKeys, size]

theorem size_items_le {items : Array Value} {overflow : HashMap Nat Value} :
    items.size ≤ (array items overflow).size :=
  Nat.le_add_right _ _

/-! ## The greatest index -/

theorem foldl_max_spec (l : List Nat) (a : Nat) :
    (∀ i ∈ a :: l, i ≤ l.foldl max a) ∧ l.foldl max a ∈ a :: l := by
  induction l generalizing a with
  | nil => simp
  | cons b l ih =>
    obtain ⟨hle, hmem⟩ := ih (max a b)
    rw [List.foldl_cons]
    have hmax := hle (max a b) List.mem_cons_self
    refine ⟨?_, ?_⟩
    · intro i hi
      rcases List.mem_cons.mp hi with rfl | hi
      · omega
      · rcases List.mem_cons.mp hi with rfl | hi
        · omega
        · exact hle i (List.mem_cons_of_mem _ hi)
    · rcases List.mem_cons.mp hmem with hm | hm
      · rw [hm]
        rcases Nat.le_total a b with hab | hab
        · rw [Nat.max_eq_right hab]
          simp
        · rw [Nat.max_eq_left hab]
          simp
      · exact List.mem_cons_of_mem _ (List.mem_cons_of_mem _ hm)

theorem greatestKey_spec (entries : HashMap Nat Value) :
    (∀ i, (entries[i]?).isSome = true → i ≤ greatestKey entries) ∧
      (greatestKey entries = 0 ∨ (entries[greatestKey entries]?).isSome = true) := by
  have hfold : greatestKey entries = entries.keys.foldl max 0 := HashMap.fold_eq_foldl_keys
  obtain ⟨hle, hmem⟩ := foldl_max_spec entries.keys 0
  rw [hfold]
  refine ⟨?_, ?_⟩
  · intro i hi
    exact hle i (List.mem_cons_of_mem _ (HashMap.mem_keys.mpr
      (HashMap.mem_iff_isSome_getElem?.mpr hi)))
  · rcases List.mem_cons.mp hmem with hm | hm
    · exact Or.inl hm
    · exact Or.inr (HashMap.mem_iff_isSome_getElem?.mp (HashMap.mem_keys.mp hm))

/-- The greatest index is the greatest of the view, or zero if there is none. -/
theorem greatest_spec {part : Indexed} (h : part.WellFormed) :
    (∀ i, (part.get? i).isSome = true → i ≤ part.greatest) ∧
      (part.greatest = 0 ∨ (part.get? part.greatest).isSome = true) := by
  cases part with
  | sparse entries => exact greatestKey_spec entries
  | array items overflow =>
    obtain ⟨_, _, hover⟩ := h
    obtain ⟨hle, hmem⟩ := greatestKey_spec overflow
    refine ⟨?_, ?_⟩
    · intro i hi
      rw [greatest]
      by_cases hr : 0 < i ∧ i ≤ items.size
      · omega
      · rw [get?, if_neg hr] at hi
        have := hle i hi
        omega
    · rw [greatest]
      rcases Nat.le_total (greatestKey overflow) items.size with hm | hm
      · rw [Nat.max_eq_left hm]
        rcases Nat.eq_zero_or_pos items.size with h0 | h0
        · exact Or.inl h0
        · exact Or.inr (isSome_get?_array_of_le h0 (Nat.le_refl _))
      · rw [Nat.max_eq_right hm]
        rcases hmem with h0 | h0
        · exact Or.inl h0
        · obtain ⟨v, hv⟩ := Option.isSome_iff_exists.mp h0
          have := (hover _ v hv).2.1
          rw [get?_array_of_lt (by omega)]
          exact Or.inr h0

/-! ## Changing the items -/

/-- Inserting nil cuts the items: the ones from its position on move to the overflow. -/
theorem wellFormed_insertItem_nil {items : Array Value} {overflow : HashMap Nat Value}
    (h : (array items overflow).WellFormed) (hroom : items.size < Key.greatestIndex)
    {position : Nat} (h1 : 0 < position) (h2 : position ≤ items.size + 1) :
    ((array items overflow).insertItem position .nil).WellFormed := by
  obtain ⟨hitems, _, hover⟩ := h
  have hnil : Value.isNil .nil = true := rfl
  simp only [insertItem, hnil, if_true]
  have hlen : (items.extract (position - 1) items.size).toList.length =
      items.size - (position - 1) := by
    rw [Array.length_toList, Array.size_extract, Nat.min_self]
  have hcut : (items.extract 0 (position - 1)).size = position - 1 := by
    rw [Array.size_extract]
    omega
  refine ⟨?_, ?_, ?_⟩
  · intro w hw
    obtain ⟨k, _, rfl⟩ := Array.mem_extract_iff_getElem.mp hw
    exact hitems _ (Array.getElem_mem _)
  · rw [hcut]
    omega
  · intro j w hw
    rw [getElem?_writeFrom, hlen] at hw
    rw [hcut]
    split at hw
    · next hj =>
      obtain ⟨u, hu, huw⟩ := Option.bind_eq_some_iff.mp hw
      obtain ⟨rfl, hne⟩ := Table.ofValue?_eq_some huw
      exact ⟨hne, by omega, by omega⟩
    · obtain ⟨hne, hgap, hle⟩ := hover j w hw
      exact ⟨hne, by omega, hle⟩

theorem wellFormed_insertItem {items : Array Value} {overflow : HashMap Nat Value}
    (h : (array items overflow).WellFormed) (hroom : items.size < Key.greatestIndex)
    {position : Nat} (h1 : 0 < position) (h2 : position ≤ items.size + 1) (v : Value) :
    ((array items overflow).insertItem position v).WellFormed := by
  cases hv : v.isNil with
  | true =>
    have : v = .nil := by cases v <;> first | rfl | cases hv
    subst this
    exact wellFormed_insertItem_nil h hroom h1 h2
  | false =>
    obtain ⟨hitems, hsize, hover⟩ := h
    simp only [insertItem, hv, Bool.false_eq_true, if_false]
    have hins : items.insertIdxIfInBounds (position - 1) v =
        items.insertIdx (position - 1) v (by omega) := by
      rw [Array.insertIdxIfInBounds, dif_pos (by omega)]
    rw [hins]
    refine wellFormed_ofParts ⟨?_, ?_, ?_⟩
    · intro w hw
      rcases Array.mem_insertIdx.mp hw with rfl | hw
      · rintro rfl
        cases hv
      · exact hitems w hw
    · rw [Array.size_insertIdx]
      exact hroom
    · intro i w hw
      obtain ⟨hne, hgap, hle⟩ := hover i w hw
      rw [Array.size_insertIdx]
      exact ⟨hne, hgap, hle⟩

theorem wellFormed_removeItem {part : Indexed} (h : part.WellFormed) (position : Nat) :
    (part.removeItem position).WellFormed := by
  cases part with
  | sparse entries => exact h
  | array items overflow =>
    obtain ⟨hitems, hsize, hover⟩ := h
    have hle : (items.eraseIdxIfInBounds (position - 1)).size ≤ items.size := by
      rw [← Array.length_toList, Array.toList_eraseIdxIfInBounds, List.length_eraseIdx,
        Array.length_toList]
      split <;> omega
    refine ⟨?_, ?_, ?_⟩
    · intro w hw
      rw [← Array.mem_toList_iff, Array.toList_eraseIdxIfInBounds] at hw
      exact hitems w (Array.mem_toList_iff.mp (List.mem_of_mem_eraseIdx hw))
    · omega
    · intro i w hw
      obtain ⟨hne, hgap, hi⟩ := hover i w hw
      exact ⟨hne, by omega, hi⟩

/-- Values written over the indices from 1 on leave the entries in range. -/
theorem wellFormed_writeFrom_one {values : List Value} (hlen : values.length ≤ Key.greatestIndex)
    {entries : HashMap Nat Value} (h : (sparse entries).WellFormed) :
    (sparse (writeFrom 1 values entries)).WellFormed := by
  intro j w hw
  rw [getElem?_writeFrom] at hw
  split at hw
  · next hj =>
    obtain ⟨u, hu, huw⟩ := Option.bind_eq_some_iff.mp hw
    obtain ⟨rfl, hne⟩ := Table.ofValue?_eq_some huw
    exact ⟨hne, hj.1, by omega⟩
  · exact h j w hw

theorem wellFormed_replaceItems {part : Indexed} (h : part.WellFormed) {values : List Value}
    (hlen : values.length ≤ Key.greatestIndex) : (part.replaceItems values).WellFormed := by
  cases part with
  | sparse entries => exact h
  | array items overflow =>
    rw [replaceItems]
    split
    · next hv =>
      obtain ⟨hsize, hall⟩ := hv
      obtain ⟨_, _, hover⟩ := h
      refine ⟨?_, ?_, ?_⟩
      · intro w hw hnil
        have := List.all_eq_true.mp hall w (by simpa using hw)
        rw [hnil] at this
        cases this
      · rw [List.size_toArray]
        exact hlen
      · intro i w hw
        rw [List.size_toArray, ← hsize]
        exact hover i w hw
    · exact wellFormed_ofParts (adjacent_empty (wellFormed_writeFrom_one hlen
        (wellFormed_toSparse h)))

end Indexed

end LuaRuntime
