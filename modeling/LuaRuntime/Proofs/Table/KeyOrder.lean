import LuaRuntime.Proofs.Table.Shift
import LuaRuntime.Proofs.Table.Walk
import Mathlib.Data.List.Sort

/-!
# The order of the keys

A table lists its indices in ascending order and its objects in the order in which they came, but
its strings and other numbers as they are arranged.  An arrangement is *steady* if it lists a part
of them in the order in which it lists all of them.  By a steady arrangement, if keys are only
taken away, those that stay are listed in the order in which they were listed before
(`Contents.keys_sublist`).

Edits that add no key are of two kinds.  Some keep the order that a table remembers
(`Edit.AddsNoKey`), others drop it (`Edit.DropsOrder`).  Both leave a part of the keys.  So as long
as all steps of walks find the keys in one steady arrangement, an order that a table remembers
agrees with the one in which the table lists its keys itself (`Listed`).
-/

namespace LuaRuntime

open Std (TreeMap)

/-! ## Keys that are taken away -/

theorem keys_sublist_of_subset {κ : Type} [Ord κ] [Std.TransOrd κ] [Std.LawfulEqOrd κ]
    {a b : TreeMap κ Value} (h : ∀ k ∈ a, k ∈ b) : a.keys.Sublist b.keys := by
  have hsub : a.keys ⊆ b.keys := by
    intro k hk
    rw [TreeMap.mem_keys] at hk ⊢
    exact h k hk
  have hantisymm : Std.Antisymm fun k l : κ => compare k l = .lt := by
    constructor
    intro k l hkl hlk
    rw [Std.OrientedOrd.eq_swap, hlk] at hkl
    cases hkl
  exact List.sublist_of_subperm_of_pairwise (List.subperm_of_subset TreeMap.nodup_keys hsub)
    TreeMap.ordered_keys TreeMap.ordered_keys

namespace Indexed

theorem pairwise_sortedKeys (entries : Std.HashMap Nat Value) :
    (sortedKeys entries).Pairwise (· ≤ ·) := by
  have hsorted : (sortedKeys entries).Pairwise fun i j => decide (i ≤ j) = true :=
    List.pairwise_mergeSort
      (fun i j k hij hjk => by simpa using Nat.le_trans (by simpa using hij) (by simpa using hjk))
      (fun i j => by simpa using Nat.le_total i j) entries.keys
  exact hsorted.imp of_decide_eq_true

/-- The indices are listed in ascending order. -/
theorem pairwise_indices {part : Indexed} (h : part.WellFormed) :
    part.indices.Pairwise (· ≤ ·) := by
  cases part with
  | sparse entries => exact pairwise_sortedKeys entries
  | array items overflow =>
    have hitems : (List.range' 1 items.size).Pairwise (· ≤ ·) :=
      (List.pairwise_lt_range' (s := 1) (n := items.size)).imp Nat.le_of_lt
    refine List.pairwise_append.mpr ⟨hitems, pairwise_sortedKeys overflow, ?_⟩
    intro i hi j hj
    have hlast := (List.mem_range'_1.mp hi).2
    obtain ⟨v, hv⟩ := Option.isSome_iff_exists.mp (mem_sortedKeys.mp hj)
    have hfar := (h.2.2 j v hv).2.1
    omega

theorem indices_sublist_of_subset {a b : Indexed} (ha : a.WellFormed) (hb : b.WellFormed)
    (h : ∀ i, (a.get? i).isSome = true → (b.get? i).isSome = true) :
    a.indices.Sublist b.indices := by
  have hsub : a.indices ⊆ b.indices := by
    intro i hi
    rw [mem_indices ha] at hi
    exact (mem_indices hb).mpr (h i hi)
  exact List.sublist_of_subperm_of_pairwise (List.subperm_of_subset (indices_nodup ha) hsub)
    (pairwise_indices ha) (pairwise_indices hb)

end Indexed

/-- Clearing an entry or overwriting it keeps the order of the objects. -/
theorem putObjectIn_sublist {id : ObjectId} {v : Value} {l : List (ObjectId × Value)}
    (h : v = .nil ∨ (objectValueIn id l).isSome = true) :
    ((putObjectIn id v l).map (·.1)).Sublist (l.map (·.1)) := by
  induction l with
  | nil =>
    rcases h with rfl | h
    · exact .refl _
    · cases h
  | cons first rest ih =>
    rw [putObjectIn]
    split
    · next hid =>
      split
      · exact (List.sublist_cons_self _ _).map _
      · rw [List.map_cons, List.map_cons, beq_iff_eq.mp hid]
    · next hid =>
      rw [objectValueIn_cons, if_neg fun heq => hid (beq_iff_eq.mpr heq)] at h
      exact (ih h).cons_cons first.1

/-- An arrangement that lists a part of the keys in the order in which it lists all of them. -/
structure Arrangement.Steady (a : Arrangement) : Prop where
  strings : ∀ part whole, List.Sublist part whole → (a.strings part).Sublist (a.strings whole)
  numbers : ∀ part whole, List.Sublist part whole → (a.numbers part).Sublist (a.numbers whole)

theorem Arrangement.steady_ascending : Arrangement.ascending.Steady :=
  ⟨fun _ _ h => h, fun _ _ h => h⟩

namespace Table

variable {a : Arrangement}

/-- If one table has no other keys than another, and its objects in the same order, then it lists
its keys in the same order. -/
theorem Contents.keys_sublist {t u : Table} (ha : a.Steady) (ht : t.Contents) (hu : u.Contents)
    (hsub : ∀ k, (u.get? k).isSome = true → (t.get? k).isSome = true)
    (hobjects : (u.objects.toList.map (·.1)).Sublist (t.objects.toList.map (·.1))) :
    (u.keys a).Sublist (t.keys a) := by
  have hstrings : u.strings.keys.Sublist t.strings.keys :=
    keys_sublist_of_subset fun s hs => mem_strings.mpr (hsub _ (mem_strings.mp hs))
  have hindices : u.indexed.indices.Sublist t.indexed.indices :=
    Indexed.indices_sublist_of_subset hu.indexed ht.indexed fun i hi => hsub (.index i) hi
  have hnumbers : u.numbers.keys.Sublist t.numbers.keys :=
    keys_sublist_of_subset fun r hr => mem_numbers.mpr (hsub _ (mem_numbers.mp hr))
  have hkeep : ∀ {a b : Bool} (k : Key), (a = true → b = true) →
      (if a then [k] else []).Sublist (if b then [k] else []) := by
    intro a b k hab
    cases a with
    | false => exact List.nil_sublist _
    | true => simp [hab rfl]
  have hlast := hobjects.map Key.object
  rw [List.map_map, List.map_map] at hlast
  exact ((((((ha.strings _ _ hstrings).map _).append (hindices.map _)).append
    ((ha.numbers _ _ hnumbers).map _)).append (hkeep _ (hsub (.boolean false)))).append
    (hkeep _ (hsub (.boolean true)))).append hlast

/-! ## Edits that add no key -/

/-- An edit that adds no key, and drops the order that the table remembers all the same: a write
at a value that is no key, an insertion that finds no room, a removal, and a change of the order
of the items. -/
def Edit.DropsOrder : Edit → Table → Prop
  | .set key v, _ => v ≠ .nil ∧ Key.ofValue? key = none
  | .insert position _, t => t.hasRoomAt position = false
  | .remove _, _ => True
  | .replace values, t => values.Perm t.sequence
  | _, _ => False

theorem objects_rawSet_sublist {t : Table} {key v : Value} (h : v = .nil ∨ t.rawGet key ≠ .nil) :
    ((t.rawSet key v).objects.toList.map (·.1)).Sublist (t.objects.toList.map (·.1)) := by
  rw [Table.rawSet]
  cases hkey : Key.ofValue? key with
  | none => exact .refl _
  | some k =>
    cases k with
    | boolean b => cases b <;> exact .refl _
    | object id =>
      show ((putObject id v t.objects).toList.map (·.1)).Sublist _
      rw [toList_putObject]
      refine putObjectIn_sublist (h.imp_right fun hne => ?_)
      rw [rawGet_of_key hkey, get, get?, objectValue?_eq] at hne
      cases hvalue : objectValueIn id t.objects.toList with
      | none =>
        rw [hvalue] at hne
        exact absurd rfl hne
      | some w => rfl
    | _ => exact .refl _

theorem Edit.AddsNoKey.keys_sublist {e : Edit} {t : Table} (h : e.AddsNoKey t)
    (hwf : t.WellFormed) (ha : a.Steady) : ((e.apply t).keys a).Sublist (t.keys a) := by
  refine hwf.toContents.keys_sublist ha (hwf.apply e h.inRange).toContents
    (fun k hk => h.isSome_of_apply hwf hk) ?_
  cases e with
  | set key v => exact objects_rawSet_sublist h
  | setString s v => exact .refl _
  | toSparse =>
    rw [Edit.apply, Table.toSparse]
    split <;> exact .refl _
  | next b v =>
    obtain ⟨hint, hn⟩ := next_snd t b v
    rw [Edit.apply, hn]
  | insert position v => exact h.elim
  | remove position => exact h.elim
  | replace values => exact h.elim
  | _ => exact .refl _

theorem Edit.AddsNoKey.traversal_eq {e : Edit} {t : Table} (h : e.AddsNoKey t)
    (hwf : t.WellFormed) (hnext : ∀ b v, e ≠ .next b v) :
    (e.apply t).traversal = t.traversal := by
  cases e with
  | set key v => exact traversal_rawSet h
  | setString s v =>
    rw [Edit.apply, hwf.setString_eq]
    have hquiet : v = .nil ∨ t.rawGet (.string s) ≠ .nil := h
    exact traversal_rawSet hquiet
  | toSparse =>
    rw [Edit.apply, Table.toSparse]
    split <;> rfl
  | next b v => exact absurd rfl (hnext b v)
  | insert position v => exact h.elim
  | remove position => exact h.elim
  | replace values => exact h.elim
  | _ => rfl

theorem traversal_next (t : Table) (a : Arrangement) (v : Value) :
    (t.next a v).2.traversal = some (t.order a) := by
  obtain ⟨hint, hn⟩ := next_snd t a v
  rw [hn]

/-- If an edit is a step of a walk, it finds the keys in this arrangement. -/
def Edit.ListsBy (a : Arrangement) : Edit → Prop
  | .next b _ => b = a
  | _ => True

/-- An edit that adds no key leaves the order alone, or remembers it. -/
theorem Edit.AddsNoKey.traversal_cases {e : Edit} {t : Table} (h : e.AddsNoKey t)
    (hwf : t.WellFormed) (hby : e.ListsBy a) :
    (e.apply t).traversal = t.traversal ∨ (e.apply t).traversal = some (t.order a) := by
  by_cases hnext : ∃ b v, e = .next b v
  · obtain ⟨b, v, rfl⟩ := hnext
    obtain rfl : b = a := hby
    exact Or.inr (traversal_next t b v)
  · exact Or.inl (h.traversal_eq hwf fun b v heq => hnext ⟨b, v, heq⟩)

namespace Edit.DropsOrder

variable {e : Edit} {t : Table}

theorem traversal_apply (h : e.DropsOrder t) : (e.apply t).traversal = none := by
  cases e with
  | set key v =>
    obtain ⟨hv, hkey⟩ := h
    have hadds : (!v.isNil && (t.rawGet key).isNil) = true := by
      have hnil : v.isNil = false := by
        rw [← Bool.not_eq_true, isNil_eq_true_iff]
        exact hv
      rw [hnil, Table.rawGet, hkey]
      rfl
    rw [Edit.apply, Table.rawSet, hadds, hkey]
    rfl
  | insert position v =>
    have hroom : t.hasRoomAt position = false := h
    simp [Edit.apply, hroom, Table.forSequence]
  | remove position =>
    rw [Edit.apply]
    split <;> rfl
  | replace values => rfl
  | _ => exact h.elim

theorem objects_apply (h : e.DropsOrder t) : (e.apply t).objects = t.objects := by
  cases e with
  | set key v =>
    rw [Edit.apply, Table.rawSet, h.2]
    rfl
  | insert position v =>
    have hroom : t.hasRoomAt position = false := h
    simp [Edit.apply, hroom, Table.forSequence, Table.toArray]
  | remove position =>
    rw [Edit.apply]
    split <;> rfl
  | replace values => rfl
  | _ => exact h.elim

theorem wellFormed_apply (h : e.DropsOrder t) (hwf : t.WellFormed) : (e.apply t).WellFormed := by
  cases e with
  | insert position v =>
    have hroom : t.hasRoomAt position = false := h
    simp only [Edit.apply, hroom, Bool.false_eq_true, if_false]
    exact hwf.forSequence
  | replace values =>
    have hperm : values.Perm t.sequence := h
    refine hwf.replaceItems ?_
    rw [hperm.length_eq, length_sequence, ← hwf.size_items]
    obtain ⟨items, overflow, heq, hitems, -⟩ := hwf.exists_array
    rw [items_eq heq]
    exact hitems.2.1
  | set key v => exact hwf.apply (.set key v) trivial
  | remove position => exact hwf.apply (.remove position) trivial
  | _ => exact h.elim

theorem get_of_apply (h : e.DropsOrder t) (hwf : t.WellFormed) {k : Key}
    (hk : (e.apply t).get k ≠ .nil) : t.get k ≠ .nil := by
  -- The indices up to the length have values, so only the others are to be looked at.
  have hrun : ∀ i, 1 ≤ i → i ≤ t.length → t.get (.index i) ≠ .nil := by
    intro i h1 h2
    rw [ne_eq, hwf.get_eq_nil_iff]
    exact Option.isSome_iff_ne_none.mp (hwf.isBorder_length.1 i h1 h2)
  cases e with
  | set key v =>
    rwa [Edit.apply, Table.rawSet, h.2, get, get?_forget] at hk
  | insert position v =>
    have hroom : t.hasRoomAt position = false := h
    simp only [Edit.apply, hroom, Bool.false_eq_true, if_false, get_forSequence] at hk
    exact hk
  | remove position =>
    rw [Edit.apply] at hk
    cases hitem : t.item? position with
    | none =>
      rw [hitem] at hk
      rwa [← get_forSequence t]
    | some v =>
      simp only [hitem, Option.isSome_some, if_true] at hk
      have h1 : 1 ≤ position := by
        cases position with
        | zero => cases hitem
        | succ i => exact Nat.succ_pos i
      rw [hwf.item?_eq h1] at hitem
      split at hitem
      · next h2 =>
        have hremoved := hwf.removed h1 h2
        by_cases hmoved : ∃ i, position ≤ i ∧ i ≤ t.length ∧ k = .index i
        · obtain ⟨i, hi1, hi2, rfl⟩ := hmoved
          exact hrun i (by omega) hi2
        · rwa [hremoved.others k fun i hi1 hi2 heq => hmoved ⟨i, hi1, hi2, heq⟩] at hk
      · cases hitem
  | replace values =>
    have hlength : values.length = t.length := by
      have hperm : values.Perm t.sequence := h
      rw [hperm.length_eq, length_sequence]
    by_cases hover : ∃ i, 1 ≤ i ∧ i ≤ values.length ∧ k = .index i
    · obtain ⟨i, hi1, hi2, rfl⟩ := hover
      exact hrun i hi1 (hlength ▸ hi2)
    · rwa [Edit.apply, get_replaceItems_of_ne t values fun i hi1 hi2 heq =>
        hover ⟨i, hi1, hi2, heq⟩] at hk
  | _ => exact h.elim

theorem isSome_of_apply (h : e.DropsOrder t) (hwf : t.WellFormed) {k : Key}
    (hk : ((e.apply t).get? k).isSome = true) : (t.get? k).isSome = true := by
  rw [Option.isSome_iff_ne_none, ne_eq, ← hwf.get_eq_nil_iff]
  rw [Option.isSome_iff_ne_none, ne_eq, ← (h.wellFormed_apply hwf).get_eq_nil_iff] at hk
  exact h.get_of_apply hwf hk

theorem keys_sublist (h : e.DropsOrder t) (hwf : t.WellFormed) (ha : a.Steady) :
    ((e.apply t).keys a).Sublist (t.keys a) := by
  refine hwf.toContents.keys_sublist ha (h.wellFormed_apply hwf).toContents
    (fun k hk => h.isSome_of_apply hwf hk) ?_
  rw [h.objects_apply]

end Edit.DropsOrder

/-! ## Remembered orders -/

/-- The order of a walk lists the keys in the order in which the table does. -/
def Listed (a : Arrangement) (t : Table) : Prop := (t.keys a).Sublist (t.order a).toList

theorem order_eq_keys {t : Table} (h : t.traversal = none) (a : Arrangement) :
    (t.order a).toList = t.keys a := by
  rw [order, h]
  rfl

theorem listed_of_traversal_eq_none {t : Table} (h : t.traversal = none) (a : Arrangement) :
    t.Listed a := by
  rw [Listed, order_eq_keys h]

/-- After an edit that keeps the order or remembers it, the order is a part of the one before. -/
theorem Edit.AddsNoKey.order_sublist {e : Edit} {t : Table} (h : e.AddsNoKey t)
    (hwf : t.WellFormed) (ha : a.Steady) (hby : e.ListsBy a) :
    ((e.apply t).order a).toList.Sublist (t.order a).toList := by
  have hkeys := h.keys_sublist hwf ha
  rcases h.traversal_cases hwf hby with hsame | hremembered
  · cases htraversal : t.traversal with
    | none =>
      rw [order_eq_keys htraversal, order_eq_keys (hsame.trans htraversal)]
      exact hkeys
    | some order =>
      rw [Table.order, Table.order, hsame, htraversal]
      exact .refl _
  · rw [Table.order, hremembered]
    exact .refl _

theorem Edit.AddsNoKey.listed {e : Edit} {t : Table} (h : e.AddsNoKey t) (hwf : t.WellFormed)
    (ha : a.Steady) (hby : e.ListsBy a) (hlisted : t.Listed a) : (e.apply t).Listed a := by
  have hkeys := (h.keys_sublist hwf ha).trans hlisted
  rcases h.traversal_cases hwf hby with hsame | hremembered
  · cases htraversal : t.traversal with
    | none => exact listed_of_traversal_eq_none (hsame.trans htraversal) a
    | some order =>
      rw [Table.order, htraversal] at hkeys
      rwa [Listed, Table.order, hsame, htraversal]
  · rwa [Listed, Table.order, hremembered]

theorem Edit.DropsOrder.order_sublist {e : Edit} {t : Table} (h : e.DropsOrder t)
    (hwf : t.WellFormed) (ha : a.Steady) (hlisted : t.Listed a) :
    ((e.apply t).order a).toList.Sublist (t.order a).toList := by
  rw [order_eq_keys h.traversal_apply]
  exact (h.keys_sublist hwf ha).trans hlisted

/-- An edit that is none of those forgets the order. -/
theorem Edit.traversal_eq_none_or {t : Table} (e : Edit) (hwf : t.WellFormed) :
    (e.apply t).traversal = none ∨ e.AddsNoKey t := by
  have hset : ∀ key v, (t.rawSet key v).traversal = none ∨ v = .nil ∨ t.rawGet key ≠ .nil := by
    intro key v
    by_cases hquiet : v = .nil ∨ t.rawGet key ≠ .nil
    · exact Or.inr hquiet
    · obtain ⟨hv, hnil⟩ := not_or.mp hquiet
      have hadds : (!v.isNil && (t.rawGet key).isNil) = true := by
        rw [Bool.and_eq_true, Bool.not_eq_true', ← Bool.not_eq_true, isNil_eq_true_iff,
          isNil_eq_true_iff]
        exact ⟨hv, not_not.mp hnil⟩
      rw [Table.rawSet, hadds]
      left
      cases Key.ofValue? key with
      | none => rfl
      | some k => exact traversal_put _ k v
  cases e with
  | set key v => exact hset key v
  | setString s v =>
    rw [Edit.apply, hwf.setString_eq]
    exact hset (.string s) v
  | insert position v =>
    rw [Edit.apply]
    split <;> exact Or.inl rfl
  | remove position =>
    rw [Edit.apply]
    split <;> exact Or.inl rfl
  | replace values => exact Or.inl rfl
  | _ => exact Or.inr trivial

/-- After an edit the keys are remembered in their order, or nothing is. -/
theorem Edit.listed {e : Edit} {t : Table} (hwf : t.WellFormed) (ha : a.Steady)
    (hby : e.ListsBy a) (hlisted : t.Listed a) : (e.apply t).Listed a := by
  rcases e.traversal_eq_none_or hwf with hnone | hquiet
  · exact listed_of_traversal_eq_none hnone a
  · exact hquiet.listed hwf ha hby hlisted

end Table

end LuaRuntime
