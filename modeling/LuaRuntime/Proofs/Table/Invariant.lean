import LuaRuntime.Proofs.State.Action
import LuaRuntime.Proofs.Table.Contents

/-!
# The invariant of tables

A table is *well-formed* if its contents keep to their rules, a remembered length is the first
border, and a remembered traversal lists every key of the table and none twice.

`Edit` are the operations that change a table, those that only remember something included.  Each
keeps a table well-formed (`WellFormed.apply`), and so every table that is reached from a new one,
from the table of a list or from a constructor is well-formed (`Reachable.wellFormed`).  The one
condition is that no index passes `2 ^ 53`: a list that is written over the indices is not longer,
and a table in which an item is inserted has fewer entries.

Two arguments carry the cases.  An edit that keeps the view keeps what is remembered
(`WellFormed.of_get?_eq`).  A write forgets the length, and it keeps the traversal only if it adds
no key (`WellFormed.write`).
-/

namespace LuaRuntime

namespace Table

/-! ## Well-formed tables -/

/-- An order in which a walk may visit the keys of a table: it has proper keys, none twice, and
among them every key of the table. -/
structure IsOrder (t : Table) (order : Array Key) : Prop where
  nodup : order.toList.Nodup
  proper : ∀ k ∈ order, k.Proper
  complete : ∀ k, (t.get? k).isSome = true → k ∈ order

/-- The rules of a table. -/
structure WellFormed (t : Table) : Prop extends Contents t where
  /-- A remembered length is the first border. -/
  border : ∀ n, t.border = some n → t.indexed.IsBorder n
  /-- A remembered traversal is an order of the keys. -/
  traversal : ∀ order, t.traversal = some order → t.IsOrder order

theorem IsOrder.mono {t u : Table} {order : Array Key} (h : t.IsOrder order)
    (hsub : ∀ k, (u.get? k).isSome = true → (t.get? k).isSome = true) : u.IsOrder order where
  nodup := h.nodup
  proper := h.proper
  complete k hk := h.complete k (hsub k hk)

theorem Contents.isOrder_keys {t : Table} (h : t.Contents) (a : Arrangement) :
    t.IsOrder (t.keys a).toArray where
  nodup := h.keys_nodup a
  proper k hk := by
    obtain ⟨v, hv⟩ := Option.isSome_iff_exists.mp ((h.mem_keys a k).mp (List.mem_toArray.mp hk))
    exact (h.proper hv).2
  complete k hk := List.mem_toArray.mpr ((h.mem_keys a k).mpr hk)

theorem WellFormed.isOrder_order {t : Table} (h : t.WellFormed) (a : Arrangement) :
    t.IsOrder (t.order a) := by
  rw [order]
  cases ht : t.traversal with
  | none => exact h.isOrder_keys a
  | some order => exact h.traversal order ht

theorem wellFormed_empty : WellFormed {} where
  toContents := contents_empty
  border n hn := by cases hn
  traversal order ho := by cases ho

/-- A table that remembers nothing is well-formed with its contents. -/
theorem Contents.wellFormed {t : Table} (h : t.Contents) (hb : t.border = none)
    (ht : t.traversal = none) : t.WellFormed where
  toContents := h
  border n hn := by
    rw [hb] at hn
    cases hn
  traversal order ho := by
    rw [ht] at ho
    cases ho

/-- A change of the layout alone keeps what is remembered. -/
theorem WellFormed.of_get?_eq {t u : Table} (h : t.WellFormed) (hu : u.Contents)
    (hget : ∀ k, u.get? k = t.get? k) (hb : u.border = t.border)
    (ht : u.traversal = t.traversal) : u.WellFormed where
  toContents := hu
  border n hn := by
    rw [hb] at hn
    obtain ⟨h1, h2⟩ := h.border n hn
    refine ⟨fun i hi1 hi2 => ?_, ?_⟩
    · rw [show u.indexed.get? i = t.indexed.get? i from hget (.index i)]
      exact h1 i hi1 hi2
    · rw [show u.indexed.get? (n + 1) = t.indexed.get? (n + 1) from hget (.index (n + 1))]
      exact h2
  traversal order ho := by
    rw [ht] at ho
    exact (h.traversal order ho).mono fun k hk => by rwa [hget] at hk

/-! ## Layout and length -/

theorem get?_toArray (t : Table) (k : Key) : t.toArray.get? k = t.get? k := by
  cases k with
  | index i => exact Indexed.get?_toArray t.indexed i
  | _ => rfl

theorem Contents.toArray {t : Table} (h : t.Contents) : t.toArray.Contents :=
  { h with indexed := Indexed.wellFormed_toArray h.indexed }

theorem Contents.get?_toSparse {t : Table} (h : t.Contents) (k : Key) :
    t.toSparse.get? k = t.get? k := by
  rw [Table.toSparse]
  split
  · cases k with
    | index i => exact Indexed.get?_toSparse h.indexed i
    | _ => rfl
  · rfl

theorem Contents.toSparse {t : Table} (h : t.Contents) : t.toSparse.Contents := by
  rw [Table.toSparse]
  split
  · exact { h with indexed := Indexed.wellFormed_toSparse h.indexed }
  · exact h

theorem WellFormed.toArray {t : Table} (h : t.WellFormed) : t.toArray.WellFormed :=
  h.of_get?_eq h.toContents.toArray (get?_toArray t) rfl rfl

theorem WellFormed.toSparse {t : Table} (h : t.WellFormed) : t.toSparse.WellFormed := by
  refine h.of_get?_eq h.toContents.toSparse h.get?_toSparse ?_ ?_
  · rw [Table.toSparse]
    split <;> rfl
  · rw [Table.toSparse]
    split <;> rfl

/-- The length is the first border, whether it is remembered or not. -/
theorem WellFormed.isBorder_length {t : Table} (h : t.WellFormed) :
    t.indexed.IsBorder t.length := by
  rw [length]
  cases hb : t.border with
  | none => exact Indexed.run_isBorder h.indexed
  | some n => exact h.border n hb

theorem get?_measured (t : Table) (k : Key) : t.measured.get? k = t.get? k := by
  cases k <;> rfl

theorem WellFormed.measured {t : Table} (h : t.WellFormed) : t.measured.WellFormed where
  toContents := { h.toContents with }
  border n hn := by
    cases hn
    exact h.isBorder_length
  traversal order ho := (h.traversal order ho).mono fun k hk => by rwa [get?_measured] at hk

/-! ## Walking -/

/-- A step of a walk remembers the order and perhaps a place. -/
theorem next_snd (t : Table) (a : Arrangement) (v : Value) :
    ∃ hint, (t.next a v).2 = { t with traversal := some (t.order a), hint := hint } := by
  rw [next]
  cases t.resume? (t.order a) v with
  | none => exact ⟨t.hint, rfl⟩
  | some position =>
    simp only []
    cases t.seek (t.order a) position with
    | none => exact ⟨t.hint, rfl⟩
    | some found => exact ⟨found.1, rfl⟩

theorem get?_next_snd (t : Table) (a : Arrangement) (v : Value) (k : Key) :
    (t.next a v).2.get? k = t.get? k := by
  obtain ⟨hint, h⟩ := next_snd t a v
  rw [h]
  cases k <;> rfl

theorem WellFormed.next {t : Table} (h : t.WellFormed) (a : Arrangement) (v : Value) :
    (t.next a v).2.WellFormed := by
  obtain ⟨hint, hn⟩ := next_snd t a v
  rw [hn]
  refine ⟨{ h.toContents with }, h.border, ?_⟩
  intro order ho
  cases ho
  exact (h.isOrder_order a).mono fun k hk => by cases k <;> exact hk

/-! ## Writing -/

theorem get?_forget (t : Table) (adds : Bool) (k : Key) : (t.forget adds).get? k = t.get? k := by
  cases k <;> rfl

theorem Contents.forget {t : Table} (h : t.Contents) (adds : Bool) : (t.forget adds).Contents :=
  { h with }

theorem border_put (t : Table) (k : Key) (v : Value) : (t.put k v).border = t.border := by
  cases k with
  | boolean b => cases b <;> rfl
  | _ => rfl

theorem traversal_put (t : Table) (k : Key) (v : Value) :
    (t.put k v).traversal = t.traversal := by
  cases k with
  | boolean b => cases b <;> rfl
  | _ => rfl

/-- A write that forgets the traversal if it adds a key keeps the rules. -/
theorem WellFormed.write {t : Table} (h : t.WellFormed) {k : Key} (hk : k.Proper) (v : Value)
    {adds : Bool} (hadds : adds = false → v = .nil ∨ (t.get? k).isSome = true) :
    ((t.forget adds).put k v).WellFormed where
  toContents := (h.toContents.forget adds).put hk v
  border n hn := by
    rw [border_put] at hn
    cases hn
  traversal order ho := by
    rw [traversal_put] at ho
    cases adds with
    | true => cases ho
    | false =>
      refine (h.traversal order ho).mono fun l hl => ?_
      rw [(h.toContents.forget false).get?_put, get?_forget] at hl
      split at hl
      · next hkl =>
        subst hkl
        rcases hadds rfl with rfl | hsome
        · cases hl
        · exact hsome
      · exact hl

theorem isNil_eq_true_iff {v : Value} : v.isNil = true ↔ v = .nil := by
  cases v <;> simp [Value.isNil]

theorem WellFormed.forget {t : Table} (h : t.WellFormed) (adds : Bool) :
    (t.forget adds).WellFormed where
  toContents := h.toContents.forget adds
  border n hn := by cases hn
  traversal order ho := by
    cases adds with
    | true => cases ho
    | false => exact (h.traversal order ho).mono fun k hk => by rwa [get?_forget] at hk

theorem rawGet_of_key {t : Table} {v : Value} {k : Key} (h : Key.ofValue? v = some k) :
    t.rawGet v = t.get k := by
  rw [rawGet, h]

/-- A value other than nil is read at a key. -/
theorem Contents.key_of_rawGet {t : Table} (h : t.Contents) {v : Value}
    (hv : t.rawGet v ≠ .nil) :
    ∃ k, Key.ofValue? v = some k ∧ (t.get? k).isSome = true := by
  cases hk : Key.ofValue? v with
  | none =>
    rw [rawGet, hk] at hv
    exact absurd rfl hv
  | some k =>
    refine ⟨k, rfl, ?_⟩
    rw [rawGet_of_key hk, ne_eq, h.get_eq_nil_iff] at hv
    exact Option.isSome_iff_ne_none.mpr hv

theorem WellFormed.rawSet {t : Table} (h : t.WellFormed) (key v : Value) :
    (t.rawSet key v).WellFormed := by
  rw [Table.rawSet]
  cases hk : Key.ofValue? key with
  | none => exact h.forget _
  | some k =>
    refine h.write (Key.proper_of_ofValue? hk) v ?_
    intro hadds
    rw [rawGet_of_key hk] at hadds
    cases hv : v.isNil with
    | true => exact Or.inl (isNil_eq_true_iff.mp hv)
    | false =>
      refine Or.inr ?_
      rw [Option.isSome_iff_ne_none]
      intro hnone
      rw [(h.get_eq_nil_iff k).mpr hnone, hv] at hadds
      cases hadds

/-- A write at a string is the write at that string as a value. -/
theorem Contents.setString_eq {t : Table} (h : t.Contents) (s : String) (v : Value) :
    t.setString s v = t.rawSet (.string s) v := by
  have hnil : (t.rawGet (.string s)).isNil = (t.get? (.string s)).isNone := by
    rw [rawGet_of_key rfl, Bool.eq_iff_iff, isNil_eq_true_iff, h.get_eq_nil_iff,
      Option.isNone_iff_eq_none]
  rw [setString, Table.rawSet, hnil]
  rfl

theorem WellFormed.setString {t : Table} (h : t.WellFormed) (s : String) (v : Value) :
    (t.setString s v).WellFormed := by
  rw [h.setString_eq]
  exact h.rawSet _ v

/-! ## Items -/

theorem WellFormed.forSequence {t : Table} (h : t.WellFormed) : t.forSequence.WellFormed :=
  Contents.wellFormed { h.toContents.toArray with } rfl rfl

theorem items_eq {t : Table} {items : Array Value} {overflow : Std.HashMap Nat Value}
    (h : t.indexed.toArray = .array items overflow) : t.items = items := by
  rw [Table.items, h]

theorem size_items_le (t : Table) (h : t.Contents) : t.items.size ≤ t.size := by
  obtain ⟨items, overflow, heq⟩ := Indexed.toArray_eq_array t.indexed
  have hsize : t.toArray.size = t.size := by
    rw [← length_keys _ .ascending, ← length_keys _ .ascending]
    refine List.Perm.length_eq
      ((List.perm_ext_iff_of_nodup (h.toArray.keys_nodup _) (h.keys_nodup _)).mpr ?_)
    intro k
    rw [h.toArray.mem_keys, h.mem_keys, get?_toArray]
  rw [items_eq heq, ← hsize, Table.size]
  have : t.toArray.indexed.size = items.size + overflow.size := by
    rw [show t.toArray.indexed = t.indexed.toArray from rfl, heq, Indexed.size]
  omega

theorem WellFormed.insertItem {t : Table} (h : t.WellFormed) (hsize : t.items.size < 2 ^ 53)
    {position : Nat} (hroom : t.hasRoomAt position = true) (v : Value) :
    (t.insertItem position v).WellFormed := by
  obtain ⟨items, overflow, heq⟩ := Indexed.toArray_eq_array t.indexed
  simp only [hasRoomAt, items_eq heq, Bool.and_eq_true, decide_eq_true_eq] at hroom
  rw [items_eq heq] at hsize
  have hwf := Indexed.wellFormed_toArray h.indexed
  rw [heq] at hwf
  have hins := Indexed.wellFormed_insertItem hwf hsize hroom.1 hroom.2 v
  refine Contents.wellFormed { h.forSequence.toContents with indexed := ?_ } rfl rfl
  change (t.indexed.toArray.insertItem position v).WellFormed
  rw [heq]
  exact hins

theorem WellFormed.removeItem {t : Table} (h : t.WellFormed) (position : Nat) :
    (t.removeItem position).WellFormed :=
  Contents.wellFormed
    { h.forSequence.toContents with
      indexed := Indexed.wellFormed_removeItem h.forSequence.indexed position } rfl rfl

theorem WellFormed.replaceItems {t : Table} (h : t.WellFormed) {values : List Value}
    (hlen : values.length ≤ 2 ^ 53) : (t.replaceItems values).WellFormed :=
  Contents.wellFormed
    { h.forSequence.toContents with
      indexed := Indexed.wellFormed_replaceItems h.forSequence.indexed hlen } rfl rfl

/-! ## Construction -/

theorem wellFormed_ofList {values : List Value} (hlen : values.length ≤ 2 ^ 53) :
    (ofList values).WellFormed := by
  have hempty : (Indexed.sparse {}).WellFormed := by simp [Indexed.WellFormed]
  exact Contents.wellFormed
    { contents_empty with
      indexed := Indexed.wellFormed_ofParts
        (Indexed.adjacent_empty (Indexed.wellFormed_writeFrom_one hlen hempty)) } rfl rfl

theorem WellFormed.ofPairs : ∀ {flat : List Value} {t u : Table}, t.WellFormed →
    ofPairs flat t = .ok u → u.WellFormed
  | [], _, _, h, hu => by
      cases hu
      exact h
  | [_], _, _, _, hu => by cases hu
  | key :: v :: rest, t, u, h, hu => by
      rw [Table.ofPairs] at hu
      cases hk : Key.check key with
      | error e =>
        rw [hk] at hu
        cases hu
      | ok k =>
        rw [hk] at hu
        refine WellFormed.ofPairs ?_ hu
        split
        · exact h
        · exact h.rawSet key v

theorem WellFormed.overlay : ∀ (values : List Value) (i : Nat) {t : Table}, t.WellFormed →
    (overlay i values t).WellFormed
  | [], _, _, h => h
  | v :: vs, i, _, h => WellFormed.overlay vs (i + 1) (h.rawSet (.ofNat i) v)

theorem wellFormed_construct {positional : Option (List Value)} {flat : List Value} {t : Table}
    (h : construct positional flat = .ok t) : t.WellFormed := by
  rw [construct] at h
  split at h
  · cases h
  · cases hu : Table.ofPairs flat {} with
    | error e =>
      rw [hu] at h
      cases h
    | ok u =>
      rw [hu] at h
      cases h
      have hwf := WellFormed.ofPairs wellFormed_empty hu
      cases positional with
      | none => exact hwf
      | some values => exact (WellFormed.overlay values 1 hwf).toArray

/-! ## Edits -/

/-- An operation that may change a table. -/
inductive Edit where
  /-- A write at a value, which may be no key. -/
  | set (key v : Value)
  /-- A write at a string. -/
  | setString (s : String) (v : Value)
  /-- A change to the array layout. -/
  | toArray
  /-- A change to the sparse layout. -/
  | toSparse
  /-- The length is asked for. -/
  | measure
  /-- The items are asked for. -/
  | items
  /-- An insertion at a position, which may have no room. -/
  | insert (position : Nat) (v : Value)
  /-- A removal at a position, which may have no item. -/
  | remove (position : Nat)
  /-- A list is written over the indices from 1 on. -/
  | replace (values : List Value)
  /-- A step of a walk, from a value that the walk may not know.  If no order is remembered, the
  keys are arranged anyhow. -/
  | next (a : Arrangement) (v : Value)

/-- The table after an edit. -/
def Edit.apply : Edit → Table → Table
  | .set key v, t => t.rawSet key v
  | .setString s v, t => t.setString s v
  | .toArray, t => t.toArray
  | .toSparse, t => t.toSparse
  | .measure, t => t.measured
  | .items, t => t.toArray
  | .insert position v, t =>
      if t.hasRoomAt position then t.insertItem position v else t.forSequence
  | .remove position, t =>
      if (t.item? position).isSome then t.removeItem position else t.forSequence
  | .replace values, t => t.replaceItems values
  | .next a v, t => (t.next a v).2

/-- Whether an edit keeps the indices of a table in range. -/
def Edit.InRange : Edit → Table → Prop
  | .insert _ _, t => t.size < 2 ^ 53
  | .replace values, _ => values.length < 2 ^ 53
  | _, _ => True

theorem WellFormed.apply {t : Table} (h : t.WellFormed) (e : Edit) (hr : e.InRange t) :
    (e.apply t).WellFormed := by
  cases e with
  | set key v => exact h.rawSet key v
  | setString s v => exact h.setString s v
  | toArray => exact h.toArray
  | toSparse => exact h.toSparse
  | measure => exact h.measured
  | items => exact h.toArray
  | insert position v =>
    rw [Edit.apply]
    split
    · next hroom => exact h.insertItem ((size_items_le t h.toContents).trans_lt hr) hroom v
    · exact h.forSequence
  | remove position =>
    rw [Edit.apply]
    split
    · exact h.removeItem position
    · exact h.forSequence
  | replace values => exact h.replaceItems (Nat.le_of_lt hr)
  | next a v => exact h.next a v

/-- The tables that come from a new table, a list or a constructor by edits. -/
inductive Reachable : Table → Prop where
  | empty : Reachable {}
  | ofList {values : List Value} : values.length < 2 ^ 53 → Reachable (ofList values)
  | construct {positional : Option (List Value)} {flat : List Value} {t : Table} :
      construct positional flat = .ok t → Reachable t
  | edit {t : Table} (e : Edit) : Reachable t → e.InRange t → Reachable (e.apply t)

theorem Reachable.wellFormed {t : Table} (h : Reachable t) : t.WellFormed := by
  induction h with
  | empty => exact wellFormed_empty
  | ofList hlen => exact wellFormed_ofList (Nat.le_of_lt hlen)
  | construct hc => exact wellFormed_construct hc
  | edit e _ hr ih => exact ih.apply e hr

/-! ## Edits as actions -/

/-- The action of the runtime that makes an edit of a table. -/
def Edit.run (id : TableId) : Edit → Action Unit
  | .set key v => LuaRuntime.rawSet id key v
  | .setString s v => setField id s v
  | .toArray => modifyTable id Table.toArray
  | .toSparse => modifyTable id Table.toSparse
  | .measure => discard (tableLength id)
  | .items => discard (tableItems id)
  | .insert position v => LuaRuntime.insertItem id position v
  | .remove position => discard (LuaRuntime.removeItem id position)
  | .replace values => modifyTable id (·.replaceItems values)
  | .next a v => discard (updateTable id (·.next a v))

theorem modifyTable_congr (s : State) (id : TableId) {f g : Table → Table}
    (h : f (s.table id) = g (s.table id)) : s.modifyTable id f = s.modifyTable id g := by
  have htables : s.tables.modify id.index f = s.tables.modify id.index g := by
    apply Array.ext_getElem?
    intro i
    rw [Array.getElem?_modify, Array.getElem?_modify]
    split
    · next hi =>
      subst hi
      rw [State.table] at h
      cases ht : s.tables[id.index]? with
      | none => rfl
      | some t =>
        rw [ht] at h
        exact congrArg some h
    · rfl
  rw [State.modifyTable, State.modifyTable, htables]

/-- An action changes its table as the edit does, and nothing else, whether it fails or not. -/
theorem Edit.run_snd (e : Edit) (id : TableId) (s : State) :
    (e.run id s).2 = s.modifyTable id e.apply := by
  cases e with
  | set key v =>
    rw [Edit.run, LuaRuntime.rawSet]
    cases hk : Key.check key <;> rfl
  | setString s v => rfl
  | toArray => rfl
  | toSparse => rfl
  | measure => rfl
  | items => rfl
  | insert position v =>
    have hrun : Edit.run id (.insert position v) s =
        (if (s.table id).hasRoomAt position then modifyTable id (·.insertItem position v)
        else do
          modifyTable id Table.forSequence
          throw (.badArgument 2 "insert" .positionOutOfBounds) : Action Unit) s := rfl
    rw [hrun]
    split
    · next hroom => exact modifyTable_congr s id (by rw [Edit.apply, if_pos hroom])
    · next hroom => exact modifyTable_congr s id (by rw [Edit.apply, if_neg hroom])
  | remove position =>
    rw [Edit.run]
    cases hitem : (s.table id).item? position with
    | some item =>
      have hgives : Gives (LuaRuntime.removeItem id position) s item
          (s.modifyTable id (·.removeItem position)) := by
        refine (gives_getTable id s).bind ?_
        rw [hitem]
        exact (gives_modify _ s).bind (gives_pure item _)
      rw [hgives.discard]
      exact modifyTable_congr s id (by rw [Edit.apply, hitem]; rfl)
    | none =>
      have hgives : Gives (LuaRuntime.removeItem id position) s .nil
          (s.modifyTable id Table.forSequence) := by
        refine (gives_getTable id s).bind ?_
        rw [hitem]
        exact (gives_modify _ s).bind (gives_pure Value.nil _)
      rw [hgives.discard]
      exact modifyTable_congr s id (by rw [Edit.apply, hitem]; rfl)
  | replace values => rfl
  | next a v =>
    have hrun : Edit.run id (.next a v) s =
        (discard (do
          modifyTable id fun _ => ((s.table id).next a v).2
          liftM ((s.table id).next a v).1) : Action Unit) s := rfl
    rw [hrun]
    cases ((s.table id).next a v).1 <;> exact modifyTable_congr s id rfl

/-- In every reachable table, whatever its layout and its history: the parts store no nil and keep
to their keys, the length is the first border, each other number is kept by the rank that is its
key, and is neither no number nor an index, no two objects are raw equal, and a remembered
traversal has no two raw equal keys and has every key with a value.  A number is kept as it is,
but negative zero as zero, so negative zero is kept by no table. -/
theorem reachable_representation {t : Table} (h : Reachable t) :
    t.WellFormed ∧ t.indexed.IsBorder t.length ∧
      (∀ r ∈ t.numbers, Key.ofNumber? (Double.ofRank r) = some (.number r) ∧
        (Double.ofRank r).isNaN = false ∧
        ∀ i, 1 ≤ i → i ≤ 2 ^ 53 → Double.ofRank r ≠ Double.ofNat i) ∧
      (∀ x r, Key.ofNumber? x = some (.number r) →
        Double.ofRank r = if x = Double.zero true then Double.zero false else x) ∧
      (t.objects.toList.Pairwise fun a b =>
        (Key.object a.1).toValue.rawEqual (Key.object b.1).toValue = false) ∧
      ∀ order, t.traversal = some order →
        (order.toList.Pairwise fun k l => k.toValue.rawEqual l.toValue = false) ∧
          ∀ v, t.rawGet v ≠ .nil → ∃ k ∈ order, k.toValue.rawEqual v = true := by
  have hwf := h.wellFormed
  refine ⟨hwf, hwf.isBorder_length, ?_, fun _ _ => Key.ofRank_of_ofNumber?, ?_, ?_⟩
  · intro r hr
    obtain ⟨v, hv⟩ := Option.isSome_iff_exists.mp (mem_numbers.mp hr)
    exact Key.ofRank_of_proper (hwf.numbers r v hv).2
  · refine (List.pairwise_map.mp hwf.distinct).imp fun {a b} hab => ?_
    rw [Key.rawEqual_toValue_eq_false_iff (k := .object a.1) (l := .object b.1) trivial trivial]
    exact fun heq => hab (Key.object.inj heq)
  · intro order ho
    have horder := hwf.traversal order ho
    refine ⟨Key.pairwise_not_rawEqual horder.nodup fun k hk => horder.proper k ?_, ?_⟩
    · exact Array.mem_toList_iff.mp hk
    · intro v hv
      obtain ⟨k, hk, hsome⟩ := hwf.key_of_rawGet hv
      refine ⟨k, horder.complete k hsome, ?_⟩
      rwa [← Key.ofValue?_eq_some_iff_rawEqual (Key.ofValue?_toValue (horder.proper k
        (horder.complete k hsome)))]

/-- The table of a list with a nil, whose items are replaced by more, which is walked and cut by
a write at an index in the middle, which gets an entry at negative zero, refuses one at what is no
number, and is measured. -/
def edited : Table :=
  Edit.measure.apply <| Edit.apply (.set (.number (.nan false)) (.boolean true)) <|
    Edit.apply (.set (.number (.zero true)) (.boolean true)) <|
    Edit.apply (.set (.ofNat 2) .nil) <| Edit.apply (.remove 1) <|
    Edit.apply (.next .ascending .nil) <|
    Edit.apply (.replace [.boolean true, .boolean false, .boolean true, .string "x"]) <|
    ofList [.boolean false, .nil, .string "y"]

theorem reachable_edited : Reachable edited := by
  have hstart : Reachable (ofList [.boolean false, .nil, .string "y"]) := .ofList (by decide)
  have hreplaced := hstart.edit
    (.replace [.boolean true, .boolean false, .boolean true, .string "x"])
    (show 4 < 2 ^ 53 by decide)
  exact (((((hreplaced.edit (.next .ascending .nil) trivial).edit (.remove 1) trivial).edit
    (.set (.ofNat 2) .nil) trivial).edit (.set (.number (.zero true)) (.boolean true)) trivial).edit
    (.set (.number (.nan false)) (.boolean true)) trivial).edit .measure trivial

theorem edited_representation :
    Reachable edited ∧ edited.WellFormed ∧ edited.indexed.IsBorder edited.length :=
  ⟨reachable_edited, (reachable_representation reachable_edited).1,
    (reachable_representation reachable_edited).2.1⟩

end Table

end LuaRuntime
