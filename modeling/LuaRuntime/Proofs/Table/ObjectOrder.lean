import LuaRuntime.Proofs.Table.Alike
import LuaRuntime.Proofs.Table.KeyOrder

/-!
# The order of the keys

A table lists its strings, its indices in ascending order, its other numbers, false and true, and
then the tables and functions among its keys in the order in which they were added.  A history of
a table is a list of edits that make it from an empty one.  `Edit.listObject` says what an edit
does to the list of objects: a write adds a new object at the end and leaves one that is there in
its place, clearing an entry takes its object off the list, and no other edit touches the list.
So the list is a fold of the history (`objectKeys_applyAll`), and every reachable table has a
history (`Reachable.exists_history`).

If all steps of walks in the history find the keys in one steady arrangement, the table remembers
its keys in that order, or nothing (`Makes.listed`).
-/

namespace LuaRuntime

/-! ## One write -/

theorem map_fst_putObjectIn (id : ObjectId) (v : Value) (entries : List (ObjectId × Value)) :
    (putObjectIn id v entries).map (·.1) =
      if v.isNil then (entries.map (·.1)).erase id
      else if id ∈ entries.map (·.1) then entries.map (·.1)
      else entries.map (·.1) ++ [id] := by
  induction entries with
  | nil =>
    rw [putObjectIn]
    cases v.isNil <;> rfl
  | cons first rest ih =>
    rw [putObjectIn]
    by_cases hid : first.1 = id
    · subst hid
      cases v.isNil <;> simp
    · have hne : ¬ id = first.1 := fun heq => hid heq.symm
      simp only [beq_iff_eq, hid, hne, false_or, if_false, List.map_cons, List.erase_cons,
        List.mem_cons, ih]
      cases v.isNil
      · simp only [Bool.false_eq_true, if_false]
        split <;> rfl
      · rfl

namespace Table

/-! ## Histories -/

/-- The tables and functions among the keys, in the order in which they are listed. -/
def objectKeys (t : Table) : List ObjectId := t.objects.toList.map (·.1)

/-- A list of objects after an edit. -/
def Edit.listObject (listed : List ObjectId) : Edit → List ObjectId
  | .set key v =>
      match Key.ofValue? key with
      | some (.object id) =>
          if v.isNil then listed.erase id
          else if id ∈ listed then listed
          else listed ++ [id]
      | _ => listed
  | _ => listed

theorem objectKeys_apply (e : Edit) (t : Table) :
    (e.apply t).objectKeys = e.listObject t.objectKeys := by
  cases e with
  | set key v =>
    rw [Edit.apply, Table.rawSet, Edit.listObject]
    cases Key.ofValue? key with
    | none => rfl
    | some k =>
      cases k with
      | object id =>
        show (putObject id v t.objects).toList.map (·.1) = _
        rw [toList_putObject, map_fst_putObjectIn]
        rfl
      | boolean b => cases b <;> rfl
      | _ => rfl
  | toSparse =>
    rw [Edit.apply, Table.toSparse]
    split <;> rfl
  | insert position v =>
    rw [Edit.apply]
    split <;> rfl
  | remove position =>
    rw [Edit.apply]
    split <;> rfl
  | next a v =>
    obtain ⟨hint, hn⟩ := next_snd t a v
    rw [Edit.apply, hn]
    rfl
  | _ => rfl

/-- The objects are listed as the edits of a table have listed them. -/
theorem objectKeys_applyAll (edits : List Edit) (t : Table) :
    (Edit.applyAll edits t).objectKeys = edits.foldl Edit.listObject t.objectKeys := by
  induction edits generalizing t with
  | nil => rfl
  | cons e rest ih => rw [Edit.applyAll, List.foldl_cons, ih, objectKeys_apply]

/-- Edits that make a table from another one. -/
structure Makes (edits : List Edit) (t u : Table) : Prop where
  inRange : Edit.AllInRange edits t
  applyAll : Edit.applyAll edits t = u

namespace Makes

variable {t u w : Table} {edits more : List Edit}

theorem nil (t : Table) : Makes [] t t := ⟨trivial, rfl⟩

theorem cons {e : Edit} (hr : e.InRange t) (h : Makes edits (e.apply t) u) :
    Makes (e :: edits) t u := ⟨⟨hr, h.inRange⟩, h.applyAll⟩

theorem append (h : Makes edits t u) (hmore : Makes more u w) : Makes (edits ++ more) t w := by
  induction edits generalizing t with
  | nil =>
    obtain rfl : t = u := h.applyAll
    exact hmore
  | cons e rest ih => exact cons h.inRange.1 (ih ⟨h.inRange.2, h.applyAll⟩)

theorem snoc {e : Edit} (h : Makes edits t u) (hr : e.InRange u) :
    Makes (edits ++ [e]) t (e.apply u) := h.append (cons hr (nil _))

theorem listed {a : Arrangement} (h : Makes edits t u) (ha : a.Steady)
    (hby : ∀ e ∈ edits, e.ListsBy a) (hwf : t.WellFormed) (hlisted : t.Listed a) :
    u.Listed a := by
  induction edits generalizing t with
  | nil =>
    obtain rfl : t = u := h.applyAll
    exact hlisted
  | cons e rest ih =>
    obtain ⟨he, hrest⟩ := List.forall_mem_cons.mp hby
    exact ih ⟨h.inRange.2, h.applyAll⟩ hrest (hwf.apply e h.inRange.1)
      (Edit.listed hwf ha he hlisted)

end Makes

theorem exists_makes_ofPairs : ∀ {flat : List Value} {t u : Table}, ofPairs flat t = .ok u →
    ∃ edits, Makes edits t u
  | [], t, _, h => by
      cases h
      exact ⟨[], .nil t⟩
  | [_], _, _, h => by cases h
  | key :: v :: rest, t, u, h => by
      rw [ofPairs] at h
      cases hk : Key.check key with
      | error e =>
        rw [hk] at h
        cases h
      | ok k =>
        rw [hk] at h
        obtain ⟨edits, hmakes⟩ := exists_makes_ofPairs h
        split at hmakes
        · exact ⟨edits, hmakes⟩
        · exact ⟨_, .cons (e := .set key v) trivial hmakes⟩

theorem exists_makes_overlay : ∀ (values : List Value) (i : Nat) (t : Table),
    ∃ edits, Makes edits t (overlay i values t)
  | [], _, t => ⟨[], .nil t⟩
  | v :: rest, i, t => by
      obtain ⟨edits, hmakes⟩ := exists_makes_overlay rest (i + 1) (t.rawSet (.ofNat i) v)
      exact ⟨_, .cons (e := .set (.ofNat i) v) trivial hmakes⟩

theorem exists_makes_construct {positional : Option (List Value)} {flat : List Value} {t : Table}
    (h : construct positional flat = .ok t) : ∃ edits, Makes edits {} t := by
  rw [construct] at h
  split at h
  · cases h
  · cases hu : ofPairs flat {} with
    | error e =>
      rw [hu] at h
      cases h
    | ok u =>
      rw [hu] at h
      cases h
      obtain ⟨edits, hmakes⟩ := exists_makes_ofPairs hu
      cases positional with
      | none => exact ⟨edits, hmakes⟩
      | some values =>
        obtain ⟨more, hmore⟩ := exists_makes_overlay values 1 u
        exact ⟨_, (hmakes.append hmore).snoc (e := .toArray) trivial⟩

/-- A list is a table whose items were replaced. -/
theorem ofList_eq_replaceItems (values : List Value) :
    ofList values = ({} : Table).replaceItems values := by
  have hempty : Indexed.toArray (.sparse {}) = .array #[] {} := rfl
  have hindexed : Indexed.ofParts #[] (Indexed.writeFrom 1 values {}) =
      (Indexed.toArray (.sparse {})).replaceItems values := by
    rw [hempty, Indexed.replaceItems]
    split
    · next hnone =>
      obtain rfl : values = [] := List.eq_nil_of_length_eq_zero hnone.1.symm
      rfl
    · rfl
  show ({ indexed := _ } : Table) = { indexed := _ }
  rw [hindexed]
  rfl

/-- Every reachable table comes from an empty one by edits. -/
theorem Reachable.exists_history {t : Table} (h : Reachable t) : ∃ edits, Makes edits {} t := by
  induction h with
  | empty => exact ⟨[], .nil _⟩
  | @ofList values hlength =>
    rw [ofList_eq_replaceItems]
    exact ⟨_, .cons (e := .replace values) hlength (.nil _)⟩
  | construct hc => exact exists_makes_construct hc
  | edit e _ hr ih =>
    obtain ⟨edits, hmakes⟩ := ih
    exact ⟨_, hmakes.snoc hr⟩

/-! ## All keys -/

/-- Keys in the order in which a table lists them, with these objects at the end. -/
def InKeyOrder (keys : List Key) (objects : List ObjectId) : Prop :=
  ∃ (strings : List String) (indices : List Nat) (numbers : List UInt64) (booleans : List Bool),
    keys = strings.map .string ++ indices.map .index ++ numbers.map .number
      ++ booleans.map .boolean ++ objects.map .object ∧
    indices.Pairwise (· < ·) ∧ booleans.Pairwise (· < ·)

theorem WellFormed.inKeyOrder {t : Table} (h : t.WellFormed) (a : Arrangement) :
    InKeyOrder (t.keys a) t.objectKeys := by
  refine ⟨a.strings t.strings.keys, t.indexed.indices, a.numbers t.numbers.keys,
    (if t.atFalse.isSome then [false] else []) ++ (if t.atTrue.isSome then [true] else []),
    ?_, ?_, ?_⟩
  · rw [keys, objectKeys, List.map_map]
    cases t.atFalse.isSome <;> cases t.atTrue.isSome <;> simp [Function.comp_def]
  · exact ((Indexed.pairwise_indices h.indexed).and (Indexed.indices_nodup h.indexed)).imp
      fun hij => Nat.lt_of_le_of_ne hij.1 hij.2
  · cases t.atFalse.isSome <;> cases t.atTrue.isSome <;> decide

end Table

end LuaRuntime
