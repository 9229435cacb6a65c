import LuaRuntime.Table.Traversal
import LuaRuntime.Proofs.Table.KeyIdentity
import LuaRuntime.Proofs.Table.Layout
import Mathlib.Data.List.Nodup

/-!
# The contents of a table

`Table.get?` is the one view of a table.  `Contents` are the rules for what the five parts of a
table store: no nil, only proper keys, and no object twice.  Under these rules a write changes the
view at one key (`get?_put`), and `keys` lists the keys of the view once each, however they are
arranged (`mem_keys`, `keys_nodup`, `length_keys`).
-/

namespace LuaRuntime

open Std (TreeMap)

/-! ## Entries at objects -/

/-- The value at an object, for a list of entries. -/
def objectValueIn (id : ObjectId) (entries : List (ObjectId × Value)) : Option Value :=
  (entries.find? fun entry => entry.1 == id).map (·.2)

/-- The entries with a value written at an object, by recursion on the list. -/
def putObjectIn (id : ObjectId) (v : Value) : List (ObjectId × Value) → List (ObjectId × Value)
  | [] => if v.isNil then [] else [(id, v)]
  | entry :: rest =>
      if entry.1 == id then if v.isNil then rest else (id, v) :: rest
      else entry :: putObjectIn id v rest

theorem objectValue?_eq (id : ObjectId) (objects : Array (ObjectId × Value)) :
    objectValue? id objects = objectValueIn id objects.toList := by
  rw [objectValue?, objectValueIn, Array.find?_toList]

theorem putObjectIn_eq_match (id : ObjectId) (v : Value) (l : List (ObjectId × Value)) :
    putObjectIn id v l =
      match l.findIdx? fun entry => entry.1 == id with
      | some i => if v.isNil then l.eraseIdx i else l.set i (id, v)
      | none => if v.isNil then l else l ++ [(id, v)] := by
  induction l with
  | nil => rfl
  | cons entry rest ih =>
    rw [putObjectIn, List.findIdx?_cons, ih]
    cases hid : entry.1 == id with
    | true => simp
    | false =>
      cases hv : v.isNil <;> cases rest.findIdx? (fun entry => entry.1 == id) <;> simp

theorem toList_putObject (id : ObjectId) (v : Value) (objects : Array (ObjectId × Value)) :
    (putObject id v objects).toList = putObjectIn id v objects.toList := by
  have hfind : objects.findIdx? (fun entry => entry.1 == id) =
      objects.toList.findIdx? fun entry => entry.1 == id := by
    cases objects
    simp
  rw [putObjectIn_eq_match, putObject, placeOfObject?, hfind]
  cases objects.toList.findIdx? (fun entry => entry.1 == id) <;> cases v.isNil <;> simp

theorem fst_mem_putObjectIn {id : ObjectId} {v : Value} {l : List (ObjectId × Value)}
    {entry : ObjectId × Value} (h : entry ∈ putObjectIn id v l) :
    entry ∈ l ∨ (entry = (id, v) ∧ v.isNil = false) := by
  induction l with
  | nil =>
    rw [putObjectIn] at h
    cases hv : v.isNil <;> simp [hv] at h
    exact Or.inr ⟨h, rfl⟩
  | cons first rest ih =>
    rw [putObjectIn] at h
    split at h
    · cases hv : v.isNil <;> simp only [hv, if_true, Bool.false_eq_true, if_false] at h
      · rcases List.mem_cons.mp h with h | h
        · exact Or.inr ⟨h, rfl⟩
        · exact Or.inl (List.mem_cons_of_mem _ h)
      · exact Or.inl (List.mem_cons_of_mem _ h)
    · rcases List.mem_cons.mp h with h | h
      · exact Or.inl (h ▸ List.mem_cons_self)
      · rcases ih h with h | h
        · exact Or.inl (List.mem_cons_of_mem _ h)
        · exact Or.inr h

theorem putObjectIn_nodup {id : ObjectId} {v : Value} {l : List (ObjectId × Value)}
    (h : (l.map (·.1)).Nodup) : ((putObjectIn id v l).map (·.1)).Nodup := by
  induction l with
  | nil =>
    rw [putObjectIn]
    cases v.isNil <;> simp
  | cons first rest ih =>
    rw [List.map_cons, List.nodup_cons] at h
    rw [putObjectIn]
    split
    · next hid =>
      cases v.isNil
      · simp only [Bool.false_eq_true, if_false, List.map_cons, List.nodup_cons]
        rw [← beq_iff_eq.mp hid]
        exact h
      · exact h.2
    · next hid =>
      rw [List.map_cons, List.nodup_cons]
      refine ⟨?_, ih h.2⟩
      intro hmem
      obtain ⟨entry, hentry, heq⟩ := List.mem_map.mp hmem
      rcases fst_mem_putObjectIn hentry with hrest | ⟨rfl, _⟩
      · exact h.1 (List.mem_map.mpr ⟨entry, hrest, heq⟩)
      · exact hid (beq_iff_eq.mpr heq.symm)

theorem objectValueIn_eq_none {id : ObjectId} {l : List (ObjectId × Value)}
    (h : id ∉ l.map (·.1)) : objectValueIn id l = none := by
  rw [objectValueIn, Option.map_eq_none_iff, List.find?_eq_none]
  intro entry hentry hid
  exact h (List.mem_map.mpr ⟨entry, hentry, beq_iff_eq.mp hid⟩)

theorem objectValueIn_cons (id : ObjectId) (entry : ObjectId × Value)
    (l : List (ObjectId × Value)) :
    objectValueIn id (entry :: l) =
      if entry.1 = id then some entry.2 else objectValueIn id l := by
  rw [objectValueIn, List.find?_cons]
  by_cases h : entry.1 = id
  · simp [h]
  · simp [h, beq_eq_false_iff_ne.mpr h, objectValueIn]

theorem objectValueIn_putObjectIn {l : List (ObjectId × Value)} (h : (l.map (·.1)).Nodup)
    (id j : ObjectId) (v : Value) :
    objectValueIn j (putObjectIn id v l) =
      if id = j then Table.ofValue? v else objectValueIn j l := by
  induction l with
  | nil =>
    rw [putObjectIn, Table.ofValue?]
    cases v.isNil <;> simp [objectValueIn]
  | cons first rest ih =>
    rw [List.map_cons, List.nodup_cons] at h
    rw [putObjectIn, objectValueIn_cons, Table.ofValue?]
    split
    · next hid =>
      have hid : first.1 = id := beq_iff_eq.mp hid
      cases v.isNil with
      | true =>
        simp only [if_true, hid]
        split
        · next hj =>
          subst hj
          rw [← hid]
          exact objectValueIn_eq_none h.1
        · rfl
      | false =>
        simp only [Bool.false_eq_true, if_false, objectValueIn_cons, hid]
        split <;> rfl
    · next hid =>
      have hid : first.1 ≠ id := fun heq => hid (beq_iff_eq.mpr heq)
      rw [objectValueIn_cons, ih h.2, Table.ofValue?]
      by_cases hj : first.1 = j
      · have : id ≠ j := fun heq => hid (hj.trans heq.symm)
        simp [hj, this]
      · simp [hj]

theorem isSome_objectValueIn {id : ObjectId} {l : List (ObjectId × Value)} :
    (objectValueIn id l).isSome = true ↔ id ∈ l.map (·.1) := by
  rw [objectValueIn, Option.isSome_map, List.find?_isSome, List.mem_map]
  simp

theorem mem_of_objectValueIn {id : ObjectId} {v : Value} {l : List (ObjectId × Value)}
    (h : objectValueIn id l = some v) : (id, v) ∈ l := by
  rw [objectValueIn, Option.map_eq_some_iff] at h
  obtain ⟨entry, hfind, rfl⟩ := h
  have hid : entry.1 = id := by simpa using List.find?_some hfind
  rw [← hid]
  exact List.mem_of_find?_eq_some hfind

namespace Table

/-! ## Contents -/

/-- The rules for what the parts of a table store. -/
structure Contents (t : Table) : Prop where
  /-- No string has the value nil. -/
  strings : ∀ (s : String) (v : Value), t.strings[s]? = some v → v ≠ .nil
  /-- The layout of the indices keeps to its rules. -/
  indexed : t.indexed.WellFormed
  /-- No other number has the value nil, and each is kept by the rank of a number that is no
  index. -/
  numbers : ∀ (r : UInt64) (v : Value), t.numbers[r]? = some v → v ≠ .nil ∧ Key.Proper (.number r)
  /-- False does not have the value nil. -/
  atFalse : t.atFalse ≠ some .nil
  /-- True does not have the value nil. -/
  atTrue : t.atTrue ≠ some .nil
  /-- No object has the value nil. -/
  objects : ∀ entry ∈ t.objects.toList, entry.2 ≠ .nil
  /-- No object is stored twice. -/
  distinct : (t.objects.toList.map (·.1)).Nodup

theorem contents_empty : Contents {} where
  strings := by simp
  indexed := by simp [Indexed.WellFormed]
  numbers := by simp
  atFalse := by simp
  atTrue := by simp
  objects := by simp
  distinct := by simp

/-- What a table stores is no nil, and stands at a proper key. -/
theorem Contents.proper {t : Table} (h : t.Contents) {k : Key} {v : Value}
    (hv : t.get? k = some v) : v ≠ .nil ∧ k.Proper := by
  cases k with
  | string s => exact ⟨h.strings s v hv, trivial⟩
  | index i => exact Indexed.proper_of_get? h.indexed hv
  | number r => exact h.numbers r v hv
  | boolean b =>
    refine ⟨?_, trivial⟩
    rintro rfl
    cases b with
    | false => exact h.atFalse hv
    | true => exact h.atTrue hv
  | object id =>
    rw [get?, objectValue?_eq] at hv
    exact ⟨h.objects _ (mem_of_objectValueIn hv), trivial⟩

theorem Contents.get_eq_nil_iff {t : Table} (h : t.Contents) (k : Key) :
    t.get k = .nil ↔ t.get? k = none := by
  rw [get]
  cases hk : t.get? k with
  | none => simp
  | some v => simp [(h.proper hk).1]

/-! ## Writing -/

theorem getElem?_putIn {κ : Type} [Ord κ] [Std.TransOrd κ] [Std.LawfulEqOrd κ] [DecidableEq κ]
    (k l : κ) (v : Value) (entries : TreeMap κ Value) :
    (putIn k v entries)[l]? = if k = l then ofValue? v else entries[l]? := by
  rw [putIn, ofValue?]
  cases v.isNil with
  | true => simp [TreeMap.getElem?_erase]
  | false => simp [TreeMap.getElem?_insert]

/-- A write changes the view at one key. -/
theorem Contents.get?_put {t : Table} (h : t.Contents) (k l : Key) (v : Value) :
    (t.put k v).get? l = if k = l then ofValue? v else t.get? l := by
  cases k with
  | string s =>
    cases l with
    | string s' => simp [put, get?, getElem?_putIn]
    | _ => simp [put, get?]
  | index i =>
    cases l with
    | index j => simp [put, get?, Indexed.get?_put h.indexed]
    | _ => simp [put, get?]
  | number r =>
    cases l with
    | number r' => simp [put, get?, getElem?_putIn]
    | _ => simp [put, get?]
  | boolean b =>
    cases l with
    | boolean b' => cases b <;> cases b' <;> simp [put, get?]
    | _ => cases b <;> simp [put, get?]
  | object id =>
    cases l with
    | object id' =>
      simp [put, get?, objectValue?_eq, toList_putObject, objectValueIn_putObjectIn h.distinct]
    | _ => simp [put, get?]

theorem ofValue?_ne_some_nil (v : Value) : ofValue? v ≠ some .nil :=
  fun h => (ofValue?_eq_some h).2 rfl

theorem Contents.put {t : Table} (h : t.Contents) {k : Key} (hk : k.Proper) (v : Value) :
    (t.put k v).Contents := by
  cases k with
  | string s =>
    refine { h with strings := ?_ }
    intro s' w hw
    rw [Table.put, getElem?_putIn] at hw
    split at hw
    · exact (ofValue?_eq_some hw).2
    · exact h.strings s' w hw
  | index i => exact { h with indexed := Indexed.wellFormed_put h.indexed hk.1 hk.2 v }
  | number r =>
    refine { h with numbers := ?_ }
    intro r' w hw
    rw [Table.put, getElem?_putIn] at hw
    split at hw
    · next hr => exact ⟨(ofValue?_eq_some hw).2, hr ▸ hk⟩
    · exact h.numbers r' w hw
  | boolean b =>
    cases b with
    | false => exact { h with atFalse := ofValue?_ne_some_nil v }
    | true => exact { h with atTrue := ofValue?_ne_some_nil v }
  | object id =>
    refine { h with objects := ?_, distinct := ?_ }
    · intro entry hentry
      rw [Table.put, toList_putObject] at hentry
      rcases fst_mem_putObjectIn hentry with hold | ⟨rfl, hv⟩
      · exact h.objects entry hold
      · rintro rfl
        cases hv
    · rw [Table.put, toList_putObject]
      exact putObjectIn_nodup h.distinct

/-! ## Keys -/

theorem mem_strings {t : Table} {s : String} :
    s ∈ t.strings ↔ (t.get? (.string s)).isSome = true :=
  TreeMap.mem_iff_isSome_getElem?

theorem mem_numbers {t : Table} {r : UInt64} :
    r ∈ t.numbers ↔ (t.get? (.number r)).isSome = true :=
  TreeMap.mem_iff_isSome_getElem?

/-- The keys of a table are those at which the view has a value. -/
theorem Contents.mem_keys {t : Table} (h : t.Contents) (a : Arrangement) (k : Key) :
    k ∈ t.keys a ↔ (t.get? k).isSome = true := by
  cases k with
  | string s => simp [keys, mem_strings, (a.strings_perm _).mem_iff]
  | index i => simp [keys, Indexed.mem_indices h.indexed, get?]
  | number r => simp [keys, mem_numbers, (a.numbers_perm _).mem_iff]
  | boolean b => cases b <;> simp [keys, get?]
  | object id =>
    rw [get?, objectValue?_eq, isSome_objectValueIn]
    simp [keys]

/-- No key is listed twice: each part lists its keys once, and the parts have keys of different
kinds. -/
theorem Contents.keys_nodup {t : Table} (h : t.Contents) (a : Arrangement) :
    (t.keys a).Nodup := by
  have hstrings : ((a.strings t.strings.keys).map Key.string).Nodup :=
    ((a.strings_perm _).nodup_iff.mpr TreeMap.nodup_keys).map fun _ _ hab => Key.string.inj hab
  have hindexed : (t.indexed.indices.map Key.index).Nodup :=
    (Indexed.indices_nodup h.indexed).map fun _ _ hab => Key.index.inj hab
  have hnumbers : ((a.numbers t.numbers.keys).map Key.number).Nodup :=
    ((a.numbers_perm _).nodup_iff.mpr TreeMap.nodup_keys).map fun _ _ hab => Key.number.inj hab
  have hobjects : (t.objects.toList.map fun entry => Key.object entry.1).Nodup := by
    have hmap : (t.objects.toList.map fun entry => Key.object entry.1) =
        (t.objects.toList.map (·.1)).map Key.object := by
      rw [List.map_map]
      rfl
    rw [hmap]
    exact h.distinct.map fun _ _ hab => Key.object.inj hab
  rw [keys]
  cases t.atFalse.isSome <;> cases t.atTrue.isSome <;>
    simp [List.nodup_append', List.disjoint_left, hstrings, hindexed, hnumbers, hobjects]

theorem length_keys (t : Table) (a : Arrangement) : (t.keys a).length = t.size := by
  rw [keys, size]
  simp only [List.length_append, List.length_map, (a.strings_perm _).length_eq,
    (a.numbers_perm _).length_eq, TreeMap.length_keys, Indexed.length_indices, Array.length_toList]
  cases t.atFalse <;> cases t.atTrue <;> simp

/-! ## The greatest numeric key -/

/-- The greatest of a start and of the numbers at some ranks. -/
def greatestOf (start : Double) (ranks : List UInt64) : Double :=
  ranks.foldl (fun best rank => if best.less (.ofRank rank) then .ofRank rank else best) start

theorem greatestOf_spec {ranks : List UInt64} {start : Double} (hs : start.isNaN = false)
    (hr : ∀ r ∈ ranks, Key.Proper (.number r)) :
    (greatestOf start ranks).isNaN = false ∧ start.rank ≤ (greatestOf start ranks).rank ∧
      (∀ r ∈ ranks, r ≤ (greatestOf start ranks).rank) ∧
      (greatestOf start ranks = start ∨
        ∃ r ∈ ranks, greatestOf start ranks = .ofRank r ∧ start.rank < r) := by
  induction ranks generalizing start with
  | nil => exact ⟨hs, UInt64.le_refl _, by simp, Or.inl rfl⟩
  | cons r ranks ih =>
    have hr' : ∀ r ∈ ranks, Key.Proper (.number r) :=
      fun r hmem => hr r (List.mem_cons_of_mem _ hmem)
    have hnan := (Key.ofRank_of_proper (hr r List.mem_cons_self)).2.1
    have hrank : (Double.ofRank r).rank = r := Key.rank_ofRank_of_proper (hr r List.mem_cons_self)
    rw [greatestOf, List.foldl_cons]
    by_cases hlt : start.rank < r
    · have hless : start.less (.ofRank r) = true := by
        rw [Double.less_iff, hrank]
        exact ⟨hs, hnan, hlt⟩
      rw [if_pos hless]
      obtain ⟨h1, h2, h3, h4⟩ := ih hnan hr'
      rw [hrank] at h2 h4
      refine ⟨h1, UInt64.le_trans (UInt64.le_of_lt hlt) h2, ?_, Or.inr ?_⟩
      · intro r' hr'
        rcases List.mem_cons.mp hr' with rfl | hr'
        · exact h2
        · exact h3 r' hr'
      · rcases h4 with h4 | ⟨r', hmem, h4, hlt'⟩
        · exact ⟨r, List.mem_cons_self, h4, hlt⟩
        · exact ⟨r', List.mem_cons_of_mem _ hmem, h4, UInt64.lt_trans hlt hlt'⟩
    · have hless : ¬ start.less (.ofRank r) = true := by
        rw [Double.less_iff, hrank]
        exact fun hall => hlt hall.2.2
      rw [if_neg hless]
      obtain ⟨h1, h2, h3, h4⟩ := ih hs hr'
      refine ⟨h1, h2, ?_, ?_⟩
      · intro r' hr'
        rcases List.mem_cons.mp hr' with rfl | hr'
        · exact UInt64.le_trans (UInt64.not_lt.mp hlt) h2
        · exact h3 r' hr'
      · rcases h4 with h4 | ⟨r', hmem, h4, hlt'⟩
        · exact Or.inl h4
        · exact Or.inr ⟨r', List.mem_cons_of_mem _ hmem, h4, hlt'⟩

theorem greatestKey_eq (t : Table) :
    t.greatestKey = greatestOf (.ofNat t.indexed.greatest) t.numbers.keys :=
  rfl

end Table

end LuaRuntime
