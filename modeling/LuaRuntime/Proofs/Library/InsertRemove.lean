import LuaRuntime.Machine
import LuaRuntime.Proofs.State.Fields
import LuaRuntime.Proofs.Table.Shift

/-!
# Inserting into a table and removing from it

`table.insert` and `table.remove` read the length of a table and the position that their arguments
ask for, and change the items if the position is one of the sequence.  `AsksToInsert` and
`AsksToRemove` say which arguments ask for which position, and the run of each function is one
equation: the shifted table, or the same values with an error or without one.

No other table and no other part of the state changes, because the state afterwards is the state
before with one table put in place of the old one.
-/

namespace LuaRuntime

/-! ## One table at a time -/

theorem State.modifyTable_modifyTable (s : State) (id : TableId) (f g : Table → Table) :
    (s.modifyTable id f).modifyTable id g = s.modifyTable id fun t => g (f t) := by
  have htables : (s.tables.modify id.index f).modify id.index g =
      s.tables.modify id.index fun t => g (f t) := by
    apply Array.ext_getElem?
    intro i
    simp only [Array.getElem?_modify]
    split
    · simp [Function.comp_def]
    · rfl
  simp only [modifyTable, htables]

namespace Table

theorem toArray_toArray (t : Table) : t.toArray.toArray = t.toArray := by
  obtain ⟨items, overflow, heq⟩ := Indexed.toArray_eq_array t.indexed
  simp only [toArray, heq]
  rfl

theorem forSequence_toArray (t : Table) : t.toArray.forSequence = t.forSequence := by
  simp only [forSequence, toArray_toArray]

theorem insertItem_toArray (t : Table) (position : Nat) (v : Value) :
    t.toArray.insertItem position v = t.insertItem position v := by
  simp only [insertItem, forSequence_toArray]

theorem removeItem_toArray (t : Table) (position : Nat) :
    t.toArray.removeItem position = t.removeItem position := by
  simp only [removeItem, forSequence_toArray]

end Table

/-! ## The steps -/

section

variable {s : State} {id : TableId} (hid : id.index < s.tables.size)
  (hwf : (s.table id).WellFormed)
include hid hwf

theorem gives_tableItemCount :
    Gives (tableItemCount id) s (s.table id).length (s.modifyTable id Table.toArray) := by
  have htable : (s.modifyTable id Table.toArray).table id = (s.table id).toArray :=
    State.table_modifyTable hid Table.toArray
  refine (gives_modify _ s).bind ((gives_getTable id _).bind ?_)
  rw [htable, hwf.toArray.size_items, hwf.length_toArray]
  exact gives_pure _ _

/-- An insertion after the items were counted. -/
theorem insertItem_run (position : Nat) (v : Value) :
    insertItem id position v (s.modifyTable id Table.toArray) =
      if 1 ≤ position ∧ position ≤ (s.table id).length + 1 then
        (.ok (), s.modifyTable id (·.insertItem position v))
      else
        (.error (.badArgument 2 "insert" .positionOutOfBounds),
          s.modifyTable id Table.forSequence) := by
  have htable : (s.modifyTable id Table.toArray).table id = (s.table id).toArray :=
    State.table_modifyTable hid Table.toArray
  rw [insertItem, bind_run, gives_getTable]
  dsimp only
  rw [htable]
  have hroom : (s.table id).toArray.hasRoomAt position = true ↔
      1 ≤ position ∧ position ≤ (s.table id).length + 1 := by
    rw [hwf.toArray.hasRoomAt_iff, hwf.length_toArray]
  split
  · next h =>
    rw [if_pos (hroom.mp h)]
    show (Except.ok (), (s.modifyTable id Table.toArray).modifyTable id _) = _
    rw [State.modifyTable_modifyTable]
    simp only [Table.insertItem_toArray]
  · next h =>
    rw [if_neg fun hposition => h (hroom.mpr hposition)]
    show (Except.error _, (s.modifyTable id Table.toArray).modifyTable id _) = _
    rw [State.modifyTable_modifyTable]
    simp only [Table.forSequence_toArray]

/-- A removal after the items were counted. -/
theorem removeItem_run {position : Nat} (h1 : 1 ≤ position) :
    removeItem id position (s.modifyTable id Table.toArray) =
      if position ≤ (s.table id).length then
        (.ok ((s.table id).get (.index position)), s.modifyTable id (·.removeItem position))
      else (.ok .nil, s.modifyTable id Table.forSequence) := by
  have htable : (s.modifyTable id Table.toArray).table id = (s.table id).toArray :=
    State.table_modifyTable hid Table.toArray
  rw [removeItem, bind_run, gives_getTable]
  dsimp only
  rw [htable, hwf.toArray.item?_eq h1, hwf.length_toArray, Table.get_toArray]
  split
  · show (Except.ok _, (s.modifyTable id Table.toArray).modifyTable id _) = _
    rw [State.modifyTable_modifyTable]
    simp only [Table.removeItem_toArray]
  · show (Except.ok _, (s.modifyTable id Table.toArray).modifyTable id _) = _
    rw [State.modifyTable_modifyTable]
    simp only [Table.forSequence_toArray]

end

/-! ## What arguments ask for -/

/-- The arguments ask for an insertion of a value into a table at a position: the one after the
length, or the one they name. -/
inductive AsksToInsert (id : TableId) (length : Nat) (v : Value) : List Value → Int → Prop where
  | atEnd : AsksToInsert id length v [.table id, v] (length + 1)
  | atPosition {p : Value} {position : Int} :
      p.toInteger? = some position →
      AsksToInsert id length v [.table id, p, v] position

/-- The arguments ask for a removal from a table at a position: the length, or the one they
name. -/
inductive AsksToRemove (id : TableId) (length : Nat) : List Value → Int → Prop where
  | atEnd {args : List Value} :
      Argument.get? args 1 = some (.table id) →
      Argument.get args 2 = .nil →
      AsksToRemove id length args length
  | atPosition {args : List Value} {position : Int} :
      Argument.get? args 1 = some (.table id) →
      (Argument.get args 2).toInteger? = some position →
      AsksToRemove id length args position

theorem get?_of_toInteger? {args : List Value} {position : Int} {i : Nat}
    (h : (Argument.get args i).toInteger? = some position) :
    Argument.get? args i = some (Argument.get args i) := by
  rw [Argument.get]
  cases hi : Argument.get? args i with
  | some v => rfl
  | none =>
    rw [Argument.get, hi] at h
    cases h

theorem eq_cons_of_get? {args : List Value} {v : Value} (h : Argument.get? args 1 = some v) :
    ∃ rest, args = v :: rest := by
  cases args with
  | nil => cases h
  | cons first rest =>
    cases h
    exact ⟨rest, rfl⟩

theorem integer_eq_ok {args : List Value} {i : Nat} {position : Int} (function : String)
    (h : (Argument.get args i).toInteger? = some position) :
    Argument.integer args i function = .ok position := by
  rw [Argument.integer, get?_of_toInteger? h, Option.bind_some, h]

theorem AsksToRemove.get?_eq {id : TableId} {length : Nat} {args : List Value} {position : Int}
    (h : AsksToRemove id length args position) : Argument.get? args 1 = some (.table id) := by
  cases h <;> assumption

/-- The position that a removal reads from its arguments is the one they ask for. -/
theorem asksToRemove_iff {id : TableId} {length : Nat} {args : List Value} {position : Int}
    (htable : Argument.get? args 1 = some (.table id)) :
    AsksToRemove id length args position ↔
      ∃ named, Argument.optional Argument.integer args 2 "remove" = .ok named ∧
        named.getD length = position := by
  constructor
  · intro h
    cases h with
    | atEnd _ hnil =>
      have hoptional : Argument.optional Argument.integer args 2 "remove" = .ok none := by
        rw [Argument.optional, hnil]
        rfl
      exact ⟨none, hoptional, rfl⟩
    | atPosition _ hposition =>
      have hnil : (Argument.get args 2).isNil = false := by
        cases hvalue : Argument.get args 2 with
        | nil =>
          rw [hvalue] at hposition
          cases hposition
        | _ => rfl
      have hoptional :
          Argument.optional Argument.integer args 2 "remove" = .ok (some position) := by
        rw [Argument.optional, integer_eq_ok "remove" hposition, hnil]
        rfl
      exact ⟨some position, hoptional, rfl⟩
  · rintro ⟨named, hnamed, rfl⟩
    rw [Argument.optional] at hnamed
    split at hnamed
    · next hnil =>
      cases hnamed
      exact .atEnd htable (Table.isNil_eq_true_iff.mp hnil)
    · rw [Argument.integer] at hnamed
      split at hnamed
      · next i hi =>
        cases hnamed
        obtain ⟨v, hv, hinteger⟩ := Option.bind_eq_some_iff.mp hi
        refine .atPosition htable ?_
        rw [Argument.get, hv]
        exact hinteger
      · cases hnamed

/-! ## Runs -/

section

variable {s : State} {id : TableId} (hid : id.index < s.tables.size)
  (hwf : (s.table id).WellFormed)
include hid hwf

theorem insertAt_of_asks {v : Value} {args : List Value} {position : Nat}
    (hasks : AsksToInsert id (s.table id).length v args position) (h1 : 1 ≤ position)
    (h2 : position ≤ (s.table id).length + 1) :
    insertAt args s = (.ok (), s.modifyTable id (·.insertItem position v)) := by
  have hcount := gives_tableItemCount hid hwf
  have hrun := insertItem_run hid hwf position v
  rw [if_pos ⟨h1, h2⟩] at hrun
  generalize hp : (position : Int) = p at hasks
  cases hasks with
  | atEnd =>
    obtain rfl : position = (s.table id).length + 1 := by omega
    have htable : Argument.table [.table id, v] 1 "insert" = .ok id := rfl
    rw [insertAt, bind_run, gives_lift htable s]
    dsimp only
    rw [bind_run, hcount]
    exact hrun
  | @atPosition q _ hq =>
    subst hp
    have htable : Argument.table [.table id, q, v] 1 "insert" = .ok id := rfl
    have hinteger : Argument.integer [.table id, q, v] 2 "insert" = .ok (position : Int) :=
      integer_eq_ok "insert" hq
    rw [insertAt, bind_run, gives_lift htable s]
    dsimp only
    rw [bind_run, hcount]
    dsimp only
    rw [bind_run, gives_lift hinteger]
    dsimp only
    rw [if_neg (by omega), Int.toNat_natCast]
    exact hrun

/-- Arguments that ask for no position of the sequence are refused. -/
theorem insertAt_of_refused {args : List Value}
    (htable : Argument.get? args 1 = some (.table id))
    (hnone : ∀ v position, AsksToInsert id (s.table id).length v args position →
      1 ≤ position → ¬ position ≤ (s.table id).length + 1) :
    ∃ e f, insertAt args s = (.error e, s.modifyTable id f) ∧ e.class = .type ∧
      ∀ (t : Table) k, (f t).get k = t.get k := by
  obtain ⟨rest, rfl⟩ := eq_cons_of_get? htable
  have hcount := gives_tableItemCount hid hwf
  have hargument : Argument.table (.table id :: rest) 1 "insert" = .ok id := rfl
  rw [insertAt, bind_run, gives_lift hargument s]
  dsimp only
  rw [bind_run, hcount]
  match rest with
  | [] => exact ⟨_, _, rfl, rfl, Table.get_toArray⟩
  | [v] => exact absurd (Int.le_refl _) (hnone v _ .atEnd (by omega))
  | [p, v] =>
    dsimp only
    cases hp : p.toInteger? with
    | none =>
      have hinteger : Argument.integer [.table id, p, v] 2 "insert" =
          .error (Argument.mismatch [.table id, p, v] 2 "insert" "number") := by
        simp [Argument.integer, Argument.get?, hp]
      rw [hinteger]
      exact ⟨_, _, rfl, rfl, Table.get_toArray⟩
    | some position =>
      have hinteger : Argument.integer [.table id, p, v] 2 "insert" = .ok position :=
        integer_eq_ok "insert" hp
      rw [bind_run, gives_lift hinteger]
      dsimp only
      split
      · exact ⟨_, _, rfl, rfl, Table.get_toArray⟩
      · next hlow =>
        have hout := hnone v position (.atPosition hp) (by omega)
        rw [insertItem_run hid hwf, if_neg (by omega)]
        exact ⟨_, _, rfl, rfl, Table.get_forSequence⟩
  | _ :: _ :: _ :: _ => exact ⟨_, _, rfl, rfl, Table.get_toArray⟩

theorem removeAt_of_asks {args : List Value} {position : Nat}
    (hasks : AsksToRemove id (s.table id).length args position) (h1 : 1 ≤ position)
    (h2 : position ≤ (s.table id).length) :
    removeAt args s =
      (.ok [(s.table id).get (.index position)], s.modifyTable id (·.removeItem position)) := by
  have hrun := removeItem_run hid hwf h1
  rw [if_pos h2] at hrun
  have hargument : Argument.table args 1 "remove" = .ok id := by rw [Argument.table, hasks.get?_eq]
  obtain ⟨named, hnamed, hvalue⟩ := (asksToRemove_iff hasks.get?_eq).mp hasks
  rw [removeAt, bind_run, gives_lift hargument s]
  dsimp only
  rw [bind_run, gives_tableItemCount hid hwf]
  dsimp only
  rw [if_neg (by omega), bind_run, gives_lift hnamed]
  dsimp only
  rw [hvalue, if_neg (by omega), bind_run, Int.toNat_natCast, hrun]
  rfl

/-- Arguments that ask for no item change no value. -/
theorem removeAt_of_refused {args : List Value}
    (htable : Argument.get? args 1 = some (.table id))
    (hnone : ∀ position, AsksToRemove id (s.table id).length args position →
      1 ≤ position → ¬ position ≤ (s.table id).length) :
    ∃ result f, removeAt args s = (result, s.modifyTable id f) ∧
      ∀ (t : Table) k, (f t).get k = t.get k := by
  have hargument : Argument.table args 1 "remove" = .ok id := by rw [Argument.table, htable]
  rw [removeAt, bind_run, gives_lift hargument s]
  dsimp only
  rw [bind_run, gives_tableItemCount hid hwf]
  dsimp only
  split
  · exact ⟨_, _, rfl, Table.get_toArray⟩
  · cases hnamed : Argument.optional Argument.integer args 2 "remove" with
    | error e => exact ⟨_, _, rfl, Table.get_toArray⟩
    | ok named =>
      rw [bind_run, gives_lift rfl]
      dsimp only
      split
      · exact ⟨_, _, rfl, Table.get_toArray⟩
      · next hlow =>
        have hout := hnone _ ((asksToRemove_iff htable).mpr ⟨named, hnamed, rfl⟩) (by omega)
        rw [bind_run, removeItem_run hid hwf (by omega), if_neg (by omega)]
        exact ⟨_, _, rfl, Table.get_forSequence⟩

end

/-- An insertion into a table whose length is below the greatest index, and a removal from it, move
the values between the position and the length by one index, and no others.

* Arguments that ask for a position up to the one after the length insert their value there.
* All other arguments are refused with an error of the class of types, and no key changes.
* Arguments that ask for a position up to the length remove the value there and return it.
* All other arguments change no key, so that nothing is ever removed from an empty sequence.
* After a value was inserted, a removal at its position returns it and gives every key its old
  value back, unless a value was waiting at the index after the next one.

The state afterwards is always the state before with another table `u` in place of this one. -/
theorem insert_and_remove_shift (call : Invoke) {s : State} {id : TableId}
    (hid : id.index < s.tables.size) (hwf : (s.table id).WellFormed)
    (hlength : (s.table id).length < 2 ^ 53 - 1) :
    let t := s.table id
    (∀ v args (position : Nat), AsksToInsert id t.length v args position → 1 ≤ position →
      position ≤ t.length + 1 →
      ∃ u, runTable call .insert args s = (.ok [], s.modifyTable id fun _ => u) ∧
        t.Inserted u position v) ∧
    (∀ args, Argument.get? args 1 = some (.table id) →
      (∀ v position, AsksToInsert id t.length v args position →
        1 ≤ position → ¬ position ≤ t.length + 1) →
      ∃ e u, runTable call .insert args s = (.error e, s.modifyTable id fun _ => u) ∧
        e.class = .type ∧ ∀ k, u.get k = t.get k) ∧
    (∀ args (position : Nat), AsksToRemove id t.length args position → 1 ≤ position →
      position ≤ t.length →
      ∃ u, runTable call .remove args s =
          (.ok [t.get (.index position)], s.modifyTable id fun _ => u) ∧
        t.Removed u position) ∧
    (∀ args, Argument.get? args 1 = some (.table id) →
      (∀ position, AsksToRemove id t.length args position →
        1 ≤ position → ¬ position ≤ t.length) →
      ∃ result u, runTable call .remove args s = (result, s.modifyTable id fun _ => u) ∧
        ∀ k, u.get k = t.get k) ∧
    (∀ v args args' (position : Nat), AsksToInsert id t.length v args position → 1 ≤ position →
      position ≤ t.length + 1 → v ≠ .nil → t.get (.index (t.length + 2)) = .nil →
      AsksToRemove id (t.length + 1) args' position →
      ∃ u w, runTable call .insert args s = (.ok [], s.modifyTable id fun _ => u) ∧
        runTable call .remove args' (s.modifyTable id fun _ => u) =
          (.ok [v], s.modifyTable id fun _ => w) ∧
        ∀ k, w.get k = t.get k) := by
  intro t
  have hinsert : ∀ v args (position : Nat), AsksToInsert id t.length v args position →
      1 ≤ position → position ≤ t.length + 1 → runTable call .insert args s =
        (.ok [], s.modifyTable id fun _ => t.insertItem position v) := by
    intro v args position hasks h1 h2
    rw [runTable, bind_run, insertAt_of_asks hid hwf hasks h1 h2,
      Table.modifyTable_congr s id (f := (·.insertItem position v))
        (g := fun _ => t.insertItem position v) rfl]
    rfl
  refine ⟨?_, ?_, ?_, ?_, ?_⟩
  · intro v args position hasks h1 h2
    exact ⟨_, hinsert v args position hasks h1 h2, hwf.inserted h1 h2 v⟩
  · intro args htable hnone
    obtain ⟨e, f, hrun, hclass, hget⟩ := insertAt_of_refused hid hwf htable hnone
    refine ⟨e, f t, ?_, hclass, hget t⟩
    rw [runTable, bind_run, hrun, Table.modifyTable_congr s id (f := f) (g := fun _ => f t) rfl]
  · intro args position hasks h1 h2
    refine ⟨t.removeItem position, ?_, hwf.removed h1 h2⟩
    rw [runTable, removeAt_of_asks hid hwf hasks h1 h2]
    exact congrArg _ (Table.modifyTable_congr s id rfl)
  · intro args htable hnone
    obtain ⟨result, f, hrun, hget⟩ := removeAt_of_refused hid hwf htable hnone
    refine ⟨result, f t, ?_, hget t⟩
    rw [runTable, hrun]
    exact congrArg _ (Table.modifyTable_congr s id rfl)
  · intro v args args' position hasks h1 h2 hv hgap hasks'
    have hinserted : t.Inserted (t.insertItem position v) position v := hwf.inserted h1 h2 v
    have hwf' : (t.insertItem position v).WellFormed :=
      hwf.insertItem (by rw [hwf.size_items]; omega) (hwf.hasRoomAt_iff.mpr ⟨h1, h2⟩) v
    have hlength' : (t.insertItem position v).length = t.length + 1 :=
      hinserted.length_eq hwf hwf' hv h1 h2 hgap
    -- The removal runs in the state that the insertion leaves.
    have htable : (s.modifyTable id fun _ => t.insertItem position v).table id =
        t.insertItem position v := State.table_modifyTable hid _
    refine ⟨_, _, hinsert v args position hasks h1 h2, ?_,
      hinserted.get_of_removed (hwf'.removed h1 (by omega)) hwf hlength'⟩
    rw [runTable, removeAt_of_asks (by simpa using hid) (by rwa [htable])
      (by rwa [htable, hlength']) h1 (by rw [htable]; omega), htable, hinserted.here,
      State.modifyTable_modifyTable]

/-- Two values in a sequence and, behind a gap, a third one. -/
def gapped : Table :=
  { indexed := .array #[.boolean false, .string "last"]
      (Std.HashMap.emptyWithCapacity.insert 5 (.boolean true)) }

theorem wellFormed_gapped : gapped.WellFormed := by
  refine Table.Contents.wellFormed { Table.contents_empty with indexed := ?_ } rfl rfl
  refine ⟨by simp, by decide, ?_⟩
  intro i v hv
  rw [Std.HashMap.getElem?_insert] at hv
  split at hv
  · next hi =>
    cases hv
    obtain rfl : 5 = i := by simpa using hi
    exact ⟨by simp, by decide, by decide⟩
  · simp at hv

/-- A runtime with that table only. -/
def withGap : State := { State.initial {} .keep 0 with tables := #[gapped] }

/-- A value is inserted between the first two, and removed again. -/
theorem withGap_insert_and_remove_shift :
    ∃ u w, runTable (invoke 0) .insert [.table ⟨0⟩, .ofNat 2, .boolean true] withGap =
        (.ok [], withGap.modifyTable ⟨0⟩ fun _ => u) ∧
      runTable (invoke 0) .remove [.table ⟨0⟩, .ofNat 2] (withGap.modifyTable ⟨0⟩ fun _ => u) =
        (.ok [.boolean true], withGap.modifyTable ⟨0⟩ fun _ => w) ∧
      ∀ k, w.get k = (withGap.table ⟨0⟩).get k := by
  have hlength : (withGap.table ⟨0⟩).length = 2 := rfl
  have hinsert : AsksToInsert ⟨0⟩ (withGap.table ⟨0⟩).length (.boolean true)
      [.table ⟨0⟩, .ofNat 2, .boolean true] (2 : Nat) := .atPosition (by decide +kernel)
  have hremove : AsksToRemove ⟨0⟩ ((withGap.table ⟨0⟩).length + 1) [.table ⟨0⟩, .ofNat 2]
      (2 : Nat) := .atPosition rfl (by decide +kernel)
  have hgap : (withGap.table ⟨0⟩).get (.index ((withGap.table ⟨0⟩).length + 2)) = .nil := by
    rw [hlength]
    show ((Std.HashMap.emptyWithCapacity.insert 5 (.boolean true))[4]?).getD Value.nil = .nil
    rw [Std.HashMap.getElem?_insert]
    simp
  have hid : (⟨0⟩ : TableId).index < withGap.tables.size := by decide
  have hshift := insert_and_remove_shift (invoke 0) hid wellFormed_gapped (by rw [hlength]; decide)
  exact hshift.2.2.2.2 _ _ _ 2 hinsert (by decide) (by rw [hlength]; decide) (by simp) hgap hremove

end LuaRuntime
