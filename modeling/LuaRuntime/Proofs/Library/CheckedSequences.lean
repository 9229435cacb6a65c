import LuaRuntime.Proofs.Library.CheckedFunctions
import LuaRuntime.Proofs.Library.InsertRemove
import LuaRuntime.Proofs.Table.Alike

/-!
# Checked insertion and removal

`table.insert` and `table.remove` count items from 1, and the items are stored from zero.  Here they
are written with checked arithmetic: the search for the end of the items, the place of an item, and
the places behind an inserted nil.  All of them are at most two past the number of entries, so that
nothing overflows as long as the entries are held in memory.
-/

namespace LuaRuntime

open Std (HashMap)

namespace Checked

section

variable (overflow : Error)

/-! ## Layouts -/

/-- Moves the entries that continue the items to their end. -/
def absorb : (fuel : ℕ) → Array Value → HashMap ℕ Value →
    Except Error (Array Value × HashMap ℕ Value)
  | 0, items, rest => do
      let _next ← size overflow (items.size + 1)
      return (items, rest)
  | fuel + 1, items, rest => do
      let next ← size overflow (items.size + 1)
      match rest[next]? with
      | some v => absorb fuel (items.push v) (rest.erase next)
      | none => return (items, rest)

/-- Items and overflow as an array layout. -/
def ofParts (items : Array Value) (rest : HashMap ℕ Value) : Except Error Indexed :=
  (absorb overflow rest.size items rest).map fun (items, rest) => .array items rest

/-- The array layout. -/
def toArray : Indexed → Except Error Indexed
  | .array items rest => .ok (.array items rest)
  | .sparse entries => ofParts overflow #[] entries

/-- A map with values written behind a position: the first at the second place after it. -/
def writeBehind (position : ℕ) : (passed : ℕ) → List Value → HashMap ℕ Value →
    Except Error (HashMap ℕ Value)
  | _, [], entries => .ok entries
  | passed, v :: vs, entries => do
      let next ← size overflow (position + 1)
      let place ← size overflow (next + passed)
      writeBehind position (passed + 1) vs
        (if v.isNil then entries.erase place else entries.insert place v)

/-- The entries with a value inserted at a position of the items. -/
def insertInto (position : ℕ) (v : Value) : Indexed → Except Error Indexed
  | .array items rest => do
      let place ← size overflow (position - 1)
      if v.isNil then
        let tail := (items.extract place items.size).toList
        return .array (items.extract 0 place) (← writeBehind overflow position 0 tail rest)
      else ofParts overflow (items.insertIdxIfInBounds place v) rest
  | .sparse entries => .ok (.sparse entries)

/-- The entries without the item at a position. -/
def removeFrom (position : ℕ) : Indexed → Except Error Indexed
  | .array items rest => do
      let place ← size overflow (position - 1)
      return .array (items.eraseIdxIfInBounds place) rest
  | .sparse entries => .ok (.sparse entries)

/-! ## Tables -/

/-- Puts a table into the array layout, and counts its items. -/
def tableItemCount (id : TableId) : Action ℕ := do
  let indexed ← toArray overflow (← getTable id).indexed
  modifyTable id ({ · with indexed := indexed })
  return (← getTable id).items.size

/-- Inserts a value at a position of the items of a table, which must have room there. -/
def insertItem (id : TableId) (position : ℕ) (v : Value) : Action Unit := do
  let t ← getTable id
  let room ← size overflow (t.items.size + 1)
  if 0 < position ∧ position ≤ room then
    let indexed ← insertInto overflow position v t.forSequence.indexed
    modifyTable id fun t => { t.forSequence with indexed := indexed }
  else
    modifyTable id Table.forSequence
    throw (.badArgument 2 "insert" .positionOutOfBounds)

/-- Removes the item at a position of a table, and returns it, nil if there is none. -/
def removeItem (id : TableId) (position : ℕ) : Action Value := do
  let t ← getTable id
  match t.item? position with
  | some item =>
      let indexed ← removeFrom overflow position t.forSequence.indexed
      modifyTable id fun t => { t.forSequence with indexed := indexed }
      return item
  | none =>
      modifyTable id Table.forSequence
      return .nil

/-! ## Functions -/

/-- `table.insert`. -/
def insertAt (args : List Value) : Action Unit := do
  let id ← Argument.table args 1 "insert"
  let count ← tableItemCount overflow id
  match args with
  | [_, v] => insertItem overflow id (← size overflow (count + 1)) v
  | [_, _, v] =>
      let position ← Argument.integer args 2 "insert"
      if position < 1 then throw (.badArgument 2 "insert" .positionOutOfBounds)
      else insertItem overflow id (← size overflow position) v
  | _ => throw (.argumentCount "insert")

/-- `table.remove`. -/
def removeAt (args : List Value) : Action (List Value) := do
  let id ← Argument.table args 1 "remove"
  let count ← tableItemCount overflow id
  if count = 0 then return []
  else
    let named ← Argument.optional Argument.integer args 2 "remove"
    let last ← signed overflow count
    let position := named.getD last
    if position < 1 then return [.nil]
    else return [← removeItem overflow id (← size overflow position)]

end

variable {overflow : Error}

/-! ## Layouts -/

theorem absorb_eq {fuel : ℕ} {items : Array Value} (rest : HashMap ℕ Value)
    (h : items.size + fuel + 1 < 2 ^ 64) :
    absorb overflow fuel items rest = .ok (Indexed.absorb fuel items rest) := by
  induction fuel generalizing items rest with
  | zero =>
    rw [absorb, size_eq (n := items.size + 1) (by omega) (by omega)]
    rfl
  | succ fuel ih =>
    rw [absorb, size_eq (n := items.size + 1) (by omega) (by omega), ok_bind, Indexed.absorb]
    cases rest[items.size + 1]? with
    | none => rfl
    | some v => exact ih _ (by rw [Array.size_push]; omega)

theorem ofParts_eq {items : Array Value} {rest : HashMap ℕ Value}
    (h : items.size + rest.size + 1 < 2 ^ 64) :
    ofParts overflow items rest = .ok (Indexed.ofParts items rest) := by
  rw [ofParts, absorb_eq rest h]
  rfl

theorem toArray_eq {part : Indexed} (h : part.size + 1 < 2 ^ 64) :
    toArray overflow part = .ok part.toArray := by
  cases part with
  | array items rest => rfl
  | sparse entries => exact ofParts_eq (by simpa [Indexed.size] using h)

theorem writeBehind_eq {position passed : ℕ} {vs : List Value} (entries : HashMap ℕ Value)
    (h : position + 1 + passed + vs.length < 2 ^ 64) :
    writeBehind overflow position passed vs entries =
      .ok (Indexed.writeFrom (position + 1 + passed) vs entries) := by
  induction vs generalizing passed entries with
  | nil => rfl
  | cons v vs ih =>
    rw [List.length_cons] at h
    rw [writeBehind, size_eq (n := position + 1) (by omega) (by omega), ok_bind,
      size_eq (n := position + 1 + passed) (by omega) (by omega), ok_bind, ih _ (by omega)]
    rfl

theorem insertInto_eq {position : ℕ} (v : Value) {part : Indexed} (hposition : 1 ≤ position)
    (hroom : position ≤ part.size + 1) (hsize : part.size + 2 < 2 ^ 63) :
    insertInto overflow position v part = .ok (part.insertItem position v) := by
  cases part with
  | sparse entries => rfl
  | array items rest =>
    rw [Indexed.size] at hroom hsize
    rw [insertInto, size_eq (n := position - 1) (by omega) (by omega), ok_bind, Indexed.insertItem]
    split
    · have htail : (items.extract (position - 1) items.size).toList.length ≤ items.size := by
        rw [Array.length_toList, Array.size_extract]
        omega
      dsimp only
      rw [writeBehind_eq rest (by omega), ok_bind]
      rfl
    · refine ofParts_eq ?_
      have hinserted : (items.insertIdxIfInBounds (position - 1) v).size ≤ items.size + 1 := by
        rw [Array.insertIdxIfInBounds]
        split
        · rw [Array.size_insertIdx]
        · omega
      omega

theorem removeFrom_eq {position : ℕ} {part : Indexed} (hposition : 1 ≤ position)
    (hbound : position < 2 ^ 63) :
    removeFrom overflow position part = .ok (part.removeItem position) := by
  cases part with
  | sparse entries => rfl
  | array items rest =>
    rw [removeFrom, size_eq (n := position - 1) (by omega) (by omega), ok_bind]
    rfl

/-! ## Tables -/

variable {s : State} {id : TableId}

/-- A change of a table sees only the table that is there. -/
theorem modifyTable_run_congr {f g : Table → Table} (h : f (s.table id) = g (s.table id)) :
    modifyTable id f s = modifyTable id g s := by
  show (Except.ok PUnit.unit, s.modifyTable id f) = (Except.ok PUnit.unit, s.modifyTable id g)
  rw [Table.modifyTable_congr s id h]

theorem tableItemCount_eq (h : (s.table id).indexed.size + 1 < 2 ^ 64) :
    tableItemCount overflow id s = LuaRuntime.tableItemCount id s := by
  rw [tableItemCount, bind_run, gives_getTable]
  dsimp only
  have hchange : modifyTable id ({ · with indexed := (s.table id).indexed.toArray }) s =
      modifyTable id Table.toArray s := modifyTable_run_congr rfl
  rw [toArray_eq h, lift_ok_bind, LuaRuntime.tableItemCount, bind_run, hchange, bind_run]

theorem insertItem_eq {position : ℕ} (v : Value)
    (h : (s.table id).forSequence.indexed.size + 2 < 2 ^ 63) :
    insertItem overflow id position v s = LuaRuntime.insertItem id position v s := by
  obtain ⟨items, rest, heq⟩ := Indexed.toArray_eq_array (s.table id).indexed
  have hindexed : (s.table id).forSequence.indexed = .array items rest := heq
  have hitems : (s.table id).items.size ≤ (s.table id).forSequence.indexed.size := by
    rw [hindexed, Table.items_eq heq, Indexed.size]
    omega
  have hiff : (s.table id).hasRoomAt position = true ↔
      0 < position ∧ position ≤ (s.table id).items.size + 1 := by
    rw [Table.hasRoomAt, Bool.and_eq_true, decide_eq_true_iff, decide_eq_true_iff]
  rw [insertItem, bind_run, gives_getTable, LuaRuntime.insertItem, bind_run, gives_getTable]
  dsimp only
  rw [size_eq (n := (s.table id).items.size + 1) (by omega) (by omega), lift_ok_bind]
  by_cases hroom : 0 < position ∧ position ≤ (s.table id).items.size + 1
  · rw [if_pos hroom, if_pos (hiff.mpr hroom), insertInto_eq v hroom.1 (by omega) h, lift_ok_bind]
    exact modifyTable_run_congr rfl
  · rw [if_neg hroom, if_neg (mt hiff.mp hroom)]

theorem removeItem_eq {position : ℕ} (h : position < 2 ^ 63) :
    removeItem overflow id position s = LuaRuntime.removeItem id position s := by
  rw [removeItem, bind_run, gives_getTable, LuaRuntime.removeItem, bind_run, gives_getTable]
  dsimp only
  cases hitem : (s.table id).item? position with
  | none => rfl
  | some item =>
    have hposition : 1 ≤ position := by
      cases position with
      | zero => cases hitem
      | succ position => omega
    dsimp only
    have hchange : modifyTable id (fun t => { t.forSequence with
        indexed := (s.table id).forSequence.indexed.removeItem position }) s =
        modifyTable id (·.removeItem position) s := modifyTable_run_congr rfl
    rw [removeFrom_eq hposition h, lift_ok_bind, bind_run, hchange, bind_run]

/-! ## Functions -/

variable {args : List Value}

/-- Counting the items of a table that comes first puts it into the array layout.  The entries at
indices stay within 64 bits. -/
theorem tableItemCount_run (h : FitsMemory s args)
    (hget : Argument.get? args 1 = some (.table id)) :
    tableItemCount overflow id s = (.ok (s.table id).length, s.modifyTable id Table.toArray) ∧
      LuaRuntime.tableItemCount id s =
        (.ok (s.table id).length, s.modifyTable id Table.toArray) ∧
      ((s.modifyTable id Table.toArray).table id).forSequence.indexed.size + 2 < 2 ^ 63 := by
  obtain ⟨hin, hwf, hsize⟩ := h.table hget
  have hcount := gives_tableItemCount hin hwf
  have hindexed : ∀ t : Table, t.indexed.size ≤ t.size := by
    intro t
    rw [Table.size]
    omega
  have hbefore := hindexed (s.table id)
  have hafter := hindexed (s.table id).toArray
  rw [hwf.alike_toArray.size_eq] at hafter
  rw [IsLength] at hsize
  refine ⟨(tableItemCount_eq (by omega)).trans hcount, hcount, ?_⟩
  rw [State.table_modifyTable hin, Table.forSequence_toArray]
  exact Nat.lt_of_le_of_lt (Nat.add_le_add_right hafter 2) hsize

theorem insertAt_eq (h : FitsMemory s args) :
    insertAt overflow args s = LuaRuntime.insertAt args s := by
  refine lift_bind_congr fun id hid => ?_
  have hget := Argument.table_eq_ok_iff.mp hid
  have hitems := h.items hget
  rw [IsLength] at hitems
  obtain ⟨hcount, hcount', hsize⟩ := tableItemCount_run h hget
  rw [bind_run, hcount, bind_run, hcount']
  dsimp only
  obtain _ | ⟨_, _ | ⟨p, _ | ⟨v, _ | ⟨_, _⟩⟩⟩⟩ := args
  · rfl
  · rfl
  · dsimp only
    rw [size_eq (n := (s.table id).length + 1) (by omega) (by omega), lift_ok_bind]
    exact insertItem_eq p hsize
  · refine lift_bind_congr fun position hposition => ?_
    have hmem := isSigned_iff.mp (Argument.integer_mem hposition)
    split
    · rfl
    · rw [size_eq (Int.toNat_of_nonneg (by omega)).symm (by omega), lift_ok_bind]
      exact insertItem_eq v hsize
  · rfl

theorem removeAt_eq (h : FitsMemory s args) :
    removeAt overflow args s = LuaRuntime.removeAt args s := by
  refine lift_bind_congr fun id hid => ?_
  have hget := Argument.table_eq_ok_iff.mp hid
  have hitems := (h.items hget).isSigned
  obtain ⟨hcount, hcount', -⟩ := tableItemCount_run h hget
  rw [bind_run, hcount, bind_run, hcount']
  dsimp only
  split
  · rfl
  · refine lift_bind_congr fun named hnamed => ?_
    have hlast : IsSigned (s.table id).length := by
      rw [isSigned_iff] at *
      omega
    have hmem := isSigned_iff.mp (Argument.optional_integer_mem hnamed hlast)
    rw [signed_eq hlast, lift_ok_bind]
    split
    · rfl
    · rw [size_eq (Int.toNat_of_nonneg (by omega)).symm (by omega), lift_ok_bind, bind_run,
        removeItem_eq (by omega), bind_run]

end Checked

end LuaRuntime
