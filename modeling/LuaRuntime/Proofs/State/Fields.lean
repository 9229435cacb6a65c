import LuaRuntime.Proofs.State.Action
import LuaRuntime.Proofs.Table.Contents

/-!
# Fields of tables

A state is read and changed one table at a time.  Changing a table changes no other one, and a new
table is empty, so it reads like a table that is not there.

`State.field` is the view of a state that modules and libraries have: the values of its tables at
strings.  `State.withField` writes a field, and `field_withField` says what is read afterwards.
-/

namespace LuaRuntime

/-! ## Tables -/

namespace State

variable {s : State} {id other : TableId}

theorem table_modifyTable (h : id.index < s.tables.size) (f : Table → Table) :
    (s.modifyTable id f).table id = f (s.table id) := by
  rw [State.table, State.table, State.modifyTable, Array.getElem?_modify, if_pos rfl,
    Array.getElem?_eq_getElem h]
  rfl

theorem table_modifyTable_of_ne (h : other ≠ id) (f : Table → Table) :
    (s.modifyTable id f).table other = s.table other := by
  have hindex : id.index ≠ other.index := by
    intro heq
    cases id
    cases other
    exact h (congrArg TableId.mk heq.symm)
  rw [State.table, State.table, State.modifyTable, Array.getElem?_modify, if_neg hindex]

/-- Changing a table that is not there changes nothing. -/
theorem modifyTable_of_le (h : s.tables.size ≤ id.index) (f : Table → Table) :
    s.modifyTable id f = s := by
  have htables : s.tables.modify id.index f = s.tables := by
    apply Array.ext_getElem?
    intro i
    rw [Array.getElem?_modify]
    split
    · next hi =>
      rw [← hi, Array.getElem?_eq_none h]
      rfl
    · rfl
  rw [modifyTable, htables]

@[simp] theorem size_modifyTable (s : State) (id : TableId) (f : Table → Table) :
    (s.modifyTable id f).tables.size = s.tables.size := Array.size_modify

/-- The state with one more table. -/
def withTable (s : State) (t : Table) : State := { s with tables := s.tables.push t }

@[simp] theorem size_withTable (s : State) (t : Table) :
    (s.withTable t).tables.size = s.tables.size + 1 := Array.size_push t

/-- A new table is empty, as a table that is not there is. -/
theorem table_withTable (s : State) (id : TableId) : (s.withTable {}).table id = s.table id := by
  rw [State.table, State.table, withTable, Array.getElem?_push]
  split
  · next h =>
    rw [h, Array.getElem?_eq_none (Nat.le_refl _)]
    rfl
  · rfl

end State

/-! ## Fields -/

theorem Table.getString_setString (t : Table) (name : String) (v : Value) (n : String) :
    (t.setString name v).getString n = if name = n then v else t.getString n := by
  have hget : (t.setString name v).get? (.string n) =
      if name = n then ofValue? v else t.get? (.string n) := getElem?_putIn name n v t.strings
  rw [getString, get, hget]
  split
  · exact getD_ofValue? v
  · rfl

/-- A write at a string changes no other entry. -/
theorem Table.get_setString_of_ne {t : Table} {name : String} {key : Key} (h : key ≠ .string name)
    (v : Value) : (t.setString name v).get key = t.get key := by
  cases key with
  | string n =>
    show (t.setString name v).getString n = t.getString n
    rw [getString_setString, if_neg]
    rintro rfl
    exact h rfl
  | _ => rfl

namespace State

/-- The value of a table at a string. -/
def field (s : State) (id : TableId) (name : String) : Value := (s.table id).getString name

/-- The state with a value written to a table at a string. -/
def withField (s : State) (id : TableId) (name : String) (v : Value) : State :=
  s.modifyTable id (·.setString name v)

variable {s : State} {id other : TableId} {name n : String} {v : Value}

@[simp] theorem size_withField (s : State) (id : TableId) (name : String) (v : Value) :
    (s.withField id name v).tables.size = s.tables.size := size_modifyTable s id _

@[simp] theorem globals_withField (s : State) (id : TableId) (name : String) (v : Value) :
    (s.withField id name v).globals = s.globals := rfl

theorem field_withField (h : id.index < s.tables.size) :
    (s.withField id name v).field other n =
      if other = id ∧ n = name then v else s.field other n := by
  by_cases hid : other = id
  · subst hid
    rw [field, withField, table_modifyTable h, Table.getString_setString, field]
    simp only [true_and, eq_comm]
  · rw [if_neg fun hboth => hid hboth.1, field, withField, table_modifyTable_of_ne hid, field]

theorem field_withField_self (h : id.index < s.tables.size) :
    (s.withField id name v).field id name = v := by
  rw [field_withField h, if_pos ⟨rfl, rfl⟩]

/-- After a write a field has the value written, or the one it had. -/
theorem field_withField_cases (s : State) (id : TableId) (name : String) (v : Value)
    (other : TableId) (n : String) :
    (s.withField id name v).field other n = v ∨
      (s.withField id name v).field other n = s.field other n := by
  rcases Nat.lt_or_ge id.index s.tables.size with hlt | hge
  · rw [field_withField hlt]
    split
    · exact Or.inl rfl
    · exact Or.inr rfl
  · exact Or.inr (by rw [withField, modifyTable_of_le hge])

/-- A write to a field changes no other one. -/
theorem field_withField_of_ne (h : other ≠ id ∨ n ≠ name) :
    (s.withField id name v).field other n = s.field other n := by
  rcases Nat.lt_or_ge id.index s.tables.size with hlt | hge
  · rw [field_withField hlt, if_neg]
    rintro ⟨hid, hname⟩
    rcases h with h | h
    · exact h hid
    · exact h hname
  · rw [withField, modifyTable_of_le hge]

/-- Writing a field with the value that it has changes no field. -/
theorem field_withField_same (h : s.field id name = v) :
    (s.withField id name v).field other n = s.field other n := by
  rcases Nat.lt_or_ge id.index s.tables.size with hlt | hge
  · rw [field_withField hlt]
    split
    · next heq => rw [heq.1, heq.2, h]
    · rfl
  · rw [withField, modifyTable_of_le hge]

theorem field_withTable (s : State) (id : TableId) (name : String) :
    (s.withTable {}).field id name = s.field id name := by
  rw [field, table_withTable, field]

/-- A table that is not there has no fields. -/
theorem field_of_le (h : s.tables.size ≤ id.index) : s.field id name = .nil := by
  rw [field, State.table, Array.getElem?_eq_none h]
  rfl

end State

/-! ## Reading and writing fields -/

section

variable (s : State) (id : TableId) (name : String) (v : Value)

theorem gives_getField : Gives (getField id name) s (s.field id name) s := rfl

theorem gives_setField : Gives (setField id name v) s ⟨⟩ (s.withField id name v) := rfl

theorem gives_newTable (t : Table) : Gives (newTable t) s ⟨s.tables.size⟩ (s.withTable t) := rfl

theorem gives_getGlobal : Gives (getGlobal name) s (s.field s.globals name) s := rfl

theorem gives_setGlobal : Gives (setGlobal name v) s ⟨⟩ (s.withField s.globals name v) := rfl

end

end LuaRuntime
