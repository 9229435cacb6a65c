import LuaRuntime.Operator.Arithmetic
import LuaRuntime.Operator.Compare
import LuaRuntime.Operator.Index
import LuaRuntime.Proofs.Machine.Program

/-!
# Operators as programs

What the state offers, and the operators on values, are programs.  A handler enters a program only
through a call, whatever the event is.
-/

namespace LuaRuntime

/-! ## Tables -/

theorem programmed_getTable (id : TableId) : Programmed fun _ => getTable id :=
  .gets fun _ => rfl

theorem programmed_newTable (t : Table) : Programmed fun _ => newTable t :=
  ⟨.read fun s => .change (.addTable t) (.done (.ok ⟨s.tables.size⟩)), fun _ => rfl⟩

theorem programmed_tableKeys (id : TableId) : Programmed fun _ => tableKeys id :=
  .gets fun _ => rfl

theorem programmed_nextEntry (id : TableId) (key : Value) :
    Programmed fun _ => nextEntry id key := by
  refine .get_bind (fun v => ?_) fun _ _ => rfl
  have hrun (s : State) : updateTable id (·.next v.arrangement key) s =
      (((s.table id).next v.arrangement key).1,
        s.modifyTable id fun _ => ((s.table id).next v.arrangement key).2) := by
    rw [updateTable, bind_run, gives_getTable]
    show (liftM ((s.table id).next v.arrangement key).1 : Action _) _ = _
    cases ((s.table id).next v.arrangement key).1 <;> rfl
  refine .of_edit id (.next v.arrangement key) (fun s => ?_) fun s => ?_
  · rw [hrun]
    exact Table.modifyTable_congr s id rfl
  · rw [hrun, hrun]
    rfl

theorem programmed_getField (id : TableId) (name : String) :
    Programmed fun _ => getField id name :=
  .gets fun _ => rfl

theorem programmed_setField (id : TableId) (name : String) (v : Value) :
    Programmed fun _ => setField id name v :=
  .change (.edit id (.setString name v))

theorem programmed_rawGet (id : TableId) (key : Value) : Programmed fun _ => rawGet id key :=
  .gets fun _ => rfl

theorem programmed_rawSet (id : TableId) (key v : Value) : Programmed fun _ => rawSet id key v :=
  .bind (.change (.edit id (.set key v))) fun _ => .bind (.lift _) fun _ => .pure _

theorem programmed_tableLength (id : TableId) : Programmed fun _ => tableLength id :=
  .bind (.change (.edit id .measure)) fun _ => .gets fun _ => rfl

theorem programmed_tableItemCount (id : TableId) : Programmed fun _ => tableItemCount id :=
  .bind (.change (.edit id .toArray)) fun _ => .gets fun _ => rfl

theorem programmed_tableItems (id : TableId) : Programmed fun _ => tableItems id :=
  .bind (.change (.edit id .items)) fun _ => .gets fun _ => rfl

theorem programmed_insertItem (id : TableId) (position : Nat) (v : Value) :
    Programmed fun _ => insertItem id position v := by
  refine .of_edit id (.insert position v) (Table.Edit.run_snd (.insert position v) id) fun s => ?_
  rw [insertItem, bind_run, bind_run, gives_getTable, gives_getTable]
  show ((if (s.table id).hasRoomAt position then _ else _ : Action Unit) s.visible).1 =
    ((if (s.table id).hasRoomAt position then _ else _ : Action Unit) s).1
  split <;> rfl

theorem programmed_removeItem (id : TableId) (position : Nat) :
    Programmed fun _ => removeItem id position := by
  have hrun (s : State) : removeItem id position s =
      (.ok (((s.table id).item? position).getD .nil),
        s.modifyTable id (Table.Edit.apply (.remove position))) := by
    rw [removeItem, bind_run, gives_getTable]
    dsimp only
    cases hitem : (s.table id).item? position with
    | some item =>
      refine Prod.ext rfl (Table.modifyTable_congr s id ?_)
      rw [Table.Edit.apply, hitem]
      rfl
    | none =>
      refine Prod.ext rfl (Table.modifyTable_congr s id ?_)
      rw [Table.Edit.apply, hitem]
      rfl
  refine .of_edit id (.remove position) (fun s => by rw [hrun]) fun s => ?_
  rw [hrun, hrun]
  rfl

/-! ## Functions, globals and output -/

theorem programmed_newFunction (f : Function) : Programmed fun _ => newFunction f :=
  ⟨.read fun s => .change (.addFunction f) (.done (.ok ⟨s.functions.size⟩)), fun _ => rfl⟩

theorem programmed_setBody (id : FunctionId) (body : Body) : Programmed fun _ => setBody id body :=
  .change (.setBody id body)

theorem programmed_getGlobal (name : String) : Programmed fun _ => getGlobal name :=
  .get_bind (fun s => programmed_getField s.globals name) fun _ _ => rfl

theorem programmed_setGlobal (name : String) (v : Value) :
    Programmed fun _ => setGlobal name v :=
  .get_bind (fun s => programmed_setField s.globals name v) fun _ _ => rfl

theorem programmed_writeOutput (text : String) : Programmed fun _ => writeOutput text := by
  refine .get_bind (fun s => ?_) fun _ _ => rfl
  cases s.sink with
  | keep => exact .change (.write text)
  | closed => exact .ite (.pure _) (.throw _)

/-! ## Calls -/

theorem programmed_handler? (v : Value) (event : Event) : Programmed fun _ => handler? v event :=
  .gets fun _ => rfl

theorem programmed_callOutcome (callee : Value) (args : List Value) :
    Programmed fun invoke => callOutcome invoke callee args := by
  unfold callOutcome
  split
  · exact .call _ _
  · refine .bind (programmed_handler? callee .call) fun handler => ?_
    split
    · exact .call _ _
    · exact .throw _

theorem programmed_call (callee : Value) (args : List Value) :
    Programmed fun invoke => call invoke callee args :=
  .bind (programmed_callOutcome callee args) fun _ => .pure _

theorem programmed_callFirst (callee : Value) (args : List Value) :
    Programmed fun invoke => callFirst invoke callee args :=
  .bind (programmed_call callee args) fun _ => .pure _

theorem programmed_protectedCall (callee : Value) (args : List Value) :
    Programmed fun invoke => protectedCall invoke callee args :=
  .catching (.bind (programmed_call callee args) fun _ => .pure _) fun _ => .pure _

theorem programmed_handledCall (callee handler : Value) (args : List Value) :
    Programmed fun invoke => handledCall invoke callee handler args :=
  .catching (.bind (programmed_call callee args) fun _ => .pure _) fun e =>
    .bind (.catching (programmed_callFirst handler [e.toValue]) fun _ => .pure _) fun _ => .pure _

/-! ## Arithmetic and joining -/

theorem programmed_eitherHandler? (a b : Value) (event : Event) :
    Programmed fun _ => eitherHandler? a b event :=
  .gets fun _ => rfl

theorem programmed_arithmetic (operator : Arithmetic) (a b : Value) :
    Programmed fun invoke => arithmetic invoke operator a b := by
  unfold arithmetic
  split
  · exact .pure _
  · refine .bind (programmed_eitherHandler? a b _) fun handler => ?_
    cases handler with
    | some handler => exact programmed_callFirst handler [a, b]
    | none => exact .throw _

theorem programmed_concat (a b : Value) : Programmed fun invoke => concat invoke a b := by
  unfold concat
  split
  · exact .throw _
  · refine .ite (.pure _) (.bind (programmed_eitherHandler? a b .concat) fun handler => ?_)
    cases handler with
    | some handler => exact programmed_callFirst handler [a, b]
    | none => exact .throw _

/-! ## Equality and order -/

theorem programmed_equals (a b : Value) : Programmed fun invoke => equals invoke a b := by
  unfold equals
  refine .ite (.pure _) ?_
  split
  · refine .get_bind (fun s => ?_) fun _ _ => rfl
    split
    · exact .bind (programmed_callFirst _ _) fun _ => .pure _
    · exact .pure _
  · exact .pure _

theorem programmed_lessThan (a b : Value) : Programmed fun invoke => lessThan invoke a b := by
  unfold lessThan
  split
  · exact .pure _
  · exact .pure _
  · refine .get_bind (fun s => ?_) fun _ _ => rfl
    split
    · exact .bind (programmed_callFirst _ _) fun _ => .pure _
    · exact .throw _

theorem programmed_lessEqual (a b : Value) : Programmed fun invoke => lessEqual invoke a b := by
  unfold lessEqual
  split
  · exact .pure _
  · exact .pure _
  · refine .get_bind (fun s => ?_) fun _ _ => rfl
    split
    · exact .bind (programmed_callFirst _ _) fun _ => .pure _
    · split
      · exact .bind (programmed_callFirst _ _) fun _ => .pure _
      · exact .throw _

/-! ## Indexing, length and text -/

theorem programmed_indexWithin (key : Value) (limit : Nat) (v : Value) :
    Programmed fun invoke => indexWithin invoke key limit v := by
  induction limit generalizing v with
  | zero => exact .throw _
  | succ limit ih =>
    refine .get_bind (fun s => ?_) fun _ _ => rfl
    cases s.readStep v key with
    | found found => exact .pure found
    | call handler => exact programmed_callFirst handler [v, key]
    | follow handler => exact ih handler
    | fail e => exact .throw e

theorem programmed_index (v key : Value) : Programmed fun invoke => index invoke v key :=
  .get_bind (fun s => programmed_indexWithin key s.limits.indexChain v) fun _ _ => rfl

theorem programmed_setIndexWithin (key new : Value) (limit : Nat) (v : Value) :
    Programmed fun invoke => setIndexWithin invoke key new limit v := by
  induction limit generalizing v with
  | zero => exact .throw _
  | succ limit ih =>
    refine .get_bind (fun s => ?_) fun _ _ => rfl
    cases s.writeStep v key with
    | store id => exact programmed_rawSet id key new
    | call handler => exact .discard (programmed_call handler [v, key, new])
    | follow handler => exact ih handler
    | fail e => exact .throw e

theorem programmed_setIndex (v key new : Value) :
    Programmed fun invoke => setIndex invoke v key new :=
  .get_bind (fun s => programmed_setIndexWithin key new s.limits.indexChain v) fun _ _ => rfl

theorem programmed_length (v : Value) : Programmed fun invoke => length invoke v := by
  unfold length
  split
  · exact .pure _
  · refine .bind (programmed_handler? v .length) fun handler => ?_
    cases handler with
    | some handler => exact programmed_callFirst handler [v]
    | none =>
      cases v with
      | table id => exact .bind (programmed_tableLength id) fun _ => .pure _
      | _ => exact .throw _

theorem programmed_toText (v : Value) : Programmed fun invoke => toText invoke v := by
  refine .bind (programmed_handler? v .toText) fun handler => ?_
  cases handler with
  | some handler => exact programmed_callFirst handler [v]
  | none => exact .pure _

theorem programmed_text (v : Value) : Programmed fun invoke => text invoke v :=
  .bind (programmed_toText v) fun _ => .pure _

theorem programmed_callMethod (receiver : Value) (name : String) (args : List Value) :
    Programmed fun invoke => callMethod invoke receiver name args :=
  .bind (programmed_index receiver (.string name)) fun method =>
    .ite (.throw _) (programmed_call method (receiver :: args))

end LuaRuntime
