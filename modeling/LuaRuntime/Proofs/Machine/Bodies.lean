import LuaRuntime.Machine
import LuaRuntime.Proofs.Machine.Library

/-!
# Bodies of functions as programs

A script may nest calls, protected calls and operators in any way, and it is a program too.  So the
body of every function is one (`programmed_runBody`), and the machine only adds what happens at a
call.
-/

namespace LuaRuntime

/-! ## Operations -/

theorem programmed_walkFrom (id : TableId) (count : Nat) (key : Value) :
    Programmed fun _ => walkFrom id count key := by
  induction count generalizing key with
  | zero => exact .pure []
  | succ count ih =>
    refine .bind (programmed_nextEntry id key) fun found => ?_
    split
    · exact .bind (ih _) fun _ => .pure _
    · exact .pure []

theorem programmed_iterateWith (iterator state : Value) (count : Nat) (control : Value) :
    Programmed fun invoke => iterateWith invoke iterator state count control := by
  induction count generalizing control with
  | zero => exact .pure []
  | succ count ih =>
    refine .bind (programmed_call iterator [state, control]) fun found => ?_
    exact .ite (.pure []) (.bind (ih _) fun _ => .pure _)

theorem programmed_iterateTable (id : TableId) :
    Programmed fun invoke => iterateTable invoke id := by
  refine .bind (programmed_getGlobal "pairs") fun pairs => ?_
  refine .bind (programmed_call pairs [.table id]) fun triple => ?_
  exact .bind (programmed_iterateWith _ _ _ _) fun _ => .pure _

theorem programmed_lookupPath (path : String) : Programmed fun _ => lookupPath path := by
  unfold lookupPath
  split
  · exact programmed_getGlobal path
  · refine .bind (programmed_getGlobal _) fun library => ?_
    split
    · exact programmed_getField _ _
    · exact .pure _

theorem programmed_arithmeticOperation (operator : Arithmetic) (vs : List Value) :
    Programmed fun invoke => runOperation invoke (.arithmetic operator) vs := by
  cases operator with
  | negate => exact .bind (programmed_arithmetic .negate _ _) fun _ => .pure _
  | _ => exact .bind (programmed_arithmetic _ _ _) fun _ => .pure _

theorem programmed_runOperation (operation : Operation) (vs : List Value) :
    Programmed fun invoke => runOperation invoke operation vs := by
  have hedit (e : Table.Edit) : Programmed fun _ => do
      modifyTable (← tableOperand (operand₁ vs)) e.apply
      return ([] : List Value) :=
    .bind (.lift _) fun id => .bind (.change (.edit id e)) fun _ => .pure []
  have hread (f : Table → List Value) : Programmed fun _ => do
      return f (← getTable (← tableOperand (operand₁ vs))) :=
    .bind (.lift _) fun id => .bind (programmed_getTable id) fun _ => .pure _
  cases operation with
  | raise => exact .throw _
  | global path => exact .bind (programmed_lookupPath path) fun _ => .pure _
  | call => exact programmed_call _ _
  | callFirst => exact .bind (programmed_callFirst _ _) fun _ => .pure _
  | callOutcome => exact .bind (programmed_callOutcome _ _) fun _ => .pure _
  | method name => exact programmed_callMethod _ name _
  | protectedCall => exact programmed_protectedCall _ _
  | handledCall => exact programmed_handledCall _ _ _
  | arithmetic operator => exact programmed_arithmeticOperation operator vs
  | equal => exact .bind (programmed_equals _ _) fun _ => .pure _
  | less => exact .bind (programmed_lessThan _ _) fun _ => .pure _
  | lessEqual => exact .bind (programmed_lessEqual _ _) fun _ => .pure _
  | concat => exact .bind (programmed_concat _ _) fun _ => .pure _
  | index => exact .bind (programmed_index _ _) fun _ => .pure _
  | setIndex => exact .bind (programmed_setIndex _ _ _) fun _ => .pure _
  | length => exact .bind (programmed_length _) fun _ => .pure _
  | toText => exact .bind (programmed_toText _) fun _ => .pure _
  | text => exact .bind (programmed_text _) fun _ => .pure _
  | shownText => exact .get_bind (fun _ => .pure _) fun _ s => by cases operand₁ vs <;> rfl
  | functionName =>
    unfold runOperation
    dsimp only
    split
    · exact .gets fun _ => rfl
    · exact .pure _
  | parseNumber =>
    unfold runOperation
    dsimp only
    split <;> exact .pure _
  | rawGet => exact .bind (.lift _) fun id => .bind (programmed_rawGet id _) fun _ => .pure _
  | rawSet => exact .bind (.lift _) fun id => .bind (programmed_rawSet id _ _) fun _ => .pure _
  | getString name =>
    exact .bind (.lift _) fun id => .bind (programmed_getField id name) fun _ => .pure _
  | setString name =>
    exact .bind (.lift _) fun id => .bind (programmed_setField id name _) fun _ => .pure _
  | getInteger i => exact hread fun t => [t.getInteger i]
  | rawLength =>
    exact .bind (.lift _) fun id => .bind (programmed_tableLength id) fun _ => .pure _
  | greatestKey => exact hread fun t => [.number t.greatestKey]
  | entryCount => exact hread fun t => [.ofNat t.size]
  | isArray => exact hread fun t => [.boolean t.isArray]
  | toArray => exact hedit .toArray
  | toSparse => exact hedit .toSparse
  | items => exact .bind (.lift _) fun id => programmed_tableItems id
  | insertItem position =>
    exact .bind (.lift _) fun id => .bind (programmed_insertItem id position _) fun _ => .pure _
  | removeItem position =>
    exact .bind (.lift _) fun id => .bind (programmed_removeItem id position) fun _ => .pure _
  | replaceItems => exact hedit (.replace (vs.drop 1))
  | entries =>
    exact .bind (.lift _) fun id => .bind (programmed_getTable id) fun _ =>
      .bind (programmed_tableKeys id) fun _ => .pure _
  | walk =>
    exact .bind (.lift _) fun id => .bind (programmed_getTable id) fun _ =>
      programmed_walkFrom id _ _
  | iterate => exact .bind (.lift _) fun id => programmed_iterateTable id
  | metatable => exact .get_bind (fun _ => .pure _) fun _ s => by cases operand₁ vs <;> rfl
  | setMetatable =>
    exact .bind (.lift _) fun id => .bind (.change (.setMetatable id _)) fun _ => .pure _
  | setGlobal name => exact .bind (programmed_setGlobal name _) fun _ => .pure _
  | setStringMetatable => exact .bind (.change (.setStringMetatable _)) fun _ => .pure _
  | setLoader => exact .bind (.change (.setLoader _)) fun _ => .pure _
  | createModule name => exact .bind (programmed_createModule name vs) fun _ => .pure _
  | require name => exact .bind (programmed_requireModule name) fun _ => .pure _
  | openLibrary chosen => exact .bind (programmed_openChosen chosen) fun _ => .pure _
  | openEcho name => exact .bind (programmed_installLibrary _) fun _ => .pure _
  | check check position function => exact .bind (.lift _) fun _ => .pure _
  | findPattern pattern text offset =>
    unfold runOperation
    dsimp only
    split
    · exact .pure _
    · exact .throw _
  | _ => exact .pure _

/-! ## Expressions -/

theorem programmed_setVariable (name : String) (v : Value) :
    Programmed fun _ => setVariable name v :=
  .change (.setVariable name v)

theorem programmed_forIntegers {action : Invoke → Int → Action (List Value)}
    (haction : ∀ i, Programmed fun invoke => action invoke i) (count : Nat) (first : Int) :
    Programmed fun invoke => forIntegers (action invoke) count first := by
  induction count generalizing first with
  | zero => exact .pure []
  | succ count ih => exact .bind (haction first) fun _ => .bind (ih (first + 1)) fun _ => .pure _

mutual

theorem programmed_eval (args : List Value) (e : Expr) :
    Programmed fun invoke => eval invoke args e := by
  cases e with
  | table positional flat =>
    cases positional with
    | none =>
      simp only [eval]
      refine .bind (programmed_evalOperands args flat) fun flat => .bind (.lift _) fun t => ?_
      exact .bind (programmed_newTable t) fun _ => .pure _
    | some positional =>
      simp only [eval]
      refine .bind (programmed_evalOperands args positional) fun positional => ?_
      refine .bind (programmed_evalOperands args flat) fun flat => .bind (.lift _) fun t => ?_
      exact .bind (programmed_newTable t) fun _ => .pure _
  | array items =>
    simp only [eval]
    exact .bind (programmed_evalOperands args items) fun _ =>
      .bind (programmed_newTable _) fun _ => .pure _
  | function name substitutes body =>
    simp only [eval]
    exact .bind (programmed_newFunction _) fun _ => .pure _
  | read name =>
    simp only [eval]
    exact .gets fun _ => rfl
  | assign name value =>
    simp only [eval]
    exact .bind (programmed_eval args value) fun _ =>
      .bind (programmed_setVariable name _) fun _ => .pure _
  | sequence steps =>
    simp only [eval]
    exact programmed_evalSequence args steps
  | choose condition yes no =>
    cases no with
    | none =>
      simp only [eval]
      exact .bind (programmed_eval args condition) fun _ =>
        .ite (programmed_eval args yes) (.pure [])
    | some no =>
      simp only [eval]
      exact .bind (programmed_eval args condition) fun _ =>
        .ite (programmed_eval args yes) (programmed_eval args no)
  | loop name first last body =>
    simp only [eval]
    refine .bind (programmed_eval args first) fun first => ?_
    refine .bind (programmed_eval args last) fun last => programmed_forIntegers (fun i => ?_) _ _
    exact .bind (programmed_setVariable name (.ofInt i)) fun _ => programmed_eval args body
  | splice e =>
    simp only [eval]
    exact programmed_eval args e
  | apply operation operands =>
    simp only [eval]
    exact .bind (programmed_evalOperands args operands) fun vs =>
      programmed_runOperation operation vs
  | _ =>
    simp only [eval]
    exact .pure _

theorem programmed_evalOperands (args : List Value) (operands : List Expr) :
    Programmed fun invoke => evalOperands invoke args operands := by
  cases operands with
  | nil =>
    simp only [evalOperands]
    exact .pure []
  | cons e rest =>
    simp only [evalOperands]
    exact .bind (programmed_eval args e) fun _ =>
      .bind (programmed_evalOperands args rest) fun _ => .pure _

theorem programmed_evalSequence (args : List Value) (steps : List Expr) :
    Programmed fun invoke => evalSequence invoke args steps := by
  match steps with
  | [] =>
    simp only [evalSequence]
    exact .pure []
  | [e] =>
    simp only [evalSequence]
    exact programmed_eval args e
  | e :: next :: rest =>
    simp only [evalSequence]
    exact .bind (programmed_eval args e) fun _ => programmed_evalSequence args (next :: rest)

end

/-! ## Functions -/

theorem programmed_runBuiltin (f : Builtin) (args : List Value) :
    Programmed fun invoke => runBuiltin invoke f args := by
  cases f with
  | base f => exact programmed_runBase f args
  | string f => exact .bind (programmed_runString f args) fun _ => .pure _
  | table f => exact .bind (programmed_runTable f args) fun _ => .pure _
  | math f => exact .bind (programmed_runMath f args) fun _ => .pure _
  | bit f => exact .bind (.lift _) fun _ => .pure _
  | clock => exact .pure _
  | time => exact .bind (programmed_timeOf Calendar.utc args) fun _ => .pure _
  | timeDifference => exact .bind (.lift _) fun _ => .pure _
  | write => exact .bind (programmed_writeValues args) fun _ => .pure _
  | seeAll => exact .bind (programmed_seeAll args) fun _ => .pure _
  | rawMetatable => exact .bind (programmed_rawMetatable args) fun _ => .pure _
  | setRawMetatable => exact .bind (programmed_setRawMetatable args) fun _ => .pure _
  | echo => exact .pure _
  | unsupported what => exact .throw _

/-- The body of every function is a program. -/
theorem programmed_runBody (self : FunctionId) (args : List Value) (body : Body) :
    Programmed fun invoke => runBody invoke self args body := by
  cases body with
  | builtin f => exact programmed_runBuiltin f args
  | script substitutes steps => exact .bind (programmed_evalSequence args steps) fun _ => .pure _
  | entries table pending => exact programmed_stepEntries self table pending
  | «matches» walk => exact .bind (programmed_stepMatches self walk) fun _ => .pure _

end LuaRuntime
