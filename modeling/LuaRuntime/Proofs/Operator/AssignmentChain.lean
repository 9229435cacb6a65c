import LuaRuntime.Operator.Index
import LuaRuntime.Proofs.Operator.IndexChain
import LuaRuntime.Proofs.State.Fields
import LuaRuntime.Proofs.Table.FiniteMap

/-!
# The chain of assignment handlers

Writing to a table at a key follows a chain: the table itself, its `__newindex` handler, the handler
of that, and so on.  `Receives` says at which values the chain stops and what is done there, and
`Hands` numbers the values on the chain, none of which stops it but the last.

Whatever the metatables are, a write changes one table at one key, or calls one function, or changes
nothing (`setIndex_writes_one_place`).  A key that cannot be written is refused by the table itself,
before any handler is asked.
-/

namespace LuaRuntime

/-! ## Chains -/

/-- What is done at the value where a chain stops. -/
inductive Reception where
  /-- The table takes the value. -/
  | store (id : TableId)
  /-- The function is called with the value that has it for its handler, the key and what is
  written. -/
  | call (f : FunctionId)
  /-- The value cannot be written to. -/
  | refuse

/-- A chain stops at a value: at a table with a value other than nil at the key, at a table without
a handler, at a handler that is a function, and at another value without a handler. -/
inductive Receives (s : State) (key : Value) : Value → Reception → Prop where
  | present {id : TableId} :
      (s.table id).rawGet key ≠ .nil →
      Receives s key (.table id) (.store id)
  | plain {id : TableId} :
      (s.table id).rawGet key = .nil →
      s.handler? (.table id) .newIndex = none →
      Receives s key (.table id) (.store id)
  | handled {x : Value} {f : FunctionId} :
      (∀ id, x = .table id → (s.table id).rawGet key = .nil) →
      s.handler? x .newIndex = some (.function f) →
      Receives s key x (.call f)
  | unwritable {x : Value} :
      x.kind ≠ .table →
      s.handler? x .newIndex = none →
      Receives s key x .refuse

/-- A value is the one with a number on the chain of another.  The chain goes on from a value to
its handler as long as it does not stop. -/
inductive Hands (s : State) (key : Value) : Value → Nat → Value → Prop where
  | here {x : Value} : Hands s key x 0 x
  | next {x handler y : Value} {i : Nat} :
      (∀ r, ¬ Receives s key x r) →
      s.handler? x .newIndex = some handler →
      Hands s key handler i y →
      Hands s key x (i + 1) y

/-- Carries out what is done at the value where a chain stops. -/
def Reception.outcome (call : Invoke) (x key new : Value) : Reception → Action Unit
  | .store id => rawSet id key new
  | .call f => discard (call f [x, key, new])
  | .refuse => throw (.index x.kind key)

/-! ## One value -/

section

variable {s : State} {key x : Value}

/-- A value without the key hands the write to its handler. -/
theorem writeStep_of_handler {k : Key} (hk : Key.check key = .ok k) {handler : Value}
    (hraw : ∀ id, x = .table id → (s.table id).rawGet key = .nil)
    (h : s.handler? x .newIndex = some handler) : s.writeStep x key = .ofHandler handler := by
  cases x with
  | table id =>
    have hget : (s.table id).get k = .nil := by
      rw [← Table.rawGet_of_key (Table.ofValue?_of_check hk)]
      exact hraw id rfl
    simp [State.writeStep, hk, hget, h, Value.isNil]
  | _ => simp [State.writeStep, h]

/-- The step at a value where the chain stops. -/
def Reception.step (x key : Value) : Reception → WriteStep
  | .store id => .store id
  | .call f => .call (.function f)
  | .refuse => .fail (.index x.kind key)

theorem Receives.writeStep_eq {k : Key} (hk : Key.check key = .ok k) {r : Reception}
    (h : Receives s key x r) : s.writeStep x key = r.step x key := by
  have hraw := fun id => Table.rawGet_of_key (t := s.table id) (Table.ofValue?_of_check hk)
  cases h with
  | present hne =>
    rw [hraw] at hne
    simp [State.writeStep, hk, Value.isNil_eq_false_iff.mpr hne, Reception.step]
  | plain hnil hnone =>
    rw [hraw] at hnil
    simp [State.writeStep, hk, hnil, hnone, Value.isNil, Reception.step]
  | handled hnil hsome => exact writeStep_of_handler hk hnil hsome
  | unwritable hkind hnone =>
    cases x with
    | table id => exact absurd rfl hkind
    | _ => simp [State.writeStep, hnone, Reception.step]

/-- A chain goes on from a value without the key whose handler is no function. -/
theorem not_receives_of_handler {handler : Value}
    (hraw : ∀ id, x = .table id → (s.table id).rawGet key = .nil)
    (h : s.handler? x .newIndex = some handler) (hf : handler.isFunction = false)
    (r : Reception) : ¬ Receives s key x r := by
  intro hr
  cases hr with
  | present hne => exact hne (hraw _ rfl)
  | plain _ hnone =>
    rw [h] at hnone
    cases hnone
  | handled _ hsome =>
    rw [h] at hsome
    cases hsome
    cases hf
  | unwritable _ hnone =>
    rw [h] at hnone
    cases hnone

/-- A value where the chain does not stop has a handler, and the write goes on there. -/
theorem receives_or_hands (x : Value) {k : Key} (hk : Key.check key = .ok k) :
    (∃ r, Receives s key x r) ∨
      ∃ handler, (∀ r, ¬ Receives s key x r) ∧ s.handler? x .newIndex = some handler ∧
        s.writeStep x key = .follow handler := by
  by_cases hraw : ∀ id, x = .table id → (s.table id).rawGet key = .nil
  · cases hh : s.handler? x .newIndex with
    | none =>
      refine Or.inl ?_
      cases x with
      | table id => exact ⟨_, .plain (hraw id rfl) hh⟩
      | _ => exact ⟨_, .unwritable nofun hh⟩
    | some handler =>
      cases hf : handler.isFunction with
      | true =>
        obtain ⟨f, rfl⟩ := Value.isFunction_iff.mp hf
        exact Or.inl ⟨_, .handled hraw hh⟩
      | false =>
        refine Or.inr ⟨handler, not_receives_of_handler hraw hh hf, rfl, ?_⟩
        rw [writeStep_of_handler hk hraw hh, WriteStep.ofHandler, hf]
        rfl
  · obtain ⟨id, hid⟩ := Classical.not_forall.mp hraw
    obtain ⟨rfl, hne⟩ := Classical.not_imp.mp hid
    exact Or.inl ⟨_, .present hne⟩

/-! ## Whole chains -/

variable {new : Value}

theorem setIndexWithin_succ (call : Invoke) (limit : Nat) (s : State) (key new x : Value) :
    setIndexWithin call key new (limit + 1) x s =
      (match s.writeStep x key with
      | .store id => rawSet id key new
      | .call handler => discard (LuaRuntime.call call handler [x, key, new])
      | .follow handler => setIndexWithin call key new limit handler
      | .fail e => throw e : Action Unit) s :=
  rfl

theorem discard_call (call : Invoke) (f : FunctionId) (args : List Value) :
    (discard (LuaRuntime.call call (.function f) args) : Action Unit) = discard (call f args) := by
  funext s
  rw [discard_run, discard_run, LuaRuntime.call, bind_run, callOutcome]
  rcases call f args s with ⟨result, t⟩
  cases result <;> rfl

/-- A chain that stops within the limit does what is done where it stops. -/
theorem Hands.setIndexWithin_eq (call : Invoke) {k : Key} (hk : Key.check key = .ok k)
    {i limit : Nat} {y : Value} {r : Reception} (h : Hands s key x i y) (hr : Receives s key y r)
    (hi : i < limit) : setIndexWithin call key new limit x s = r.outcome call y key new s := by
  induction h generalizing limit with
  | here =>
    obtain ⟨limit, rfl⟩ := Nat.exists_eq_add_one_of_ne_zero (Nat.ne_zero_of_lt hi)
    rw [setIndexWithin_succ, hr.writeStep_eq hk]
    cases r with
    | store id => rfl
    | call f => exact congrFun (discard_call call f _) s
    | refuse => rfl
  | @next x handler y i hno hh _ ih =>
    obtain ⟨limit, rfl⟩ := Nat.exists_eq_add_one_of_ne_zero (Nat.ne_zero_of_lt hi)
    rcases receives_or_hands x hk with ⟨r', hr'⟩ | ⟨handler', -, hh', hstep⟩
    · exact absurd hr' (hno r')
    · rw [hh] at hh'
      cases hh'
      rw [setIndexWithin_succ, hstep]
      exact ih hr (Nat.lt_of_succ_lt_succ hi)

/-- A chain that does not stop within the limit is too long. -/
theorem setIndexWithin_of_long (call : Invoke) {k : Key} (hk : Key.check key = .ok k) :
    ∀ (limit : Nat) (x : Value),
      (∀ i y r, Hands s key x i y → Receives s key y r → limit ≤ i) →
      setIndexWithin call key new limit x s = (.error (.chain .newIndex), s)
  | 0, _, _ => rfl
  | limit + 1, x, h => by
      rcases receives_or_hands x hk with ⟨r, hr⟩ | ⟨handler, hno, hh, hstep⟩
      · exact absurd (h 0 x r .here hr) (Nat.not_succ_le_zero limit)
      · rw [setIndexWithin_succ, hstep]
        refine setIndexWithin_of_long call hk limit handler fun i y r hhands hr => ?_
        exact Nat.le_of_succ_le_succ (h (i + 1) y r (.next hno hh hhands) hr)

end

/-! ## Writing -/

/-- A state differs from another by one raw write to one table: every other table is the same, and
so is the table itself at every key but the one that is written. -/
structure Stored (s : State) (target : TableId) (key new : Value) (t : State) : Prop where
  state_eq : t = s.modifyTable target (·.rawSet key new)
  others : ∀ other, other ≠ target → t.table other = s.table other
  entries : target.index < s.tables.size → (s.table target).WellFormed →
    ∀ l, (t.table target).rawGet l = if key.rawEqual l then new else (s.table target).rawGet l

theorem stored_rawSet (s : State) (target : TableId) {key : Value} {k : Key}
    (hk : Key.check key = .ok k) (new : Value) :
    Stored s target key new (s.modifyTable target (·.rawSet key new)) where
  state_eq := rfl
  others _ hne := State.table_modifyTable_of_ne hne _
  entries hindex hwf l := by
    rw [State.table_modifyTable hindex]
    exact hwf.rawGet_rawSet (Table.ofValue?_of_check hk) new l

theorem gives_rawSet (s : State) (id : TableId) {key : Value} {k : Key}
    (hk : Key.check key = .ok k) (new : Value) :
    Gives (rawSet id key new) s () (s.modifyTable id (·.rawSet key new)) :=
  (gives_modify _ s).bind ((gives_lift hk _).bind (gives_pure _ _))

/-- A key that cannot be written is refused by a table at once. -/
theorem setIndex_of_no_key (call : Invoke) {s : State} (hlimit : 1 ≤ s.limits.indexChain)
    (id : TableId) {key : Value} {e : Error} (hk : Key.check key = .error e) (new : Value) :
    setIndex call (.table id) key new s = (.error e, s) := by
  obtain ⟨limit, hsucc⟩ := Nat.exists_eq_add_one_of_ne_zero (Nat.ne_of_gt hlimit)
  have hrun : setIndex call (.table id) key new s =
    setIndexWithin call key new s.limits.indexChain (.table id) s := rfl
  rw [hrun, hsucc, setIndexWithin_succ, State.writeStep, hk]
  rfl

theorem check_eq_error_of_isNaN {x : Double} (h : x.isNaN = true) :
    Key.check (.number x) = .error .nanKey := by
  rw [Key.check, Key.ofValue?, Key.ofNumber?_eq_none_iff.mpr h]
  rfl

theorem exists_check_eq_ok {key : Value} (hnil : key ≠ .nil)
    (hnan : ∀ x, key = .number x → x.isNaN = false) : ∃ k, Key.check key = .ok k := by
  rw [Key.check]
  cases hk : Key.ofValue? key with
  | some k => exact ⟨k, rfl⟩
  | none =>
    rcases Key.ofValue?_eq_none_iff.mp hk with rfl | ⟨x, rfl, hx⟩
    · exact absurd rfl hnil
    · rw [hnan x rfl] at hx
      cases hx

/-- Writing to a table at nil or at what is no number fails with an error of the key, calls nothing
and changes nothing.  Writing at any other key follows the chain of handlers.  If the chain stops
below the limit, then

* a table takes the value, and no other table and no other key changes, or
* the handler is called once with the value that has it, the key and the value written, or
* the write fails, with an error of the key for nil and of type for any other value, and nothing
  changes.

If it does not, the write fails with an error of type, and nothing changes. -/
theorem setIndex_writes_one_place (s : State) (id : TableId) (key new : Value) :
    (1 ≤ s.limits.indexChain → ∀ call,
      (key = .nil → setIndex call (.table id) key new s = (.error .nilKey, s)) ∧
        ∀ x, key = .number x → x.isNaN = true →
          setIndex call (.table id) key new s = (.error .nanKey, s)) ∧
      (key ≠ .nil → (∀ x, key = .number x → x.isNaN = false) → ∀ call,
        (∀ i y target, Hands s key (.table id) i y → Receives s key y (.store target) →
          i < s.limits.indexChain →
          y = .table target ∧ ∃ t, setIndex call (.table id) key new s = (.ok (), t) ∧
            Stored s target key new t) ∧
        (∀ i y f, Hands s key (.table id) i y → Receives s key y (.call f) →
          i < s.limits.indexChain →
          setIndex call (.table id) key new s =
            match call f [y, key, new] s with
            | (.ok _, t) => (.ok (), t)
            | (.error e, t) => (.error e, t)) ∧
        (∀ i y, Hands s key (.table id) i y → Receives s key y .refuse →
          i < s.limits.indexChain →
          setIndex call (.table id) key new s = (.error (.index y.kind key), s)) ∧
        ((∀ i y r, Hands s key (.table id) i y → Receives s key y r → s.limits.indexChain ≤ i) →
          setIndex call (.table id) key new s = (.error (.chain .newIndex), s))) ∧
      Error.nilKey.class = .key ∧ Error.nanKey.class = .key ∧
      (∀ y : Value, (Error.index y.kind key).class = if y.isNil then .key else .type) ∧
      (Error.chain .newIndex).class = .type := by
  refine ⟨fun hlimit call => ⟨?_, ?_⟩, fun hnil hnan call => ?_, rfl, rfl, ?_, rfl⟩
  · rintro rfl
    exact setIndex_of_no_key call hlimit id rfl new
  · rintro x rfl hx
    exact setIndex_of_no_key call hlimit id (check_eq_error_of_isNaN hx) new
  · obtain ⟨k, hk⟩ := exists_check_eq_ok hnil hnan
    have hstops : ∀ i y r, Hands s key (.table id) i y → Receives s key y r →
        i < s.limits.indexChain →
        setIndex call (.table id) key new s = r.outcome call y key new s :=
      fun i y r hhands hr hi => hhands.setIndexWithin_eq call hk hr hi
    refine ⟨?_, ?_, ?_, setIndexWithin_of_long call hk _ _⟩
    · intro i y target hhands hr hi
      have htarget : y = .table target := by cases hr <;> rfl
      refine ⟨htarget, _, ?_, stored_rawSet s target hk new⟩
      rw [hstops i y _ hhands hr hi]
      exact gives_rawSet s target hk new
    · intro i y f hhands hr hi
      rw [hstops i y _ hhands hr hi]
      rw [Reception.outcome, discard_run]
      rcases call f [y, key, new] s with ⟨result, t⟩
      cases result <;> rfl
    · intro i y hhands hr hi
      rw [hstops i y _ hhands hr hi]
      rfl
  · intro y
    cases y <;> rfl

/-- A state with four tables.  The first hands what it does not have to the third by its metatable,
the second.  The fourth is its own metatable and its own handler. -/
def handingTables : State :=
  { State.initial {} .keep 0 with
    tables := #[
      { metatable := some ⟨1⟩ },
      ({} : Table).setString "__newindex" (.table ⟨2⟩),
      ({} : Table).setString "x" (.boolean true),
      { ({} : Table).setString "__newindex" (.table ⟨3⟩) with metatable := some ⟨3⟩ }] }

theorem handingTables_writes_one_place :
    (∃ t, setIndex (fun _ _ => throw .stackOverflow) (.table ⟨0⟩) (.string "x") .nil
        handingTables = (.ok (), t) ∧ Stored handingTables ⟨2⟩ (.string "x") .nil t) ∧
      setIndex (fun _ _ => throw .stackOverflow) (.table ⟨3⟩) (.string "x") .nil handingTables =
        (.error (.chain .newIndex), handingTables) ∧
      setIndex (fun _ _ => throw .stackOverflow) (.table ⟨0⟩) .nil .nil handingTables =
        (.error .nilKey, handingTables) := by
  have hstep : ∀ (id handler : TableId),
      handingTables.handler? (.table id) .newIndex = some (.table handler) →
      (handingTables.table id).rawGet (.string "x") = .nil →
      ∀ r, ¬ Receives handingTables (.string "x") (.table id) r := by
    intro id handler hh hraw
    exact not_receives_of_handler (fun _ heq => Value.table.inj heq ▸ hraw) hh rfl
  have hhands : Hands handingTables (.string "x") (.table ⟨0⟩) 1 (.table ⟨2⟩) :=
    .next (hstep ⟨0⟩ ⟨2⟩ rfl rfl) rfl .here
  have hstored : Receives handingTables (.string "x") (.table ⟨2⟩) (.store ⟨2⟩) :=
    .present nofun
  have hcycle : ∀ i y r, Hands handingTables (.string "x") (.table ⟨3⟩) i y →
      ¬ Receives handingTables (.string "x") y r := by
    intro i y r h
    generalize hx : Value.table ⟨3⟩ = x at h
    induction h with
    | here =>
      subst hx
      exact hstep ⟨3⟩ ⟨3⟩ rfl rfl r
    | next _ hh _ ih =>
      subst hx
      cases hh
      exact ih rfl
  have hwrites := fun id => (setIndex_writes_one_place handingTables id (.string "x") .nil).2.1
    nofun nofun fun _ _ => throw .stackOverflow
  refine ⟨?_, ?_, ?_⟩
  · exact ((hwrites ⟨0⟩).1 1 _ _ hhands hstored (by decide)).2
  · exact (hwrites ⟨3⟩).2.2.2 fun i y r h hr => absurd hr (hcycle i y r h)
  · exact ((setIndex_writes_one_place handingTables ⟨0⟩ .nil .nil).1 (by decide) _).1 rfl

end LuaRuntime
