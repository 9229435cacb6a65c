import LuaRuntime.Operator.Index

/-!
# The chain of index handlers

Reading a value at a key follows a chain: the value itself, its `__index` handler, the handler of
that, and so on.  `Resolves` says where a chain stops and what the reading comes to there, and
`Leads` numbers the values on the chain, none of which resolves but the last.

The metatables may form any graph.  On a cycle no value resolves, so the number of the value that
does is the only thing to compare with the limit: below the limit the reading is what that value
resolves to, and otherwise it is the error of the chain (`index_follows_chain`).
-/

namespace LuaRuntime

/-! ## Chains -/

/-- What reading comes to at the value where a chain stops. -/
inductive Resolution where
  /-- A value. -/
  | value (v : Value)
  /-- A call of a function with the value that has it for its handler, and the key. -/
  | call (handler : Value)
  /-- An error. -/
  | fail (e : Error)

/-- A chain stops at a value: at a table with a value other than nil at the key, at a table
without a handler, at another value without a handler, and at a handler that is a function. -/
inductive Resolves (s : State) (key : Value) : Value → Resolution → Prop where
  | present {id : TableId} :
      (s.table id).rawGet key ≠ .nil →
      Resolves s key (.table id) (.value ((s.table id).rawGet key))
  | absent {id : TableId} :
      (s.table id).rawGet key = .nil →
      s.handler? (.table id) .index = none →
      Resolves s key (.table id) (.value .nil)
  | unreadable {x : Value} :
      x.kind ≠ .table →
      s.handler? x .index = none →
      Resolves s key x (.fail (.index x.kind key))
  | handled {x : Value} {f : FunctionId} :
      (∀ id, x = .table id → (s.table id).rawGet key = .nil) →
      s.handler? x .index = some (.function f) →
      Resolves s key x (.call (.function f))

/-- A value is the one with a number on the chain of another.  The chain goes on from a value to
its handler as long as it does not stop. -/
inductive Leads (s : State) (key : Value) : Value → Nat → Value → Prop where
  | here {x : Value} : Leads s key x 0 x
  | next {x handler y : Value} {i : Nat} :
      (∀ r, ¬ Resolves s key x r) →
      s.handler? x .index = some handler →
      Leads s key handler i y →
      Leads s key x (i + 1) y

/-- Carries out what a chain resolves to at a value. -/
def Resolution.outcome (call : Invoke) (x key : Value) : Resolution → Action Value
  | .value v => pure v
  | .call handler => callFirst call handler [x, key]
  | .fail e => throw e

/-! ## One value -/

theorem Value.isFunction_iff {v : Value} : v.isFunction = true ↔ ∃ f, v = .function f := by
  cases v <;> simp [Value.isFunction]

theorem Value.isNil_eq_false_iff {v : Value} : v.isNil = false ↔ v ≠ .nil := by
  cases v <;> simp [Value.isNil]

section

variable {s : State} {key x : Value}

/-- The step from a handler, if the value itself has no answer. -/
theorem readStep_of_handler {handler : Value}
    (hraw : ∀ id, x = .table id → (s.table id).rawGet key = .nil)
    (h : s.handler? x .index = some handler) : s.readStep x key = .ofHandler handler := by
  cases x with
  | table id => simp [State.readStep, hraw id rfl, h, Value.isNil]
  | _ => simp [State.readStep, h]

theorem readStep_of_resolves {r : Resolution} (h : Resolves s key x r) :
    s.readStep x key =
      match r with
      | .value v => .found v
      | .call handler => .call handler
      | .fail e => .fail e := by
  cases h with
  | present hne => simp [State.readStep, Value.isNil_eq_false_iff.mpr hne]
  | absent hnil hnone => simp [State.readStep, hnil, hnone, Value.isNil]
  | unreadable hkind hnone =>
    cases x with
    | table id => exact absurd rfl hkind
    | _ => simp [State.readStep, hnone]
  | handled hraw hsome => exact readStep_of_handler hraw hsome

/-- A chain goes on from a value without an answer whose handler is no function. -/
theorem not_resolves_of_handler {handler : Value}
    (hraw : ∀ id, x = .table id → (s.table id).rawGet key = .nil)
    (h : s.handler? x .index = some handler) (hf : handler.isFunction = false) (r : Resolution) :
    ¬ Resolves s key x r := by
  intro hr
  cases hr with
  | present hne => exact hne (hraw _ rfl)
  | absent _ hnone =>
    rw [h] at hnone
    cases hnone
  | unreadable _ hnone =>
    rw [h] at hnone
    cases hnone
  | handled _ hsome =>
    rw [h] at hsome
    cases hsome
    cases hf

/-- A value where the chain does not stop has a handler, and the reading goes on there. -/
theorem resolves_or_follows (s : State) (key x : Value) :
    (∃ r, Resolves s key x r) ∨
      ∃ handler, (∀ r, ¬ Resolves s key x r) ∧ s.handler? x .index = some handler ∧
        s.readStep x key = .follow handler := by
  by_cases hraw : ∀ id, x = .table id → (s.table id).rawGet key = .nil
  · cases hh : s.handler? x .index with
    | none =>
      refine Or.inl ?_
      cases x with
      | table id => exact ⟨_, .absent (hraw id rfl) hh⟩
      | _ => exact ⟨_, .unreadable nofun hh⟩
    | some handler =>
      cases hf : handler.isFunction with
      | true =>
        obtain ⟨f, rfl⟩ := Value.isFunction_iff.mp hf
        exact Or.inl ⟨_, .handled hraw hh⟩
      | false =>
        refine Or.inr ⟨handler, not_resolves_of_handler hraw hh hf, rfl, ?_⟩
        rw [readStep_of_handler hraw hh, ReadStep.ofHandler, hf]
        rfl
  · obtain ⟨id, hid⟩ := Classical.not_forall.mp hraw
    obtain ⟨rfl, hne⟩ := Classical.not_imp.mp hid
    exact Or.inl ⟨_, .present hne⟩

theorem indexWithin_succ (call : Invoke) (limit : Nat) (s : State) (key x : Value) :
    indexWithin call key (limit + 1) x s =
      (match s.readStep x key with
      | .found found => pure found
      | .call handler => callFirst call handler [x, key]
      | .follow handler => indexWithin call key limit handler
      | .fail e => throw e : Action Value) s :=
  rfl

theorem indexWithin_of_resolves (call : Invoke) (limit : Nat) {r : Resolution}
    (h : Resolves s key x r) :
    indexWithin call key (limit + 1) x s = r.outcome call x key s := by
  rw [indexWithin_succ, readStep_of_resolves h]
  cases r <;> rfl

theorem indexWithin_of_follows (call : Invoke) (limit : Nat) {handler : Value}
    (h : s.readStep x key = .follow handler) :
    indexWithin call key (limit + 1) x s = indexWithin call key limit handler s := by
  rw [indexWithin_succ, h]

/-! ## Whole chains -/

/-- A chain that stops within the limit gives what it resolves to. -/
theorem Leads.indexWithin_eq (call : Invoke) {i limit : Nat} {y : Value} {r : Resolution}
    (h : Leads s key x i y) (hr : Resolves s key y r) (hi : i < limit) :
    indexWithin call key limit x s = r.outcome call y key s := by
  induction h generalizing limit with
  | here =>
    obtain ⟨limit, rfl⟩ := Nat.exists_eq_add_one_of_ne_zero (Nat.ne_zero_of_lt hi)
    exact indexWithin_of_resolves call limit hr
  | @next x handler y i hno hh _ ih =>
    obtain ⟨limit, rfl⟩ := Nat.exists_eq_add_one_of_ne_zero (Nat.ne_zero_of_lt hi)
    rcases resolves_or_follows s key x with ⟨r', hr'⟩ | ⟨handler', -, hh', hstep⟩
    · exact absurd hr' (hno r')
    · rw [hh] at hh'
      cases hh'
      rw [indexWithin_of_follows call limit hstep]
      exact ih hr (Nat.lt_of_succ_lt_succ hi)

/-- A chain that does not stop within the limit is too long. -/
theorem indexWithin_of_long (call : Invoke) (s : State) (key : Value) :
    ∀ (limit : Nat) (x : Value),
      (∀ i y r, Leads s key x i y → Resolves s key y r → limit ≤ i) →
      indexWithin call key limit x s = (.error (.chain .index), s)
  | 0, _, _ => rfl
  | limit + 1, x, h => by
      rcases resolves_or_follows s key x with ⟨r, hr⟩ | ⟨handler, hno, hh, hstep⟩
      · exact absurd (h 0 x r .here hr) (Nat.not_succ_le_zero limit)
      · rw [indexWithin_of_follows call limit hstep]
        refine indexWithin_of_long call s key limit handler fun i y r hleads hr => ?_
        exact Nat.le_of_succ_le_succ (h (i + 1) y r (.next hno hh hleads) hr)

/-- A chain either stops within a limit or is too long for it. -/
theorem stops_or_long (s : State) (key x : Value) (limit : Nat) :
    (∃ i y r, i < limit ∧ Leads s key x i y ∧ Resolves s key y r) ∨
      ∀ i y r, Leads s key x i y → Resolves s key y r → limit ≤ i := by
  by_cases h : ∃ i y r, i < limit ∧ Leads s key x i y ∧ Resolves s key y r
  · exact Or.inl h
  · exact Or.inr fun i y r hl hr => Nat.not_lt.mp fun hi => h ⟨i, y, r, hi, hl, hr⟩

end

/-! ## Other limits -/

theorem handler?_withLimits (s : State) (limits : Limits) (x : Value) (event : Event) :
    State.handler? { s with limits } x event = s.handler? x event := by
  cases x <;> rfl

theorem Resolves.withLimits {s : State} {key x : Value} {r : Resolution}
    (h : Resolves s key x r) (limits : Limits) : Resolves { s with limits } key x r := by
  cases h with
  | present hne => exact .present hne
  | absent hnil hnone => exact .absent hnil hnone
  | unreadable hkind hnone => exact .unreadable hkind (handler?_withLimits s limits x _ ▸ hnone)
  | handled hraw hsome => exact .handled hraw (handler?_withLimits s limits x _ ▸ hsome)

/-- The limits are no part of a chain. -/
theorem Leads.withLimits {s : State} {key x y : Value} {i : Nat} (h : Leads s key x i y)
    (limits : Limits) : Leads { s with limits } key x i y := by
  induction h with
  | here => exact .here
  | @next x handler y i hno hh _ ih =>
    refine .next (fun r hr => hno r (hr.withLimits s.limits)) ?_ ih
    rw [handler?_withLimits, hh]

/-! ## Reading -/

/-- Reading a value at a key follows the chain of its handlers.  If the chain stops at a value
below the limit, the reading is what it resolves to there, and otherwise the error of the chain,
which is one of type.  A failure at a value that cannot be read is an error of the key for nil
and of type for any other value.  Without a call of a function the state stays as it is.  Then a
higher limit changes no answer but that error. -/
theorem index_follows_chain (call : Invoke) (s : State) (x key : Value) :
    (∀ i y r, Leads s key x i y → Resolves s key y r → i < s.limits.indexChain →
        index call x key s = r.outcome call y key s) ∧
      ((∀ i y r, Leads s key x i y → Resolves s key y r → s.limits.indexChain ≤ i) →
        index call x key s = (.error (.chain .index), s)) ∧
      (Error.chain .index).class = .type ∧
      (∀ y e, Resolves s key y (.fail e) → e.class = if y.isNil then .key else .type) ∧
      ((∀ i y f, Leads s key x i y → i < s.limits.indexChain → ¬ Resolves s key y (.call f)) →
        (index call x key s).2 = s ∧
          ∀ limit, s.limits.indexChain ≤ limit →
            (index call x key s).1 ≠ .error (.chain .index) →
            (index call x key { s with limits := { s.limits with indexChain := limit } }).1 =
              (index call x key s).1) := by
  have hstops : ∀ i y r, Leads s key x i y → Resolves s key y r → i < s.limits.indexChain →
      index call x key s = r.outcome call y key s :=
    fun i y r hleads hr hi => hleads.indexWithin_eq call hr hi
  have hlong : (∀ i y r, Leads s key x i y → Resolves s key y r → s.limits.indexChain ≤ i) →
      index call x key s = (.error (.chain .index), s) := indexWithin_of_long call s key _ x
  refine ⟨hstops, hlong, rfl, ?_, fun hcalls => ?_⟩
  · intro y e hr
    cases hr with
    | unreadable hkind hnone => cases y <;> rfl
  · rcases stops_or_long s key x s.limits.indexChain with ⟨i, y, r, hi, hleads, hr⟩ | hno
    · -- The same value stops the chain under the higher limit.
      have hmore : ∀ limit, s.limits.indexChain ≤ limit →
          index call x key { s with limits := { s.limits with indexChain := limit } } =
            r.outcome call y key { s with limits := { s.limits with indexChain := limit } } :=
        fun limit hle => (hleads.withLimits _).indexWithin_eq call (hr.withLimits _)
          (Nat.lt_of_lt_of_le hi hle)
      rw [hstops i y r hleads hr hi]
      cases r with
      | value v => exact ⟨rfl, fun limit hle _ => by rw [hmore limit hle]; rfl⟩
      | call f => exact absurd hr (hcalls i y f hleads hi)
      | fail e => exact ⟨rfl, fun limit hle _ => by rw [hmore limit hle]; rfl⟩
    · rw [hlong hno]
      exact ⟨rfl, fun limit _ hne => absurd rfl hne⟩

/-- A state with four tables: the first reads through the third by its metatable, the second, and
the fourth is its own metatable and its own handler. -/
def linkedTables : State :=
  { State.initial {} .keep 0 with
    tables := #[
      { metatable := some ⟨1⟩ },
      ({} : Table).setString "__index" (.table ⟨2⟩),
      ({} : Table).setString "x" (.boolean true),
      { ({} : Table).setString "__index" (.table ⟨3⟩) with metatable := some ⟨3⟩ }] }

theorem linkedTables_follows_chain :
    Leads linkedTables (.string "x") (.table ⟨0⟩) 1 (.table ⟨2⟩) ∧
      index (fun _ _ => throw .stackOverflow) (.table ⟨0⟩) (.string "x") linkedTables =
        (.ok (.boolean true), linkedTables) ∧
      index (fun _ _ => throw .stackOverflow) (.table ⟨3⟩) (.string "x") linkedTables =
        (.error (.chain .index), linkedTables) := by
  have hstep : ∀ (id handler : TableId),
      linkedTables.handler? (.table id) .index = some (.table handler) →
      (linkedTables.table id).rawGet (.string "x") = .nil →
      ∀ r, ¬ Resolves linkedTables (.string "x") (.table id) r := by
    intro id handler hh hraw
    exact not_resolves_of_handler (fun _ heq => Value.table.inj heq ▸ hraw) hh rfl
  have hleads : Leads linkedTables (.string "x") (.table ⟨0⟩) 1 (.table ⟨2⟩) :=
    .next (hstep ⟨0⟩ ⟨2⟩ rfl rfl) rfl .here
  have hfound : Resolves linkedTables (.string "x") (.table ⟨2⟩) (.value (.boolean true)) :=
    .present nofun
  have hcycle : ∀ i y r, Leads linkedTables (.string "x") (.table ⟨3⟩) i y →
      ¬ Resolves linkedTables (.string "x") y r := by
    intro i y r h
    generalize hx : Value.table ⟨3⟩ = x at h
    induction h with
    | here =>
      subst hx
      exact hstep ⟨3⟩ ⟨3⟩ rfl rfl r
    | next _ hh _ ih =>
      subst hx
      cases hh
      exact ih rfl
  refine ⟨hleads, ?_, ?_⟩
  · exact (index_follows_chain _ linkedTables (.table ⟨0⟩) (.string "x")).1 1 _ _ hleads hfound
      (by decide)
  · exact (index_follows_chain _ linkedTables (.table ⟨3⟩) (.string "x")).2.1
      fun i y r h hr => absurd hr (hcycle i y r h)

end LuaRuntime
