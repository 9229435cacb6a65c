import LuaRuntime.Operator.Compare
import LuaRuntime.Proofs.State.Action
import LuaRuntime.Proofs.Table.Contents
import Mathlib.Data.String.Basic
import Mathlib.Order.RelClasses

/-!
# Handlers of comparisons

A handler is asked to compare two values only if both have it (`State.Shares`).  A comparison then
is one call of it with both values, and without it there is no call at all: equality is raw
equality, and order fails.  Order without a shared `__le` is the opposite of the reverse `__lt`,
called as a comparison of the two values in the other order would call it
(`lessEqual_of_shared_less`).

Two values have the same handler if their handlers are raw equal, so the handlers may be zeros of
different signs.  Calling raw equal values comes to the same (`callOutcome_congr`).

Strings are ordered by the codes of their characters, and that order is total.
-/

namespace LuaRuntime

/-! ## Sharing -/

/-- A value is the handler of an event for two values: it is that of the first one, and raw equal to
that of the second. -/
def State.Shares (s : State) (event : Event) (a b handler : Value) : Prop :=
  s.handler? a event = some handler ∧
    ∃ other, s.handler? b event = some other ∧ handler.rawEqual other = true

section

variable {s : State} {event : Event} {a b handler : Value}

theorem sharedHandler?_eq_some_iff :
    s.sharedHandler? a b event = some handler ↔ s.Shares event a b handler := by
  rw [State.sharedHandler?, State.Shares]
  cases s.handler? a event with
  | none => simp
  | some left =>
    cases s.handler? b event with
    | none => simp
    | some right =>
      simp only [Option.some.injEq, exists_eq_left', Option.ite_none_right_eq_some]
      constructor
      · rintro ⟨hequal, rfl⟩
        exact ⟨rfl, hequal⟩
      · rintro ⟨rfl, hequal⟩
        exact ⟨hequal, rfl⟩

theorem sharedHandler?_eq_none_iff :
    s.sharedHandler? a b event = none ↔ ∀ handler, ¬ s.Shares event a b handler := by
  rw [Option.eq_none_iff_forall_ne_some]
  exact forall_congr' fun handler => not_congr sharedHandler?_eq_some_iff

/-- The handler of a value is what its metatable has at the field of the event, unless that is
nil. -/
theorem handler?_eq_some_iff (h : ∀ id, (s.table id).Contents) :
    s.handler? a event = some handler ↔
      handler ≠ .nil ∧ ∃ metatable, s.metatable? a = some metatable ∧
        (s.table metatable).getString event.field = handler := by
  rw [State.handler?, Option.bind_eq_some_iff]
  constructor
  · rintro ⟨metatable, hmetatable, hfield⟩
    have hget : (s.table metatable).getString event.field = handler := by
      rw [Table.getString, Table.get, hfield, Option.getD_some]
    exact ⟨(h metatable).strings _ _ hfield, metatable, hmetatable, hget⟩
  · rintro ⟨hne, metatable, hmetatable, rfl⟩
    refine ⟨metatable, hmetatable, ?_⟩
    obtain ⟨v, hv⟩ := Option.ne_none_iff_exists'.mp fun hnone =>
      hne (((h metatable).get_eq_nil_iff _).mpr hnone)
    rw [hv, Table.getString, Table.get, hv, Option.getD_some]

/-! ## Raw equal values -/

theorem Value.rawEqual_comm (a b : Value) : a.rawEqual b = b.rawEqual a := by
  cases a <;> cases b <;> first | rfl | exact Bool.beq_comm | skip
  next x y => simp only [Value.rawEqual, Double.equal, Bool.and_comm (!x.isNaN), Bool.beq_comm]

/-- Raw equal values are the same unless they are numbers. -/
theorem Value.eq_or_numbers_of_rawEqual {a b : Value} (h : a.rawEqual b = true) :
    a = b ∨ ∃ x y, a = .number x ∧ b = .number y := by
  cases a <;> cases b <;> first | cases h; done | skip
  case nil => exact .inl rfl
  case number x y => exact .inr ⟨x, y, rfl, rfl⟩
  all_goals exact .inl (congrArg _ (eq_of_beq h))

/-- Calling raw equal values comes to the same: no number can be called. -/
theorem callOutcome_congr {f g : Value} (h : f.rawEqual g = true) (call : Invoke)
    (args : List Value) : callOutcome call f args = callOutcome call g args := by
  rcases Value.eq_or_numbers_of_rawEqual h with rfl | ⟨x, y, rfl, rfl⟩
  · rfl
  · rfl

theorem State.Shares.symm (h : s.Shares event a b handler) :
    ∃ other, s.Shares event b a other ∧ handler.rawEqual other = true := by
  obtain ⟨ha, other, hb, hequal⟩ := h
  exact ⟨other, ⟨hb, handler, ha, Value.rawEqual_comm handler other ▸ hequal⟩, hequal⟩

end

/-! ## Comparisons of values -/

/-- Two values are ordered without a handler: they are two numbers or two strings. -/
def Value.OrderedAlone (a b : Value) : Prop :=
  (a.kind = .number ∧ b.kind = .number) ∨ (a.kind = .string ∧ b.kind = .string)

/-- Whether an action ends with a value that counts as true. -/
def truthOf (x : Action Value) : Action Bool := return (← x).isTruthy

section

variable (call : Invoke) {s : State} {a b handler : Value}

theorem lessThan_run (h : ¬ a.OrderedAlone b) :
    lessThan call a b s =
      (match s.sharedHandler? a b .less with
      | some handler => truthOf (callFirst call handler [a, b])
      | none => throw (.compare a.kind b.kind) : Action Bool) s := by
  cases a <;> cases b <;> first | rfl | exact absurd (by simp [Value.OrderedAlone, Value.kind]) h

theorem lessEqual_run (h : ¬ a.OrderedAlone b) :
    lessEqual call a b s =
      (match s.sharedHandler? a b .lessEqual with
      | some handler => truthOf (callFirst call handler [a, b])
      | none =>
          match s.sharedHandler? a b .less with
          | some handler => return !(← callFirst call handler [b, a]).isTruthy
          | none => throw (.compare a.kind b.kind) : Action Bool) s := by
  cases a <;> cases b <;> first | rfl | exact absurd (by simp [Value.OrderedAlone, Value.kind]) h

theorem lessThan_of_shared (h : ¬ a.OrderedAlone b) (hshared : s.Shares .less a b handler) :
    lessThan call a b s = truthOf (callFirst call handler [a, b]) s := by
  rw [lessThan_run call h, sharedHandler?_eq_some_iff.mpr hshared]

theorem lessThan_of_unshared (h : ¬ a.OrderedAlone b)
    (hnone : ∀ handler, ¬ s.Shares .less a b handler) :
    lessThan call a b s = (.error (.compare a.kind b.kind), s) := by
  rw [lessThan_run call h, sharedHandler?_eq_none_iff.mpr hnone]
  rfl

theorem lessEqual_of_shared (h : ¬ a.OrderedAlone b)
    (hshared : s.Shares .lessEqual a b handler) :
    lessEqual call a b s = truthOf (callFirst call handler [a, b]) s := by
  rw [lessEqual_run call h, sharedHandler?_eq_some_iff.mpr hshared]

/-- Without a shared `__le` the comparison is the opposite of the reverse one. -/
theorem lessEqual_of_shared_less (h : ¬ a.OrderedAlone b)
    (hnone : ∀ handler, ¬ s.Shares .lessEqual a b handler) (hless : s.Shares .less a b handler) :
    lessEqual call a b s = ((lessThan call b a s).1.map not, (lessThan call b a s).2) := by
  have hswap : ¬ b.OrderedAlone a := fun hb => h (hb.imp And.symm And.symm)
  -- The reverse comparison takes the handler of the other value, which is called alike.
  obtain ⟨other, hother, hequal⟩ := hless.symm
  have hcall : callFirst call other [b, a] = callFirst call handler [b, a] := by
    rw [callFirst, LuaRuntime.call, ← callOutcome_congr hequal]
    rfl
  rw [lessEqual_run call h, sharedHandler?_eq_none_iff.mpr hnone,
    sharedHandler?_eq_some_iff.mpr hless, lessThan_of_shared call hswap hother, hcall, truthOf]
  simp only [bind_run]
  rcases callFirst call handler [b, a] s with ⟨result, t⟩
  cases result <;> rfl

theorem lessEqual_of_unshared (h : ¬ a.OrderedAlone b)
    (hnone : ∀ handler, ¬ s.Shares .lessEqual a b handler)
    (hless : ∀ handler, ¬ s.Shares .less a b handler) :
    lessEqual call a b s = (.error (.compare a.kind b.kind), s) := by
  rw [lessEqual_run call h, sharedHandler?_eq_none_iff.mpr hnone,
    sharedHandler?_eq_none_iff.mpr hless]
  rfl

/-! ## Equality -/

/-- Two values are distinct tables with a handler of equality in common. -/
structure State.AsksEquality (s : State) (a b handler : Value) : Prop where
  left : a.kind = .table
  right : b.kind = .table
  ne : a ≠ b
  shares : s.Shares .equal a b handler

theorem equals_tables_run {i j : TableId} (hne : i ≠ j) :
    equals call (.table i) (.table j) s =
      (match s.sharedHandler? (.table i) (.table j) .equal with
      | some handler => truthOf (callFirst call handler [.table i, .table j])
      | none => return false : Action Bool) s := by
  have hraw : ¬ (Value.table i).rawEqual (.table j) = true := fun h => hne (eq_of_beq h)
  rw [equals, if_neg hraw]
  rfl

theorem equals_of_asks (h : s.AsksEquality a b handler) :
    equals call a b s = truthOf (callFirst call handler [a, b]) s := by
  obtain ⟨hleft, hright, hne, hshares⟩ := h
  cases a <;> cases hleft
  cases b <;> cases hright
  next i j =>
    rw [equals_tables_run call fun hij => hne (congrArg Value.table hij),
      sharedHandler?_eq_some_iff.mpr hshares]

theorem equals_of_not_asks (h : ∀ handler, ¬ s.AsksEquality a b handler) :
    equals call a b s = (.ok (a.rawEqual b), s) := by
  by_cases hraw : a.rawEqual b = true
  · rw [equals.eq_def, if_pos hraw, hraw]
    rfl
  · rw [Bool.eq_false_iff.mpr hraw]
    by_cases htables : a.kind = .table ∧ b.kind = .table
    · obtain ⟨i, rfl⟩ : ∃ i, a = .table i := by cases a <;> simp_all [Value.kind]
      obtain ⟨j, rfl⟩ : ∃ j, b = .table j := by cases b <;> simp_all [Value.kind]
      have hne : i ≠ j := by
        rintro rfl
        exact hraw (by simp [Value.rawEqual])
      rw [equals_tables_run call hne, sharedHandler?_eq_none_iff.mpr]
      · rfl
      · exact fun handler hshares =>
          h handler ⟨rfl, rfl, fun heq => hne (Value.table.inj heq), hshares⟩
    · rw [equals.eq_def, if_neg hraw]
      split
      · exact absurd ⟨rfl, rfl⟩ htables
      · rfl

end

/-! ## Strings -/

/-- One string is before another in the order of a dictionary, its characters being ordered by their
codes. -/
def CodesBefore (x y : String) : Prop :=
  List.Lex (· < ·) (x.toList.map Char.toNat) (y.toList.map Char.toNat)

theorem lex_toNat_iff (xs ys : List Char) :
    List.Lex (· < ·) (xs.map Char.toNat) (ys.map Char.toNat) ↔ List.Lex (· < ·) xs ys := by
  induction xs generalizing ys with
  | nil => cases ys <;> simp
  | cons x xs ih =>
    cases ys with
    | nil => simp
    | cons y ys =>
      have hlt : x.toNat < y.toNat ↔ x < y := Iff.rfl
      have heq : x.toNat = y.toNat ↔ x = y := Char.toNat_inj
      rw [List.map_cons, List.map_cons, List.cons_lex_cons_iff, List.cons_lex_cons_iff, ih, hlt,
        heq]

theorem codesBefore_iff (x y : String) : CodesBefore x y ↔ x < y := lex_toNat_iff x.toList y.toList

instance (x y : String) : Decidable (CodesBefore x y) :=
  decidable_of_iff (x < y) (codesBefore_iff x y).symm

theorem codesBefore_isStrictTotalOrder : IsStrictTotalOrder String CodesBefore := by
  have hlt : CodesBefore = (· < ·) := funext₂ fun x y => propext (codesBefore_iff x y)
  rw [hlt]
  infer_instance

theorem lessThan_strings (call : Invoke) (s : State) (x y : String) :
    lessThan call (.string x) (.string y) s = (.ok (decide (CodesBefore x y)), s) := by
  rw [decide_eq_decide.mpr (codesBefore_iff x y)]
  rfl

theorem lessEqual_strings (call : Invoke) (s : State) (x y : String) :
    lessEqual call (.string x) (.string y) s = (.ok (decide (CodesBefore x y ∨ x = y)), s) := by
  have hle : (CodesBefore x y ∨ x = y) ↔ ¬ y < x := by
    rw [codesBefore_iff, ← le_iff_lt_or_eq, not_lt]
  rw [decide_eq_decide.mpr hle, decide_not]
  rfl

/-! ## All comparisons -/

/-- How the comparisons of two values use handlers.  A comparison that names no call makes none,
since it is the same for all ways to call functions. -/
structure ComparesByShared (call : Invoke) (s : State) (a b : Value) : Prop where
  less_shared : ¬ a.OrderedAlone b → ∀ handler, s.Shares .less a b handler →
    lessThan call a b s = truthOf (callFirst call handler [a, b]) s
  less_unshared : ¬ a.OrderedAlone b → (∀ handler, ¬ s.Shares .less a b handler) →
    lessThan call a b s = (.error (.compare a.kind b.kind), s)
  lessEqual_shared : ¬ a.OrderedAlone b → ∀ handler, s.Shares .lessEqual a b handler →
    lessEqual call a b s = truthOf (callFirst call handler [a, b]) s
  /-- Derived from the reverse order: the answer is the opposite, and an error and the state are the
  same. -/
  lessEqual_derived : ¬ a.OrderedAlone b → (∀ handler, ¬ s.Shares .lessEqual a b handler) →
    (∃ handler, s.Shares .less a b handler) →
    lessEqual call a b s = ((lessThan call b a s).1.map not, (lessThan call b a s).2)
  lessEqual_unshared : ¬ a.OrderedAlone b → (∀ handler, ¬ s.Shares .lessEqual a b handler) →
    (∀ handler, ¬ s.Shares .less a b handler) →
    lessEqual call a b s = (.error (.compare a.kind b.kind), s)
  equal_shared : ∀ handler, s.AsksEquality a b handler →
    equals call a b s = truthOf (callFirst call handler [a, b]) s
  equal_raw : (∀ handler, ¬ s.AsksEquality a b handler) →
    equals call a b s = (.ok (a.rawEqual b), s)
  strings_less : ∀ x y, a = .string x → b = .string y →
    lessThan call a b s = (.ok (decide (CodesBefore x y)), s)
  strings_lessEqual : ∀ x y, a = .string x → b = .string y →
    lessEqual call a b s = (.ok (decide (CodesBefore x y ∨ x = y)), s)

/-- Two values are compared by a handler only if both have it, and then by one call of it.  A
handler is a field of the metatable that is not nil.  Strings are compared by the codes of their
characters, which is a total order. -/
theorem comparisons_never_mix_handlers :
    (∀ call s a b, ComparesByShared call s a b) ∧
      (∀ (s : State), (∀ id, (s.table id).Contents) → ∀ v event handler,
        s.handler? v event = some handler ↔
          handler ≠ .nil ∧ ∃ metatable, s.metatable? v = some metatable ∧
            (s.table metatable).getString event.field = handler) ∧
      IsStrictTotalOrder String CodesBefore := by
  refine ⟨fun call s a b => ?_, fun s h v event handler => handler?_eq_some_iff h,
    codesBefore_isStrictTotalOrder⟩
  constructor
  case less_shared => exact fun h handler => lessThan_of_shared call h
  case less_unshared => exact lessThan_of_unshared call
  case lessEqual_shared => exact fun h handler => lessEqual_of_shared call h
  case lessEqual_derived =>
    rintro h hnone ⟨handler, hless⟩
    exact lessEqual_of_shared_less call h hnone hless
  case lessEqual_unshared => exact lessEqual_of_unshared call
  case equal_shared => exact fun handler => equals_of_asks call
  case equal_raw => exact equals_of_not_asks call
  case strings_less =>
    rintro x y rfl rfl
    exact lessThan_strings call s x y
  case strings_lessEqual =>
    rintro x y rfl rfl
    exact lessEqual_strings call s x y

/-- Two tables with metatables of their own, which agree on `__lt` and not on `__eq`. -/
def twoKinds : State :=
  { State.initial {} .keep 0 with
    tables := #[
      { metatable := some ⟨2⟩ },
      { metatable := some ⟨3⟩ },
      (({} : Table).setString "__lt" (.function ⟨0⟩)).setString "__eq" (.function ⟨1⟩),
      (({} : Table).setString "__lt" (.function ⟨0⟩)).setString "__eq" (.function ⟨2⟩)] }

/-- Says yes to the first table before the second one, and counts its calls. -/
def countingCalls : Invoke := fun _ args s =>
  (.ok { values := [.boolean (args == [.table ⟨0⟩, .table ⟨1⟩])], substituted := false },
    { s with now := s.now + 1 })

theorem twoKinds_never_mix_handlers :
    twoKinds.Shares .less (.table ⟨0⟩) (.table ⟨1⟩) (.function ⟨0⟩) ∧
      (∀ handler, ¬ twoKinds.Shares .equal (.table ⟨0⟩) (.table ⟨1⟩) handler) ∧
      lessThan countingCalls (.table ⟨0⟩) (.table ⟨1⟩) twoKinds =
        (.ok true, { twoKinds with now := 1 }) ∧
      lessEqual countingCalls (.table ⟨1⟩) (.table ⟨0⟩) twoKinds =
        (.ok false, { twoKinds with now := 1 }) ∧
      equals countingCalls (.table ⟨0⟩) (.table ⟨1⟩) twoKinds = (.ok false, twoKinds) := by
  have hshared : ∀ i j, (i = 0 ∧ j = 1) ∨ (i = 1 ∧ j = 0) →
      twoKinds.Shares .less (.table ⟨i⟩) (.table ⟨j⟩) (.function ⟨0⟩) := by
    rintro i j (⟨rfl, rfl⟩ | ⟨rfl, rfl⟩) <;> exact ⟨rfl, _, rfl, rfl⟩
  have hkind : ∀ i j, ¬ (Value.table i).OrderedAlone (.table j) := by
    rintro i j (⟨h, -⟩ | ⟨h, -⟩) <;> cases h
  have hno_equal : ∀ handler, ¬ twoKinds.Shares .equal (.table ⟨0⟩) (.table ⟨1⟩) handler :=
    sharedHandler?_eq_none_iff.mp rfl
  have hno_lessEqual : ∀ handler, ¬ twoKinds.Shares .lessEqual (.table ⟨1⟩) (.table ⟨0⟩) handler :=
    sharedHandler?_eq_none_iff.mp rfl
  have hfirst := comparisons_never_mix_handlers.1 countingCalls twoKinds (.table ⟨0⟩) (.table ⟨1⟩)
  have hsecond := comparisons_never_mix_handlers.1 countingCalls twoKinds (.table ⟨1⟩) (.table ⟨0⟩)
  have hless := hfirst.less_shared (hkind _ _) _ (hshared 0 1 (.inl ⟨rfl, rfl⟩))
  refine ⟨hshared 0 1 (.inl ⟨rfl, rfl⟩), hno_equal, hless, ?_, ?_⟩
  · rw [hsecond.lessEqual_derived (hkind _ _) hno_lessEqual ⟨_, hshared 1 0 (.inr ⟨rfl, rfl⟩)⟩,
      hless]
    rfl
  · exact hfirst.equal_raw fun handler h => hno_equal handler h.shares

end LuaRuntime
