import LuaRuntime.Proofs.Library.CheckedSequences

/-!
# The arithmetic of positions is exact

Ten functions of the library count positions and lengths.  Each has a counterpart with checked
arithmetic (`Counting.checked`), which raises an error of the caller's choice where the exact result
of an operation is no integer of 64 bits.  The two agree for every choice of the error, so no
operation overflows, with two exceptions (`Counting.Misses`).  A step of `ipairs` after the greatest
integer panics.  And far below 1, where a table is read at doubles, `ipairs` and `unpack` come to
integers between two doubles, and read at one of these.
-/

namespace LuaRuntime

/-- The functions that count positions and lengths. -/
inductive Counting where
  | select
  | unpack
  | ipairsStep
  | byte
  | sub
  | find
  | firstMatch
  | insert
  | remove
  | toHex

namespace Counting

/-- The function of the library. -/
def builtin : Counting → Builtin
  | .select => .base .select
  | .unpack => .base .unpack
  | .ipairsStep => .base .ipairsStep
  | .byte => .string .byte
  | .sub => .string .sub
  | .find => .string .find
  | .firstMatch => .string .firstMatch
  | .insert => .table .insert
  | .remove => .table .remove
  | .toHex => .bit .toHex

/-- The function with checked arithmetic. -/
def checked (overflow : Error) (args : List Value) : Counting → Action Outcome
  | .select => Checked.select overflow args
  | .unpack => Checked.unpack overflow args
  | .ipairsStep => Checked.ipairsStep overflow args
  | .byte => return results (← Checked.codesOfRange overflow args)
  | .sub => return results [.string (← Checked.subString overflow args)]
  | .find => return results (← Checked.findIn overflow args)
  | .firstMatch => return results (← Checked.matchIn overflow args)
  | .insert => do
      Checked.insertAt overflow args
      return results []
  | .remove => return results (← Checked.removeAt overflow args)
  | .toHex => return results [← Checked.toHex overflow args]

/-- The call adds 1 to the greatest integer, or reads a table at an integer between two doubles. -/
inductive Misses (args : List Value) : Counting → Prop where
  | afterGreatest {id : TableId} :
      Argument.get? args 1 = some (.table id) →
      (Argument.get args 2).toInteger? = some Value.greatestInteger →
      Misses args .ipairsStep
  | rounded {id : TableId} {control : ℤ} :
      Argument.get? args 1 = some (.table id) →
      (Argument.get args 2).toInteger? = some control →
      IsRounded (control + 1) →
      Misses args .ipairsStep
  | roundedInRange {id : TableId} {first last i : ℤ} :
      RangeArguments args id 2 first last →
      last - first < unpackLimit →
      first ≤ i →
      i ≤ last →
      IsRounded i →
      Misses args .unpack

end Counting

section

variable {overflow : Error} {s : State} {args : List Value}

theorem Counting.checked_eq_of_not_misses (call : Invoke) (h : FitsMemory s args) {f : Counting}
    (hmisses : ¬ f.Misses args) :
    f.checked overflow args s = runBuiltin call f.builtin args s := by
  cases f with
  | select =>
    rw [Counting.checked, Checked.select_eq h]
    rfl
  | unpack =>
    exact Checked.unpack_eq h fun id first last hargs hspan i hle hi hrounded =>
      hmisses (.roundedInRange hargs hspan hle hi hrounded)
  | ipairsStep =>
    refine Checked.ipairsStep_eq h fun id control htable hcontrol => ⟨?_, fun hrounded => ?_⟩
    · rintro rfl
      exact hmisses (.afterGreatest htable hcontrol)
    · exact hmisses (.rounded htable hcontrol hrounded)
  | byte =>
    rw [Counting.checked, Checked.codesOfRange_eq h]
    rfl
  | sub =>
    rw [Counting.checked, Checked.subString_eq h]
    simp only [Counting.builtin, runBuiltin, runString, bind_assoc, pure_bind]
  | find =>
    rw [Counting.checked, bind_run, Checked.findIn_eq h, ← bind_run]
    rfl
  | firstMatch =>
    rw [Counting.checked, bind_run, Checked.matchIn_eq h, ← bind_run]
    rfl
  | insert =>
    rw [Counting.checked, bind_run, Checked.insertAt_eq h, ← bind_run]
    simp only [Counting.builtin, runBuiltin, runTable, bind_assoc, pure_bind]
  | remove =>
    rw [Counting.checked, bind_run, Checked.removeAt_eq h, ← bind_run]
    rfl
  | toHex =>
    rw [Counting.checked, Checked.toHex_eq]
    rfl

theorem Counting.checked_of_misses {f : Counting} (hmisses : f.Misses args) :
    f.checked overflow args s = (.error overflow, s) := by
  cases hmisses with
  | afterGreatest htable hcontrol =>
    exact Checked.ipairsStep_of_control htable hcontrol (.inl rfl)
  | rounded htable hcontrol hrounded =>
    exact Checked.ipairsStep_of_control htable hcontrol (.inr hrounded)
  | roundedInRange hargs hspan hle hi hrounded =>
    exact Checked.unpack_of_isRounded hargs hspan hle hi hrounded

end

/-- Every function that counts positions and lengths does so exactly: with checked arithmetic it
gives the same result, leaves the same state or fails with the same error, whatever error stands for
an overflow.  Only the calls that miss fail with checked arithmetic:

* a step of `ipairs` after the greatest integer, which panics;
* a step of `ipairs` to an integer between two doubles, which reads at the nearest of them;
* `unpack` of a range with such an integer, which reads there in the same way. -/
theorem counting_is_exact_unless_it_misses (call : Invoke) (overflow : Error) {s : State}
    {args : List Value} (h : FitsMemory s args) :
    (∀ f : Counting, ¬ f.Misses args →
      f.checked overflow args s = runBuiltin call f.builtin args s) ∧
    (∀ f : Counting, f.Misses args → f.checked overflow args s = (.error overflow, s)) ∧
    (∀ id, Argument.get? args 1 = some (.table id) →
      (Argument.get args 2).toInteger? = some Value.greatestInteger →
      runBuiltin call Counting.ipairsStep.builtin args s = (.error .panic, s)) ∧
    (∀ id control, Argument.get? args 1 = some (.table id) →
      (Argument.get args 2).toInteger? = some control → IsRounded (control + 1) →
      ∃ v, v = (s.table id).rawGet (.ofInt (control + 1)) ∧
        runBuiltin call Counting.ipairsStep.builtin args s =
          (.ok (results (if v.isNil then [.nil] else [.ofInt (control + 1), v])), s)) ∧
    (∀ id first last i, RangeArguments args id 2 first last → last - first < unpackLimit →
      first ≤ i → i ≤ last → IsRounded i →
      ∃ values, runBuiltin call Counting.unpack.builtin args s = (.ok (replacing values), s) ∧
        values[(i - first).toNat]? = some ((s.table id).rawGet (.ofInt i))) := by
  refine ⟨fun f => Counting.checked_eq_of_not_misses call h, fun f => Counting.checked_of_misses,
    ?_, ?_, ?_⟩
  · intro id htable hcontrol
    exact ipairsStep_of_greatest htable hcontrol rfl
  · intro id control htable hcontrol hrounded
    have hread : (s.table id).getInteger (control + 1) =
        (s.table id).rawGet (.ofInt (control + 1)) := if_pos hrounded.1
    have hne : control ≠ Value.greatestInteger := by
      rintro rfl
      exact absurd hrounded.1 (by decide)
    have hrun := ipairsStep_gives (s := s) htable hcontrol hne
    rw [hread] at hrun
    exact ⟨_, rfl, hrun⟩
  · intro id first last i hargs hspan hle hi hrounded
    have hread : (s.table id).getInteger i = (s.table id).rawGet (.ofInt i) := if_pos hrounded.1
    refine ⟨_, unpack_gives hargs (Int.le_trans hle hi) hspan, ?_⟩
    rw [← hread, getElem?_valuesFrom _ _ _ _ (by omega), Int.toNat_of_nonneg (by omega),
      add_sub_cancel]

/-- A table with a value at an integer below which every other integer lies between two doubles. -/
def atDouble : Table := ({} : Table).rawSet (.ofInt (-2 ^ 53)) (.string "x")

/-- A runtime with that table only. -/
def withDouble : State := { State.initial {} .keep 0 with tables := #[atDouble] }

theorem wellFormed_atDouble : atDouble.WellFormed :=
  Table.wellFormed_empty.rawSet (.ofInt (-2 ^ 53)) (.string "x")

/-- The integer before that one is taken for it. -/
theorem rawGet_atDouble : atDouble.rawGet (.ofInt (-2 ^ 53 - 1)) = .string "x" := by
  have hkey : Key.ofValue? (.ofInt (-2 ^ 53)) =
      some (.number (Double.ofInt (-2 ^ 53)).rank) := by decide +kernel
  rw [atDouble, Table.wellFormed_empty.toContents.rawGet_rawSet hkey, if_pos (by decide +kernel)]

/-- Two numbers after a table take little memory. -/
theorem fitsMemory_withDouble (x y : Double)
    (hx : (Double.numberText x).utf8ByteSize + 1 < 2 ^ 63)
    (hy : (Double.numberText y).utf8ByteSize + 1 < 2 ^ 63) :
    FitsMemory withDouble [.table ⟨0⟩, .number x, .number y] where
  count := by
    show 3 + 1 < 2 ^ 63
    decide
  bytes := by
    intro place function text htext
    rcases place with _ | _ | _ | _ | place
    · cases htext
    · cases htext
    · obtain rfl : Double.numberText x = text := Except.ok.inj htext
      exact hx
    · obtain rfl : Double.numberText y = text := Except.ok.inj htext
      exact hy
    · cases htext
  table := by
    rintro _ ⟨⟩
    refine ⟨by decide, wellFormed_atDouble, ?_⟩
    rw [IsLength]
    decide +kernel
  caches := ⟨Cache.sound_empty, Cache.sound_empty⟩

/-- The table, and a range of integers of which the second lies between two doubles. -/
def aroundDouble : List Value := [.table ⟨0⟩, .ofInt (-2 ^ 53 - 2), .ofInt (-2 ^ 53)]

theorem fitsMemory_aroundDouble : FitsMemory withDouble aroundDouble :=
  fitsMemory_withDouble _ _ (by decide +kernel) (by decide +kernel)

theorem rangeArguments_aroundDouble :
    RangeArguments aroundDouble ⟨0⟩ 2 (-2 ^ 53 - 2) (-2 ^ 53) :=
  ⟨rfl, by decide +kernel, by decide +kernel⟩

/-- The counterpart of `table.insert` agrees with it.  That of `unpack` fails at the second integer
of the range, where `unpack` takes the value at the third. -/
theorem aroundDouble_counting_is_exact_unless_it_misses :
    FitsMemory withDouble aroundDouble ∧
      ¬ Counting.Misses aroundDouble .insert ∧
      Counting.checked .stackOverflow aroundDouble .insert withDouble =
        runBuiltin (invoke 0) (.table .insert) aroundDouble withDouble ∧
      Counting.Misses aroundDouble .unpack ∧
      Counting.checked .stackOverflow aroundDouble .unpack withDouble =
        (.error .stackOverflow, withDouble) ∧
      ∃ values, runBuiltin (invoke 0) (.base .unpack) aroundDouble withDouble =
          (.ok (replacing values), withDouble) ∧
        values[1]? = some (.string "x") := by
  have hinsert : ¬ Counting.Misses aroundDouble .insert := by rintro ⟨⟩
  have hrounded : IsRounded (-2 ^ 53 - 1) := by decide +kernel
  have hunpack : Counting.Misses aroundDouble .unpack :=
    .roundedInRange rangeArguments_aroundDouble (by decide) (by decide : _ ≤ -2 ^ 53 - 1)
      (by decide) hrounded
  obtain ⟨hexact, hmisses, -, -, hrange⟩ :=
    counting_is_exact_unless_it_misses (invoke 0) .stackOverflow fitsMemory_aroundDouble
  obtain ⟨values, hrun, hvalue⟩ := hrange _ _ _ (-2 ^ 53 - 1) rangeArguments_aroundDouble
    (by decide) (by decide) (by decide) hrounded
  have hread : (withDouble.table ⟨0⟩).rawGet (.ofInt (-2 ^ 53 - 1)) = .string "x" :=
    rawGet_atDouble
  rw [hread] at hvalue
  exact ⟨fitsMemory_aroundDouble, hinsert, hexact .insert hinsert, hunpack, hmisses .unpack hunpack,
    values, hrun, hvalue⟩

/-- The step after the greatest integer panics, as the integer after it has more than 64 bits. -/
theorem ipairs_panics_after_greatest :
    ∃ (s : State) (args : List Value) (i : ℤ), FitsMemory s args ∧
      Argument.integer args 2 "ipairs" = .ok i ∧ ¬ IsSigned (i + 1) ∧
      runBase (invoke 0) .ipairsStep args s = (.error .panic, s) := by
  have hcontrol : (Argument.get [.table ⟨0⟩, .ofNat (2 ^ 63), .ofNat 0] 2).toInteger? =
      some Value.greatestInteger := by decide +kernel
  exact ⟨withDouble, [.table ⟨0⟩, .ofNat (2 ^ 63), .ofNat 0], Value.greatestInteger,
    fitsMemory_withDouble _ _ (by decide +kernel) (by decide +kernel),
    integer_eq_ok "ipairs" hcontrol, by decide, ipairsStep_of_greatest rfl hcontrol rfl⟩

end LuaRuntime
