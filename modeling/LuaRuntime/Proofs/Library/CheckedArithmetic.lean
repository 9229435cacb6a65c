import LuaRuntime.Library.Base
import LuaRuntime.Library.String
import LuaRuntime.Proofs.Library.IntegerReads
import LuaRuntime.Proofs.Number.Words

/-!
# Checked arithmetic on positions

Positions and lengths are integers of 64 bits, with a sign (`signed`) or without (`size`).  Each
operation here asks whether its exact result is such an integer, and raises an error of its own if
it is not.  In the rest of the library the operations are those of all integers, so an operation
that is checked here gives the same result as there exactly if nothing overflows.  An integer below
1 is looked up in a table as a double, and `double` asks whether that is the same integer.

What the checks rest on is that every integer of an argument has 64 bits (`Argument.integer_mem`),
and that lengths stay below the greatest integer.
-/

namespace LuaRuntime

/-! ## Integers of 64 bits -/

/-- An integer has 64 bits with a sign. -/
def IsSigned (i : ℤ) : Prop := Value.leastInteger ≤ i ∧ i ≤ Value.greatestInteger

instance (i : ℤ) : Decidable (IsSigned i) := inferInstanceAs (Decidable (_ ∧ _))

/-- An integer has 64 bits without a sign. -/
def IsSize (i : ℤ) : Prop := 0 ≤ i ∧ i < Value.wordCount

instance (i : ℤ) : Decidable (IsSize i) := inferInstanceAs (Decidable (_ ∧ _))

theorem isSigned_iff {i : ℤ} : IsSigned i ↔ -2 ^ 63 ≤ i ∧ i < 2 ^ 63 := by
  rw [IsSigned, Value.leastInteger, Value.greatestInteger]
  omega

theorem isSize_iff {i : ℤ} : IsSize i ↔ 0 ≤ i ∧ i < 2 ^ 64 := by
  rw [IsSize, Value.wordCount]
  omega

/-- A length of something that is held in memory. -/
def IsLength (n : ℕ) : Prop := n + 1 < 2 ^ 63

theorem IsLength.isSigned {n : ℕ} (h : IsLength n) : IsSigned n := by
  rw [IsLength] at h
  exact isSigned_iff.mpr (by omega)

/-- An integer that a table looks up as another one: below 1, where integers are looked up as
doubles, and between two doubles. -/
def IsRounded (i : ℤ) : Prop := i < 1 ∧ (Double.ofInt i).toInt? ≠ some i

instance (i : ℤ) : Decidable (IsRounded i) := inferInstanceAs (Decidable (_ ∧ _))

theorem IsRounded.lt {i : ℤ} (h : IsRounded i) : i < -2 ^ 53 := by
  by_contra hle
  exact h.2 (Double.toInt?_ofInt (by have := h.1; omega))

theorem Value.toInteger?_mem {v : Value} {i : ℤ} (h : v.toInteger? = some i) : IsSigned i := by
  obtain ⟨j, -, rfl⟩ := Option.map_eq_some_iff.mp h
  exact saturate_mem j

theorem Argument.toInteger?_of_integer {args : List Value} {place : ℕ} {function : String} {i : ℤ}
    (h : Argument.integer args place function = .ok i) :
    (Argument.get args place).toInteger? = some i := by
  rw [Argument.integer] at h
  split at h
  · next j hj =>
    cases h
    obtain ⟨v, hv, hread⟩ := Option.bind_eq_some_iff.mp hj
    rw [Argument.get, hv]
    exact hread
  · cases h

theorem Argument.toInteger?_of_optional {args : List Value} {place : ℕ} {function : String} {i : ℤ}
    (h : Argument.optional Argument.integer args place function = .ok (some i)) :
    (Argument.get args place).toInteger? = some i := by
  rw [Argument.optional] at h
  split at h
  · cases h
  · cases hread : Argument.integer args place function with
    | error e => rw [hread] at h; cases h
    | ok j =>
      rw [hread] at h
      cases h
      exact Argument.toInteger?_of_integer hread

theorem Argument.integer_mem {args : List Value} {place : ℕ} {function : String} {i : ℤ}
    (h : Argument.integer args place function = .ok i) : IsSigned i :=
  Value.toInteger?_mem (Argument.toInteger?_of_integer h)

theorem Argument.optional_integer_mem {args : List Value} {place : ℕ} {function : String}
    {i : Option ℤ} (h : Argument.optional Argument.integer args place function = .ok i)
    {default : ℤ} (hdefault : IsSigned default) : IsSigned (i.getD default) := by
  cases i with
  | none => exact hdefault
  | some j => exact Value.toInteger?_mem (Argument.toInteger?_of_optional h)

namespace Checked

section

variable (overflow : Error)

/-- An integer of 64 bits with a sign. -/
def signed (i : ℤ) : Except Error ℤ := if IsSigned i then .ok i else .error overflow

/-- An integer of 64 bits without a sign. -/
def size (i : ℤ) : Except Error ℕ := if IsSize i then .ok i.toNat else .error overflow

/-- The double that stands for an integer. -/
def double (i : ℤ) : Except Error Double :=
  if (Double.ofInt i).toInt? = some i then .ok (Double.ofInt i) else .error overflow

/-! ## Positions in a text -/

/-- A position counted from the start, given one that may count from the end. -/
def resolve (position length : ℤ) : Except Error ℤ :=
  if position < 0 then do
    let sum ← signed overflow (length + position)
    signed overflow (sum + 1)
  else .ok position

/-- The first and the last position of a range that lie in the text, none if the range is empty. -/
def range? (first last length : ℤ) : Except Error (Option (ℕ × ℕ)) := do
  let first := max (← resolve overflow first length) 1
  let last := min (← resolve overflow last length) length
  if first ≤ last then return some (← size overflow first, ← size overflow last)
  else return none

/-- How many characters stand before a range of positions and how many in it, none if the range is
empty. -/
def extent? (text : String) (first last : ℤ) : Except Error (Option (ℕ × ℕ)) := do
  let length ← signed overflow text.length
  match ← range? overflow first last length with
  | some (first, last) =>
      let skipped ← size overflow (first - 1)
      let span ← size overflow (last - first)
      return some (skipped, ← size overflow (span + 1))
  | none => return none

/-- The text between two positions, both included. -/
def slice (text : String) (first last : ℤ) : Except Error String := do
  match ← extent? overflow text first last with
  | some (skipped, taken) =>
      let start := Cursor.atPosition text skipped
      return start.textTo text (start.forward text taken)
  | none => return ""

/-- Where a search starts, none if that lies past the end of the text. -/
def searchStart? (s : String) (position : ℤ) : Except Error (Option Cursor) := do
  let length ← signed overflow s.length
  let start := max (← resolve overflow position length) 1
  let stop ← signed overflow (length + 1)
  if stop < start then return none
  else
    let offset ← signed overflow (start - 1)
    return some (Cursor.atPosition s (← size overflow offset))

/-! ## Reads of a table -/

/-- The value at an integer.  A positive one is looked up among the indices only, and counted from
zero among the items.  Any other is looked up as a double. -/
def getInteger (t : Table) (i : ℤ) : Except Error Value :=
  if i < 1 then do
    let x ← double overflow i
    return t.rawGet (.number x)
  else do
    let index ← size overflow i
    let _slot ← size overflow (index - 1)
    return t.get (.index index)

/-- The values of a table at consecutive integers. -/
def valuesFrom (t : Table) : (count : ℕ) → ℤ → Except Error (List Value)
  | 0, _ => .ok []
  | count + 1, i => do
      let first ← getInteger overflow t i
      return first :: (← valuesFrom t count (i + 1))

end

variable {overflow : Error}

theorem signed_eq {i : ℤ} (h : IsSigned i) : signed overflow i = .ok i := if_pos h

theorem size_eq {i : ℤ} {n : ℕ} (h : i = n) (hn : n < 2 ^ 64) : size overflow i = .ok n := by
  subst h
  rw [size, if_pos (isSize_iff.mpr ⟨Int.natCast_nonneg n, by omega⟩), Int.toNat_natCast]

theorem ok_bind {α β : Type} (a : α) (f : α → Except Error β) : (Except.ok a >>= f) = f a := rfl

theorem bind_congr_ok {α β : Type} {result : Except Error α} {f g : α → Except Error β}
    (h : ∀ a, result = .ok a → f a = g a) : (result >>= f) = (result >>= g) := by
  cases result with
  | error e => rfl
  | ok a => exact h a rfl

theorem resolve_eq {position : ℤ} {length : ℕ} (hposition : IsSigned position)
    (hlength : IsLength length) :
    resolve overflow position length = .ok (Text.resolve position length) := by
  rw [isSigned_iff] at hposition
  rw [IsLength] at hlength
  rw [resolve, Text.resolve]
  split
  · rw [signed_eq (isSigned_iff.mpr (by omega))]
    exact signed_eq (isSigned_iff.mpr (by omega))
  · rfl

theorem range?_eq {first last : ℤ} {length : ℕ} (hfirst : IsSigned first) (hlast : IsSigned last)
    (hlength : IsLength length) :
    range? overflow first last length = .ok (Text.range? first last length) := by
  rw [range?, resolve_eq hfirst hlength, resolve_eq hlast hlength, Text.range?]
  rw [IsLength] at hlength
  simp only [ok_bind]
  split
  · rw [size_eq (Int.toNat_of_nonneg (by omega)).symm (by omega), ok_bind,
      size_eq (Int.toNat_of_nonneg (by omega)).symm (by omega), ok_bind]
    rfl
  · rfl

theorem range?_bounds {first last : ℤ} {length a b : ℕ}
    (h : Text.range? first last length = some (a, b)) : 1 ≤ a ∧ a ≤ b ∧ b ≤ length := by
  simp only [Text.range?, Option.ite_none_right_eq_some, Option.some.injEq, Prod.mk.injEq] at h
  omega

theorem extent?_eq {text : String} {first last : ℤ} (hfirst : IsSigned first)
    (hlast : IsSigned last) (hlength : IsLength text.length) :
    extent? overflow text first last =
      .ok ((Text.range? first last text.length).map fun (a, b) => (a - 1, b - a + 1)) := by
  rw [extent?, signed_eq hlength.isSigned, ok_bind, range?_eq hfirst hlast hlength, ok_bind]
  cases hrange : Text.range? first last text.length with
  | none => rfl
  | some ends =>
    obtain ⟨a, b⟩ := ends
    obtain ⟨ha, hab, hb⟩ := range?_bounds hrange
    rw [IsLength] at hlength
    have hskipped : (a : ℤ) - 1 = (a - 1 : ℕ) := by omega
    have hspan : (b : ℤ) - a = (b - a : ℕ) := by omega
    have htaken : ((b - a : ℕ) : ℤ) + 1 = (b - a + 1 : ℕ) := by omega
    dsimp only
    rw [size_eq hskipped (by omega), ok_bind, size_eq hspan (by omega), ok_bind,
      size_eq htaken (by omega), ok_bind]
    rfl

theorem slice_eq {text : String} {first last : ℤ} (hfirst : IsSigned first)
    (hlast : IsSigned last) (hlength : IsLength text.length) :
    slice overflow text first last = .ok (Text.slice text first last) := by
  rw [slice, extent?_eq hfirst hlast hlength, ok_bind, Text.slice]
  cases Text.range? first last text.length <;> rfl

theorem searchStart?_eq {s : String} {position : ℤ} (hposition : IsSigned position)
    (hlength : IsLength s.length) :
    searchStart? overflow s position = .ok (LuaRuntime.searchStart? s position) := by
  have hsigned := isSigned_iff.mp hposition
  have hresolved : Text.resolve position s.length < 2 ^ 63 := by
    rw [IsLength] at hlength
    rw [Text.resolve]
    split <;> omega
  rw [searchStart?, signed_eq hlength.isSigned, ok_bind, resolve_eq hposition hlength, ok_bind,
    LuaRuntime.searchStart?]
  rw [IsLength] at hlength
  generalize Text.resolve position s.length = start at hresolved
  dsimp only
  rw [signed_eq (isSigned_iff.mpr (by omega)), ok_bind]
  split
  · rfl
  · have hoffset : max start 1 - 1 = ((max start 1).toNat - 1 : ℕ) := by omega
    rw [signed_eq (isSigned_iff.mpr (by omega)), ok_bind, size_eq hoffset (by omega), ok_bind]
    rfl

/-! ## Reads of a table -/

theorem getInteger_eq (t : Table) {i : ℤ} (hi : i < 2 ^ 64) (hexact : ¬ IsRounded i) :
    getInteger overflow t i = .ok (t.getInteger i) := by
  rw [getInteger, Table.getInteger]
  split
  · next hlow =>
    rw [double, if_pos (not_not.mp fun h => hexact ⟨hlow, h⟩)]
    rfl
  · have hindex : i = (i.toNat : ℕ) := by omega
    have hslot : (i.toNat : ℤ) - 1 = (i.toNat - 1 : ℕ) := by omega
    rw [size_eq hindex (by omega), ok_bind, size_eq hslot (by omega), ok_bind]
    rfl

theorem getInteger_of_isRounded (t : Table) {i : ℤ} (h : IsRounded i) :
    getInteger overflow t i = .error overflow := by
  rw [getInteger, if_pos h.1, double, if_neg h.2]
  rfl

theorem valuesFrom_eq (t : Table) {count : ℕ} {first : ℤ} (h : first + count ≤ 2 ^ 64)
    (hexact : ∀ i, first ≤ i → i < first + count → ¬ IsRounded i) :
    valuesFrom overflow t count first = .ok (LuaRuntime.valuesFrom t count first) := by
  induction count generalizing first with
  | zero => rfl
  | succ count ih =>
    rw [Nat.cast_succ] at h hexact
    have hfirst := hexact first (by omega) (by omega)
    have hrest : valuesFrom overflow t count (first + 1) = .ok _ :=
      ih (by omega) fun i hle hlt => hexact i (by omega) (by omega)
    rw [valuesFrom, getInteger_eq t (by omega) hfirst, ok_bind, hrest, ok_bind]
    rfl

/-- A read between two doubles is told, wherever in the range it is. -/
theorem valuesFrom_of_isRounded (t : Table) {count : ℕ} {first i : ℤ} (h : first + count ≤ 2 ^ 64)
    (hle : first ≤ i) (hlt : i < first + count) (hi : IsRounded i) :
    valuesFrom overflow t count first = .error overflow := by
  induction count generalizing first with
  | zero =>
    rw [Nat.cast_zero] at hlt
    omega
  | succ count ih =>
    rw [Nat.cast_succ] at h hlt
    rw [valuesFrom]
    by_cases hfirst : IsRounded first
    · rw [getInteger_of_isRounded t hfirst]
      rfl
    · have hne : first ≠ i := by
        rintro rfl
        exact hfirst hi
      rw [getInteger_eq t (by omega) hfirst, ok_bind, ih (by omega) (by omega) (by omega)]
      rfl

end Checked

end LuaRuntime
