import LuaRuntime.Number.Word
import LuaRuntime.Proofs.Number.RadixNumerals
import LuaRuntime.Proofs.Number.NumberText

/-!
# Numbers as words of 32 bits

The word of a number is its integer part modulo `2 ^ 32`, however great the number is
(`Word.isResidue_ofInt`).  Taking the remainder of a double by `2 ^ 32` and narrowing it twice gives
the same word: cutting off the fraction and the remainder are both exact, and what remains is far
from the bounds of 64-bit integers (`Word.reduced_eq`).

The number of a word reads back as that word (`Word.ofNumber_toNumber`), and its last hexadecimal
digits write its remainder by a power of sixteen (`Word.spellsNatural_hexText`).
-/

namespace LuaRuntime

/-! ## Residues -/

/-- An integer is congruent to another one modulo `2 ^ 32` and in the range of signed words. -/
structure IsResidue (i r : ℤ) : Prop where
  low : -2 ^ 31 ≤ r
  high : r < 2 ^ 31
  congruent : r ≡ i [ZMOD 2 ^ 32]

theorem IsResidue.unique {i r j : ℤ} (hr : IsResidue i r) (hj : IsResidue i j) : j = r := by
  obtain ⟨hlow, hhigh, hcongruent⟩ := hr
  obtain ⟨hlow', hhigh', hcongruent'⟩ := hj
  rw [Int.ModEq] at hcongruent hcongruent'
  omega

/-- The integer part of a finite double, from its sign and its units. -/
def wholePart (negative : Bool) (units : ℕ) : ℤ :=
  if negative then -(units / unitsPerOne : ℕ) else (units / unitsPerOne : ℕ)

theorem wholePart_natural (negative : Bool) (n : ℕ) :
    wholePart negative (n * unitsPerOne) = if negative then -(n : ℤ) else n := by
  rw [wholePart, Nat.mul_div_cancel _ Double.unitsPerOne_pos]

namespace Double

theorem exact_of_isFinite {x : Double} (h : x.isFinite = true) :
    x.exact = .finite x.isNegative (unitsOf x.magnitude) := by
  have hlt : x.magnitude < infinityBits := of_decide_eq_true h
  rw [← exact_ofMagnitude x.isNegative hlt, ofMagnitude_magnitude]

theorem toInt?_of_exact {x : Double} {negative : Bool} {units : ℕ}
    (h : x.exact = .finite negative units) : x.toInt? = some (wholePart negative units) := by
  have hfinite := isFinite_of_exact h
  rw [exact_of_isFinite hfinite, Exact.finite.injEq] at h
  obtain ⟨rfl, rfl⟩ := h
  rw [toInt?_eq_some_iff, wholePart, wholeOf_eq_div]
  exact ⟨hfinite, rfl⟩

/-- An integer that has no more digits than a double has room for is that double. -/
theorem toInt?_ofInt {i : ℤ} (h : i.natAbs ≤ 2 ^ 53) : (ofInt i).toInt? = some i := by
  rw [ofInt, toInt?_of_exact (exact_ofNatural _ h), wholePart_natural, Option.some.injEq]
  split
  · next hnegative =>
    rw [decide_eq_true_iff] at hnegative
    omega
  · next hnegative =>
    rw [decide_eq_true_iff] at hnegative
    omega

end Double

namespace Word

theorem isResidue_ofInt (i : ℤ) : IsResidue i (BitVec.ofInt 32 i).toInt := by
  rw [BitVec.toInt_ofInt]
  refine ⟨?_, ?_, ?_⟩
  · have := @Int.le_bmod i (2 ^ 32) (by norm_num)
    omega
  · have := @Int.bmod_lt i (2 ^ 32) (by norm_num)
    omega
  · rw [Int.ModEq]
    exact Int.bmod_emod

theorem toNat_ofInt (i : ℤ) : ((BitVec.ofInt 32 i).toNat : ℤ) = i % 2 ^ 32 := by
  rw [BitVec.toNat_ofInt]
  exact Int.toNat_of_nonneg (Int.emod_nonneg _ (by norm_num))

/-- The word of a number, found by taking the remainder of its integer part by `2 ^ 32` first and
narrowing that. -/
def reduced (x : Double) : Word :=
  if x.isFinite then
    BitVec.ofInt 32
      (Value.saturate ((((Double.trunc x).remainder (.ofNat (2 ^ 32))).toInt?).getD 0))
  else 0

end Word

namespace Double

/-! ## Reduction by a remainder -/

theorem exact_ofUnits (negative : Bool) {n : ℕ} (h : n ≤ 2 ^ 53) :
    (ofUnits negative (n * unitsPerOne)).exact = .finite negative (n * unitsPerOne) := by
  have hmagnitude := magnitudeOf_unitsOf (magnitudeOfNat_lt h).le Nat.one_pos
  rw [Nat.mul_one, unitsOf_magnitudeOfNat h] at hmagnitude
  rw [ofUnits, ofQuotient, hmagnitude, exact_ofMagnitude negative (magnitudeOfNat_lt h),
    unitsOf_magnitudeOfNat h]

/-- A double from `2 ^ 53` on has no fraction. -/
theorem isWhole_of_le {m : ℕ} (h : 2 ^ 53 ≤ wholeOf m) : isWhole m = true := by
  obtain ⟨k, f, hf, rfl, -⟩ := fields_of_whole h
  rw [isWhole_iff_dvd, unitsOf_fields hf, unitsPerOne_eq_pow]
  exact (pow_dvd_pow 2 (by omega)).mul_left _

/-- Cutting off the fraction leaves the whole units. -/
theorem exact_trunc {x : Double} {negative : Bool} {units : ℕ}
    (h : x.exact = .finite negative units) :
    (trunc x).exact = .finite negative (units / unitsPerOne * unitsPerOne) := by
  have hfinite := isFinite_of_exact h
  have hx := exact_of_isFinite hfinite
  rw [h, Exact.finite.injEq] at hx
  obtain ⟨rfl, rfl⟩ := hx
  rw [trunc, roundWhole]
  split
  · next hwhole =>
    have hwhole : isWhole x.magnitude = true := by simpa [hfinite] using hwhole
    rw [exact_of_isFinite hfinite, ← wholeOf_eq_div, ← unitsOf_of_isWhole hwhole]
  · next hwhole =>
    have hle : wholeOf x.magnitude ≤ 2 ^ 53 := by
      by_contra hgt
      exact hwhole (by rw [isWhole_of_le (Nat.le_of_not_le hgt), Bool.or_true])
    simp only [Bool.false_eq_true, if_false, Nat.add_zero]
    rw [exact_ofNatural _ hle, wholeOf_eq_div]

end Double

namespace Word

theorem reduced_eq (x : Double) : reduced x = ofNumber x := by
  rw [reduced, ofNumber]
  split
  · next hfinite =>
    obtain ⟨negative, units, hx⟩ : ∃ negative units, x.exact = .finite negative units :=
      ⟨_, _, Double.exact_of_isFinite hfinite⟩
    have htwo : 2 ^ 32 ≤ 2 ^ 53 := by norm_num
    have hdivisor : (Double.ofNat (2 ^ 32)).exact = .finite false (2 ^ 32 * unitsPerOne) :=
      Double.exact_ofNatural false htwo
    have hrest : units / unitsPerOne % 2 ^ 32 < 2 ^ 32 := Nat.mod_lt _ (by norm_num)
    have hremainder : ((Double.trunc x).remainder (.ofNat (2 ^ 32))).exact =
        .finite negative (units / unitsPerOne % 2 ^ 32 * unitsPerOne) := by
      rw [Double.remainder, Double.exact_trunc hx, hdivisor]
      dsimp only
      rw [if_neg (Nat.mul_pos (by norm_num) Double.unitsPerOne_pos).ne', Nat.mul_mod_mul_right,
        Double.exact_ofUnits negative (by omega)]
    rw [Double.toInt?_of_exact hx, Double.toInt?_of_exact hremainder, Option.getD_some,
      Option.getD_some]
    apply BitVec.eq_of_toNat_eq
    zify
    rw [toNat_ofInt, toNat_ofInt, wholePart, wholePart, Nat.mul_div_cancel _ Double.unitsPerOne_pos,
      Value.saturate, Value.leastInteger, Value.greatestInteger]
    generalize units / unitsPerOne = whole at hrest ⊢
    cases negative <;> simp only [if_true, Bool.false_eq_true, if_false] <;> omega
  · next hfinite => simp [Double.toInt?, hfinite]

/-! ## Reading back -/

theorem exact_toNumber (w : Word) :
    w.toNumber.exact = .finite (decide (w.toInt < 0)) (w.toInt.natAbs * unitsPerOne) := by
  have hlow := BitVec.le_toInt w
  have hhigh := @BitVec.toInt_lt 32 w
  rw [toNumber, Double.ofInt, Double.exact_ofNatural _ (by omega)]

/-- The number of a word is the signed integer that the word encodes. -/
theorem toInt?_toNumber (w : Word) : w.toNumber.toInt? = some w.toInt := by
  rw [Double.toInt?_of_exact (exact_toNumber w), wholePart,
    Nat.mul_div_cancel _ Double.unitsPerOne_pos]
  congr 1
  by_cases hneg : w.toInt < 0
  · rw [decide_eq_true hneg, if_pos rfl]
    omega
  · rw [decide_eq_false hneg, if_neg (by decide)]
    omega

theorem isIntegral_toNumber (w : Word) : w.toNumber.isIntegral = true := by
  have hlow := BitVec.le_toInt w
  have hhigh := @BitVec.toInt_lt 32 w
  have hle : w.toInt.natAbs ≤ 2 ^ 53 := by omega
  have hlt := Double.magnitudeOfNat_lt hle
  rw [toNumber, Double.ofInt, Double.ofNatural, Double.isIntegral, Double.isFinite,
    Double.magnitude_ofMagnitude _ (hlt.trans Double.infinityBits_lt), Bool.and_eq_true,
    decide_eq_true_eq]
  exact ⟨hlt, Double.isWhole_magnitudeOfNat hle⟩

theorem ofNumber_toNumber (w : Word) : ofNumber w.toNumber = w := by
  rw [ofNumber, toInt?_toNumber, Option.getD_some, BitVec.ofInt_toInt]

/-! ## Hexadecimal digits -/

/-- The last digits of a number in base sixteen, with zeros in front. -/
def lastDigits : (count n : ℕ) → List Char
  | 0, _ => []
  | count + 1, n => lastDigits count (n / 16) ++ [Nat.digitChar (n % 16)]

theorem length_lastDigits (count n : ℕ) : (lastDigits count n).length = count := by
  induction count generalizing n with
  | zero => rfl
  | succ count ih => simp [lastDigits, ih]

theorem lastDigits_zero (count : ℕ) : lastDigits count 0 = List.replicate count '0' := by
  induction count with
  | zero => rfl
  | succ count ih =>
    rw [lastDigits, List.replicate_succ', ih]
    rfl

theorem leftpad_concat (count : ℕ) (digits : List Char) (c : Char) :
    (digits ++ [c]).leftpad (count + 1) '0' = digits.leftpad count '0' ++ [c] := by
  simp [List.leftpad]

/-- Zeros in front make up the digits of a number. -/
theorem leftpad_toDigits {count n : ℕ} (hn : n < 16 ^ (count + 1)) :
    (Nat.toDigits 16 n).leftpad (count + 1) '0' = lastDigits (count + 1) n := by
  induction count generalizing n with
  | zero =>
    have hlt : n < 16 := hn
    rw [Nat.toDigits_of_lt_base hlt, lastDigits, Nat.mod_eq_of_lt hlt]
    rfl
  | succ count ih =>
    rw [Nat.toDigits_eq_if (by norm_num), lastDigits]
    split
    · next hlt =>
      rw [Nat.div_eq_of_lt hlt, Nat.mod_eq_of_lt hlt, lastDigits_zero]
      exact (leftpad_concat (count + 1) [] _).trans (by simp [List.leftpad])
    · next hge =>
      have hdiv : n / 16 < 16 ^ (count + 1) := Nat.div_lt_of_lt_mul (by rwa [← Nat.pow_succ'])
      rw [leftpad_concat, ih hdiv]

theorem drop_lastDigits (dropped count n : ℕ) :
    (lastDigits (dropped + count) n).drop dropped = lastDigits count n := by
  induction count generalizing n with
  | zero => simp [length_lastDigits, lastDigits]
  | succ count ih =>
    rw [← Nat.add_assoc, lastDigits, List.drop_append_of_le_length (by simp [length_lastDigits]),
      ih, lastDigits]

/-- Some last digits of a number write its remainder. -/
theorem spellsNatural_lastDigits {write : Char → Char}
    (hwrite : ∀ d < 16, Numeral.IsDigitOf 16 (write (Nat.digitChar d)) d) (count n : ℕ) :
    Numeral.SpellsNatural 16 ((lastDigits (count + 1) n).map write) (n % 16 ^ (count + 1)) := by
  induction count generalizing n with
  | zero => simpa [lastDigits] using .single (hwrite _ (Nat.mod_lt n (by norm_num)))
  | succ count ih =>
    have hsplit : n % 16 ^ (count + 1 + 1) = 16 * (n / 16 % 16 ^ (count + 1)) + n % 16 := by
      rw [Nat.pow_succ', Nat.mod_mul, Nat.add_comm]
    rw [lastDigits, List.map_append, List.map_singleton, hsplit]
    exact (ih (n / 16)).snoc (hwrite _ (Nat.mod_lt n (by norm_num)))

/-- The number of digits that are shown for a count. -/
def shownDigits (count : ℤ) : ℕ := min 8 (max 1 count.natAbs)

theorem toList_hexText (w : Word) (count : ℤ) :
    (w.hexText count).toList =
      (lastDigits (shownDigits count) w.toNat).map (if count < 0 then Char.toUpper else id) := by
  have hall : (Nat.toDigits 16 w.toNat).leftpad 8 '0' = lastDigits 8 w.toNat :=
    leftpad_toDigits w.isLt
  have hshown : 8 - shownDigits count + shownDigits count = 8 := by
    rw [shownDigits]
    omega
  have hdrop := drop_lastDigits (8 - shownDigits count) (shownDigits count) w.toNat
  rw [hshown] at hdrop
  rw [hexText, hall, String.toList_ofList]
  split
  · exact congrArg (List.map Char.toUpper) hdrop
  · rw [List.map_id]
    exact hdrop

theorem isDigitOf_digitChar (upper : Prop) [Decidable upper] : ∀ d < 16,
    Numeral.IsDigitOf 16 ((if upper then Char.toUpper else id) (Nat.digitChar d)) d := by
  have hdigits : ∀ d < 16, (Nat.digitChar d).toLower = Numeral.digitChar d ∧
      (Nat.digitChar d).toUpper.toLower = Numeral.digitChar d := by decide
  intro d hd
  refine ⟨hd, ?_⟩
  split
  · exact (hdigits d hd).2
  · exact (hdigits d hd).1

/-- The digits shown of a word write its remainder. -/
theorem spellsNatural_hexText (w : Word) (count : ℤ) :
    (w.hexText count).length = shownDigits count ∧
      Numeral.SpellsNatural 16 (w.hexText count).toList (w.toNat % 16 ^ shownDigits count) := by
  obtain ⟨digits, hdigits⟩ : ∃ digits, shownDigits count = digits + 1 :=
    Nat.exists_eq_succ_of_ne_zero (by rw [shownDigits]; omega)
  rw [← String.length_toList, toList_hexText, List.length_map, length_lastDigits, hdigits]
  exact ⟨rfl, spellsNatural_lastDigits (isDigitOf_digitChar _) digits w.toNat⟩

end Word

end LuaRuntime
