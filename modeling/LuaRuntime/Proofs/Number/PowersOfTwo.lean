import LuaRuntime.Proofs.Number.MachineArithmetic
import Mathlib.Tactic.FieldSimp

/-!
# Powers of two

A power of two is a double from `2 ^ (-1074)` to `2 ^ 1023`.  `PowersOfTwo` says of a function that
it gives these powers, from a least one on, and infinity for the greater ones.  The machine takes a
negative power to be the reciprocal of the positive one.  So its powers are exact from
`2 ^ (-1023)` on (`powersOfTwo_powerOfTwo`), and zero below, where the positive power is infinite
(`powerOfTwo_of_lt`).

A product of a double and a power of two is not rounded if the exact product is a double
(`mul_eq_of_value`).
-/

namespace LuaRuntime

open Float.Model (Format UnpackedFloat)

namespace Double

/-- A finite double is a power of two. -/
structure IsPowerOfTwo (p : Double) (e : ℤ) : Prop where
  isFinite : p.isFinite = true
  isNegative : p.isNegative = false
  value : p.value = 2 ^ e

/-- The powers of two are exact from a least one to the greatest that is a double, and infinite
beyond. -/
structure PowersOfTwo (power : ℤ → Double) (least : ℤ) : Prop where
  exact : ∀ e, least ≤ e → e ≤ 1023 → IsPowerOfTwo (power e) e
  infinite : ∀ e, 1023 < e → power e = infinity false

theorem isFinite_ofMagnitude (negative : Bool) {m : ℕ} (h : m < infinityBits) :
    (ofMagnitude negative m).isFinite = true := by
  rw [isFinite, magnitude_ofMagnitude _ (h.trans infinityBits_lt)]
  exact decide_eq_true h

/-! ## Products -/

/-- A product that is a double is not rounded. -/
theorem mul_eq_of_value {x y z : Double} (hx : x.isFinite = true) (hy : y.isFinite = true)
    (hz : z.isFinite = true) (hsign : z.isNegative = (x.isNegative ^^ y.isNegative))
    (hvalue : z.value = x.value * y.value) : x * y = z := by
  have hone := Decimal.cast_unitsPerOne_pos
  have hunits : unitsOf x.magnitude * unitsOf y.magnitude = unitsOf z.magnitude * unitsPerOne := by
    have habs : |z.value| = |x.value| * |y.value| := by rw [hvalue, abs_mul]
    rw [abs_value, abs_value, abs_value, Decimal.valueOf, Decimal.valueOf, Decimal.valueOf,
      div_mul_div_comm, div_eq_div_iff hone.ne' (mul_pos hone hone).ne', ← mul_assoc,
      mul_left_inj' hone.ne'] at habs
    exact_mod_cast habs.symm
  have hle : z.magnitude ≤ infinityBits := (of_decide_eq_true hz : _ < _).le
  rw [mul_of_isFinite hx hy, hunits, ofQuotient, magnitudeOf_unitsOf hle unitsPerOne_pos, ← hsign]
  exact ofMagnitude_magnitude z

theorem value_eq_zero_iff (x : Double) : x.value = 0 ↔ x.magnitude = 0 := by
  have hone := Decimal.cast_unitsPerOne_pos
  rw [← abs_eq_zero, abs_value, Decimal.valueOf, div_eq_zero_iff, or_iff_left hone.ne',
    Nat.cast_eq_zero]
  exact unitsOf_strictMono.injective.eq_iff (a := x.magnitude) (b := 0)

/-- A number other than zero times infinity is infinite. -/
theorem mul_infinity {x : Double} (hx : x.isFinite = true) (hne : x.value ≠ 0) :
    x * infinity false = infinity x.isNegative := by
  have hsignificand : significand x.magnitude ≠ 0 := by
    intro hzero
    have hunits := unitsOf_eq x.magnitude
    rw [hzero, Nat.zero_mul, ← unitsOf_zero, unitsOf_strictMono.injective.eq_iff] at hunits
    exact hne ((value_eq_zero_iff x).mpr hunits)
  have hproduct : ofUnpacked (.mul .binary64 (unpacked x) (unpacked (infinity false))) =
      infinity x.isNegative := by
    rw [unpacked_infinity, unpacked_of_isFinite hx, unpackedOf_of_ne_zero _ hsignificand,
      ← ofUnpacked_infinity]
    cases x.isNegative <;> rfl
  rw [mul_eq] <;> rw [hproduct]
  cases x.isNegative <;> decide

theorem mul_positiveZero {x : Double} (hx : x.isFinite = true) :
    x * zero false = zero x.isNegative := by
  have hzero : (zero false).magnitude = 0 := magnitude_ofMagnitude false (by decide)
  have hsign : (zero false).isNegative = false := isNegative_ofMagnitude false (by decide)
  rw [mul_of_isFinite hx (by decide), hzero, hsign, unitsOf_zero, Nat.mul_zero, Bool.xor_false,
    ofQuotient, magnitudeOf_zero, zero]

/-! ## Powers that are doubles -/

/-- The magnitude of a power of two, from its place among the units. -/
def powerMagnitude (place : ℕ) : ℕ := (place - 52) * fractionCount + 2 ^ min place 52

theorem unitsOf_powerMagnitude (place : ℕ) : unitsOf (powerMagnitude place) = 2 ^ place := by
  have hcount : fractionCount = 2 ^ 52 := rfl
  have hlow : place - 52 = 0 ∨ fractionCount ≤ 2 ^ min place 52 := by
    rcases Nat.le_total place 52 with h | h
    · exact .inl (Nat.sub_eq_zero_of_le h)
    · rw [min_eq_right h]
      exact .inr le_rfl
  have hhigh : 2 ^ min place 52 ≤ 2 * fractionCount := by
    have := Nat.pow_le_pow_right (n := 2) two_pos (min_le_right place 52)
    omega
  rw [powerMagnitude, unitsOf_shifted hlow hhigh, ← Nat.pow_add]
  congr 1
  omega

theorem powerMagnitude_lt {place : ℕ} (h : place ≤ 2097) : powerMagnitude place < infinityBits := by
  have hinfinity : infinityBits = 2045 * fractionCount + 2 * fractionCount := rfl
  have hcount : fractionCount = 2 ^ 52 := rfl
  have hdropped : (place - 52) * fractionCount ≤ 2045 * fractionCount :=
    Nat.mul_le_mul_right _ (by omega)
  have hfirst := Nat.pow_le_pow_right (n := 2) two_pos (min_le_right place 52)
  rw [powerMagnitude]
  omega

theorem isPowerOfTwo_ofMagnitude {place : ℕ} {e : ℤ} (hplace : (place : ℤ) = e + 1074)
    (h : e ≤ 1023) : IsPowerOfTwo (ofMagnitude false (powerMagnitude place)) e := by
  have hfinite : powerMagnitude place < infinityBits := powerMagnitude_lt (by omega)
  have hlt := hfinite.trans infinityBits_lt
  constructor
  case isFinite => exact isFinite_ofMagnitude _ hfinite
  case isNegative => exact isNegative_ofMagnitude _ hlt
  case value =>
    obtain rfl : e = (place : ℤ) - (1074 : ℕ) := by omega
    rw [value_ofMagnitude _ hlt, if_neg (by decide), Decimal.valueOf, unitsOf_powerMagnitude,
      unitsPerOne_eq_pow, zpow_sub₀ two_ne_zero, zpow_natCast, zpow_natCast,
      Nat.cast_pow, Nat.cast_pow, Nat.cast_ofNat]

/-! ## The machine -/

theorem magnitudeOfNat_two_pow (k : ℕ) :
    magnitudeOfNat (2 ^ k) = min (powerMagnitude (k + 1074)) infinityBits := by
  have hcount : 2 ^ 52 = fractionCount := rfl
  have hsignificand : (if k ≤ 52 then 2 ^ k * Nat.pow 2 (52 - k)
      else roundHalfEven (2 ^ k) (Nat.pow 2 (k - 52))) = fractionCount := by
    split
    · next h =>
      show 2 ^ k * 2 ^ (52 - k) = _
      rw [← Nat.pow_add, Nat.add_sub_cancel' h, hcount]
    · next h =>
      have hsplit : 2 ^ k = fractionCount * 2 ^ (k - 52) := by
        rw [← hcount, ← Nat.pow_add]
        congr 1
        omega
      rw [hsplit]
      exact roundHalfEven_mul _ (Nat.two_pow_pos _)
  have hmin : min (k + 1074) 52 = 52 := by omega
  have hplace : k + 1074 - 52 = k + 1022 := by omega
  simp only [magnitudeOfNat, if_neg (Nat.two_pow_pos k).ne', Nat.log2_two_pow, hsignificand,
    powerMagnitude, hmin, hplace, hcount]

theorem isPowerOfTwo_ofNat {k : ℕ} (h : k ≤ 1023) : IsPowerOfTwo (ofNat (2 ^ k)) k := by
  rw [ofNat, ofNatural, magnitudeOfNat_two_pow, min_eq_left (powerMagnitude_lt (by omega)).le]
  exact isPowerOfTwo_ofMagnitude (by omega) (by omega)

theorem ofNat_two_pow_of_lt {k : ℕ} (h : 1023 < k) : ofNat (2 ^ k) = infinity false := by
  have hplace : infinityBits ≤ powerMagnitude (k + 1074) := by
    have hinfinity : infinityBits = 2046 * fractionCount + fractionCount := rfl
    have hdropped : 2046 * fractionCount ≤ (k + 1074 - 52) * fractionCount :=
      Nat.mul_le_mul_right _ (by omega)
    have hfirst : 2 ^ min (k + 1074) 52 = fractionCount := by
      rw [min_eq_right (by omega)]
      rfl
    rw [powerMagnitude]
    omega
  rw [ofNat, ofNatural, magnitudeOfNat_two_pow, min_eq_right hplace, infinity]

/-- The reciprocal of a power of two, rounded to the nearest double, is one of the powers. -/
theorem isPowerOfTwo_ofRatio {k : ℕ} (h : k ≤ 1074) :
    IsPowerOfTwo (ofRatio false 1 (2 ^ k)) (-k) := by
  have hunits : 1 * unitsPerOne = unitsOf (powerMagnitude (1074 - k)) * 2 ^ k := by
    rw [unitsOf_powerMagnitude, unitsPerOne_eq_pow, Nat.one_mul, Nat.pow_sub_mul_pow 2 h]
  rw [ofRatio, ofQuotient, hunits,
    magnitudeOf_unitsOf (powerMagnitude_lt (by omega)).le (Nat.two_pow_pos k)]
  exact isPowerOfTwo_ofMagnitude (by omega) (by omega)

theorem div_eq {x y : Double}
    (h : (ofUnpacked (.div .binary64 (unpacked x) (unpacked y))).isNaN = false) :
    x / y = ofUnpacked (.div .binary64 (unpacked x) (unpacked y)) := by
  refine lift₂_eq ?_ h
  rw [← unpack_toFloat, ← unpack_toFloat]
  rfl

theorem unpacked_ofNat_two_pow {k : ℕ} (h : k ≤ 1023) :
    unpacked (ofNat (2 ^ k)) = .finite .positive fractionCount (k - 52) (by decide) := by
  have hpower := isPowerOfTwo_ofNat h
  have hmagnitude : (ofNat (2 ^ k)).magnitude = (k + 1022) * fractionCount + fractionCount := by
    have hfinite : powerMagnitude (k + 1074) < infinityBits := powerMagnitude_lt (by omega)
    have hmin : min (k + 1074) 52 = 52 := by omega
    rw [ofNat, ofNatural, magnitudeOfNat_two_pow, min_eq_left hfinite.le,
      magnitude_ofMagnitude _ (hfinite.trans infinityBits_lt), powerMagnitude, hmin,
      show k + 1074 - 52 = k + 1022 by omega]
    rfl
  have hshift : shift (ofNat (2 ^ k)).magnitude = k + 1022 := by
    rw [hmagnitude, shift, ← Nat.add_one_mul, Nat.mul_div_cancel _ (by decide), Nat.add_sub_cancel]
  have hsignificand : significand (ofNat (2 ^ k)).magnitude = fractionCount := by
    have := shift_mul_add_significand (ofNat (2 ^ k)).magnitude
    rw [hshift, hmagnitude] at this
    rw [hmagnitude]
    omega
  have hexponent : ((k + 1022 : ℕ) : ℤ) - 1074 = k - 52 := by omega
  rw [unpacked_of_isFinite hpower.isFinite, hpower.isNegative, hshift, hsignificand, hexponent,
    unpackedOf_of_ne_zero _ (by decide)]
  rfl

/-- Numbers with one mantissa are divided without a rest. -/
theorem div_mantissa {m s : ℕ} (hm : 0 < m) {e d : ℤ}
    (hs : min (e - d) (max (e - d - 53) (-1074)) = e - d - s) :
    UnpackedFloat.div .binary64 (.finite .positive m e hm) (.finite .positive m d hm) =
      .roundWithAccuracy .binary64 .positive (2 ^ s) (e - d - s) .exact := by
  have htotal : Float.Model.totalExponent m e - Float.Model.totalExponent m d = e - d := by
    simp only [Float.Model.totalExponent]
    omega
  have htarget : min (e - d) (Format.binary64.targetExponent
      (Float.Model.totalExponent m e - Float.Model.totalExponent m d)) = e - d - s := by
    rw [htotal]
    exact hs
  have hshift : (e - d - (e - d - s)).toNat = s := by omega
  have hcore : UnpackedFloat.divCore .binary64 m e m d = (2 ^ s, e - d - s, .exact) := by
    simp only [UnpackedFloat.divCore, htarget, hshift, Nat.shiftLeft_eq, Nat.mul_mod_right,
      Nat.mul_div_cancel_left _ hm, UnpackedFloat.accuracyOfFraction, if_true]
  simp only [UnpackedFloat.div, hcore]
  rfl

theorem unpacked_ofNat_one :
    unpacked (ofNat 1) = .finite .positive fractionCount (-52) (by decide) := by
  have hpower := unpacked_ofNat_two_pow (Nat.zero_le 1023)
  rw [Nat.pow_zero, Nat.cast_zero, zero_sub] at hpower
  exact hpower

/-- The machine's reciprocal of a power of two is the nearest double. -/
theorem one_div_two_pow {k : ℕ} (h : k ≤ 1023) :
    ofNat 1 / ofNat (2 ^ k) = ofRatio false 1 (2 ^ k) := by
  obtain ⟨s, hs⟩ : ∃ s, s = min 53 (1074 - k) := ⟨_, rfl⟩
  have hdigits : 1 * unitsPerOne = 2 ^ s * 2 ^ (1074 - s) := by
    have hle : s ≤ 1074 := by omega
    rw [unitsPerOne_eq_pow, Nat.one_mul, pow_mul_pow_sub 2 hle]
  have hquotient : ofUnpacked (.div .binary64 (unpacked (ofNat 1)) (unpacked (ofNat (2 ^ k)))) =
      ofRatio false 1 (2 ^ k) := by
    rw [unpacked_ofNat_one, unpacked_ofNat_two_pow h, div_mantissa (s := s) _ (by omega), ofRatio,
      hdigits]
    refine ofUnpacked_round false (Nat.two_pow_pos s).ne' (by omega) ?_
    rw [Nat.log2_two_pow]
    omega
  rw [← hquotient]
  refine div_eq ?_
  rw [hquotient]
  exact isNaN_ofQuotient _ _ _

theorem one_div_infinity : ofNat 1 / infinity false = zero false := by
  have hquotient : ofUnpacked (.div .binary64 (unpacked (ofNat 1)) (unpacked (infinity false))) =
      zero false := by
    rw [unpacked_ofNat_one, unpacked_infinity]
    exact ofUnpacked_zero false
  rw [← hquotient]
  refine div_eq ?_
  rw [hquotient]
  decide

theorem powerOfTwo_neg {k : ℕ} (h : 0 < k) : powerOfTwo (-k) = ofNat 1 / ofNat (2 ^ k) := by
  rw [powerOfTwo, if_neg (by omega), Int.natAbs_neg, Int.natAbs_natCast]
  rfl

/-- The powers of the machine are exact from the reciprocal of the greatest one on. -/
theorem powersOfTwo_powerOfTwo : PowersOfTwo powerOfTwo (-1023) := by
  constructor
  case exact =>
    intro e hlow hhigh
    rcases le_or_gt 0 e with hpos | hneg
    · obtain ⟨k, rfl⟩ := Int.eq_ofNat_of_zero_le hpos
      exact isPowerOfTwo_ofNat (by omega)
    · obtain ⟨k, hk⟩ := Int.eq_ofNat_of_zero_le (by omega : 0 ≤ -e)
      obtain rfl : e = -k := by omega
      rw [powerOfTwo_neg (by omega), one_div_two_pow (by omega)]
      exact isPowerOfTwo_ofRatio (by omega)
  case infinite =>
    intro e he
    obtain ⟨k, rfl⟩ := Int.eq_ofNat_of_zero_le (by omega : 0 ≤ e)
    exact ofNat_two_pow_of_lt (by omega)

/-- Below that the powers of the machine are zero, the positive ones being infinite. -/
theorem powerOfTwo_of_lt {e : ℤ} (h : e < -1023) : powerOfTwo e = zero false := by
  obtain ⟨k, hk⟩ := Int.eq_ofNat_of_zero_le (by omega : 0 ≤ -e)
  obtain rfl : e = -k := by omega
  rw [powerOfTwo_neg (by omega), ofNat_two_pow_of_lt (by omega), one_div_infinity]

/-- The power of two rounded to the nearest double. -/
def nearestPower (e : ℤ) : Double :=
  if 0 ≤ e then ofNat (2 ^ e.natAbs) else ofRatio false 1 (2 ^ e.natAbs)

/-- Rounded to the nearest double, every power of two that is a double is exact. -/
theorem powersOfTwo_nearestPower : PowersOfTwo nearestPower (-1074) := by
  constructor
  case exact =>
    intro e hlow hhigh
    rw [nearestPower]
    split
    · next hpos =>
      obtain ⟨k, rfl⟩ := Int.eq_ofNat_of_zero_le hpos
      exact isPowerOfTwo_ofNat (by omega)
    · next hneg =>
      obtain ⟨k, hk⟩ := Int.eq_ofNat_of_zero_le (by omega : 0 ≤ -e)
      obtain rfl : e = -k := by omega
      rw [Int.natAbs_neg]
      exact isPowerOfTwo_ofRatio (by omega)
  case infinite =>
    intro e he
    rw [nearestPower, if_pos (by omega)]
    exact ofNat_two_pow_of_lt (by omega)

end Double

end LuaRuntime
