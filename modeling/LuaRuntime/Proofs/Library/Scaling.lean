import LuaRuntime.Library.Math
import LuaRuntime.Proofs.Number.PowersOfTwo
import LuaRuntime.Proofs.Number.Words
import LuaRuntime.Proofs.State.Action

/-!
# Fractions and exponents

`math.frexp` splits a finite double into a fraction and an exponent, exactly
(`isSplit_fractionExponent`).  A normal double gives up its exponent field.  A subnormal is first
brought among the normal ones, by a factor that its units have room for (`mul_power_of_lt`).

`math.ldexp` multiplies the fraction by the power of two again.  The product is the double that was
split, so it is not rounded, as long as the power of two is a double itself.  The exponents of the
doubles from `2 ^ 1023` on are 1024, and that power is infinite.  For the powers of the machine,
which are zero below `2 ^ (-1023)`, the doubles below `2 ^ (-1024)` are lost as well.
-/

namespace LuaRuntime

namespace Double

/-- A double is a fraction times a power of two. -/
structure IsSplit (x fraction : Double) (exponent : ℤ) : Prop where
  isFinite : fraction.isFinite = true
  isNegative : fraction.isNegative = x.isNegative
  value : x.value = fraction.value * 2 ^ exponent
  low : x.value ≠ 0 → 1 / 2 ≤ |fraction.value|
  high : |fraction.value| < 1
  exponent_eq_zero : x.value = 0 → exponent = 0

/-! ## Splitting -/

theorem value_eq_mul {x y : Double} {r : ℚ} (hsign : x.isNegative = y.isNegative)
    (hunits : Decimal.valueOf (unitsOf x.magnitude) = Decimal.valueOf (unitsOf y.magnitude) * r) :
    x.value = y.value * r := by
  rw [value, value, hsign, hunits]
  split
  · rw [neg_mul]
  · rfl

theorem valueOf_mul (m n : ℕ) : Decimal.valueOf (m * n) = Decimal.valueOf m * n := by
  rw [Decimal.valueOf, Decimal.valueOf, Nat.cast_mul, div_mul_eq_mul_div]

/-- The fractions with the exponent field of a half. -/
theorem half_bounds {f : ℕ} (hf : f < fractionCount) :
    1 / 2 ≤ Decimal.valueOf ((fractionCount + f) * 2 ^ 1021) ∧
      Decimal.valueOf ((fractionCount + f) * 2 ^ 1021) < 1 := by
  have hone : unitsPerOne = fractionCount * 2 * 2 ^ 1021 := by
    have hcount : fractionCount * 2 = 2 ^ 53 := rfl
    rw [hcount, unitsPerOne_eq_pow, ← Nat.pow_add]
  have hpos := Decimal.cast_unitsPerOne_pos
  have hpow : 0 < 2 ^ 1021 := pow_pos two_pos 1021
  rw [Decimal.valueOf, div_le_div_iff₀ two_pos hpos, div_lt_one hpos, hone]
  generalize 2 ^ 1021 = c at *
  have hlow : fractionCount * 2 * c ≤ (fractionCount + f) * c * 2 := by
    rw [Nat.mul_right_comm _ c]
    exact Nat.mul_le_mul_right c (by omega)
  have hhigh : (fractionCount + f) * c < fractionCount * 2 * c :=
    Nat.mul_lt_mul_of_pos_right (by omega) hpow
  rw [one_mul]
  exact ⟨by exact_mod_cast hlow, by exact_mod_cast hhigh⟩

/-- A normal double is split at its fields. -/
theorem isSplit_splitFields {x : Double} (hnormal : fractionCount ≤ x.magnitude) :
    IsSplit x (splitFields x).1 (splitFields x).2 := by
  obtain ⟨e, f, hf, hm⟩ := (magnitude_cases x.magnitude).resolve_left (by omega)
  have hmod : x.magnitude % fractionCount = f := by
    rw [hm, Nat.mul_comm, Nat.mul_add_mod, Nat.mod_eq_of_lt hf]
  have hdiv : x.magnitude / fractionCount = e + 1 := by
    rw [hm, Nat.mul_comm, Nat.mul_add_div (by decide), Nat.div_eq_of_lt hf, Nat.add_zero]
  have hsplit : splitFields x =
      (ofMagnitude x.isNegative ((1021 + 1) * fractionCount + f), (e : ℤ) - (1021 : ℕ)) := by
    rw [splitFields, hmod, hdiv, halfField]
    congr 1
    omega
  have hfinite : (1021 + 1) * fractionCount + f < infinityBits := by
    have : infinityBits = (1021 + 1) * fractionCount + 1025 * fractionCount := rfl
    omega
  have hlt := hfinite.trans infinityBits_lt
  rw [hsplit]
  generalize hfraction : ofMagnitude x.isNegative ((1021 + 1) * fractionCount + f) = fraction
  have hsign : fraction.isNegative = x.isNegative := by
    rw [← hfraction, isNegative_ofMagnitude _ hlt]
  have hmagnitude : fraction.magnitude = (1021 + 1) * fractionCount + f := by
    rw [← hfraction, magnitude_ofMagnitude _ hlt]
  have hunits : unitsOf fraction.magnitude = (fractionCount + f) * 2 ^ 1021 := by
    rw [hmagnitude, unitsOf_fields hf]
  have habs : |fraction.value| = Decimal.valueOf ((fractionCount + f) * 2 ^ 1021) := by
    rw [abs_value, hunits]
  constructor
  case isFinite => rw [← hfraction, isFinite_ofMagnitude _ hfinite]
  case isNegative => exact hsign
  case value =>
    refine value_eq_mul hsign.symm ?_
    rw [hunits, hm, unitsOf_fields hf, valueOf_mul, valueOf_mul, mul_assoc, Nat.cast_pow,
      Nat.cast_pow, Nat.cast_ofNat, zpow_sub₀ two_ne_zero, zpow_natCast, zpow_natCast,
      mul_div_cancel₀ _ (by positivity)]
  case low =>
    intro _
    rw [habs]
    exact (half_bounds hf).1
  case high =>
    rw [habs]
    exact (half_bounds hf).2
  case exponent_eq_zero =>
    intro hzero
    have := (value_eq_zero_iff x).mp hzero
    have : 0 < fractionCount := by decide
    omega

/-- A double below the normal ones has room for `54` more digits, and is normal with them. -/
theorem mul_power_of_lt {x p : Double} (hp : IsPowerOfTwo p 54) (hne : x.magnitude ≠ 0)
    (hlt : x.magnitude < fractionCount) :
    (x * p).isFinite = true ∧ (x * p).isNegative = x.isNegative ∧
      (x * p).value = x.value * 2 ^ 54 ∧ fractionCount ≤ (x * p).magnitude := by
  have hlog : x.magnitude.log2 < 52 := (Nat.log2_lt hne).mpr hlt
  obtain ⟨hlow, hhigh⟩ := two_pow_log2_mul hne hlog.le
  obtain ⟨m, hm⟩ : ∃ m, m = (x.magnitude.log2 + 2) * fractionCount +
      x.magnitude * 2 ^ (52 - x.magnitude.log2) := ⟨_, rfl⟩
  have hunits : unitsOf m = x.magnitude * 2 ^ 54 := by
    rw [hm, unitsOf_shifted (.inr hlow) hhigh.le, Nat.mul_assoc, ← Nat.pow_add]
    congr 2
    omega
  have hfinite : m < infinityBits := by
    have hdropped : (x.magnitude.log2 + 2) * fractionCount ≤ 54 * fractionCount :=
      Nat.mul_le_mul_right _ (by omega)
    have hinfinity : infinityBits = 54 * fractionCount + 1993 * fractionCount := rfl
    omega
  have hbits := hfinite.trans infinityBits_lt
  generalize hz : ofMagnitude x.isNegative m = z
  have hsign : z.isNegative = x.isNegative := by rw [← hz, isNegative_ofMagnitude _ hbits]
  have hmagnitude : z.magnitude = m := by rw [← hz, magnitude_ofMagnitude _ hbits]
  have hbounded : z.isFinite = true := by rw [← hz, isFinite_ofMagnitude _ hfinite]
  have hvalue : z.value = x.value * 2 ^ 54 := by
    refine value_eq_mul hsign ?_
    rw [hmagnitude, hunits, valueOf_mul, unitsOf_of_lt hlt, Nat.cast_pow, Nat.cast_ofNat]
  have hproduct : x * p = z := by
    refine mul_eq_of_value ?_ hp.isFinite hbounded ?_ ?_
    · exact decide_eq_true (hlt.trans (by decide))
    · rw [hsign, hp.isNegative, Bool.xor_false]
    · rw [hvalue, hp.value]
      rfl
  rw [hproduct, hmagnitude]
  refine ⟨hbounded, hsign, hvalue, ?_⟩
  rw [hm]
  exact hlow.trans (Nat.le_add_left _ _)

/-- The digits that a double was given before it was split are taken from its exponent. -/
theorem IsSplit.of_mul {x y m : Double} {e : ℤ} {k : ℕ} (h : IsSplit y m e) (hne : x.value ≠ 0)
    (hsign : y.isNegative = x.isNegative) (hvalue : y.value = x.value * 2 ^ k) :
    IsSplit x m (e - k) := by
  have hpow : (2 : ℚ) ^ k ≠ 0 := by positivity
  have hney : y.value ≠ 0 := by
    rw [hvalue]
    exact mul_ne_zero hne hpow
  constructor
  case isFinite => exact h.isFinite
  case isNegative => exact h.isNegative.trans hsign
  case value =>
    rw [zpow_sub₀ two_ne_zero, zpow_natCast, ← mul_div_assoc, ← h.value, hvalue,
      mul_div_cancel_right₀ _ hpow]
  case low => exact fun _ => h.low hney
  case high => exact h.high
  case exponent_eq_zero => exact fun hzero => absurd hzero hne

theorem fractionExponent_of_le (power : ℤ → Double) {x : Double} (hx : x.isFinite = true)
    (hnormal : fractionCount ≤ x.magnitude) : fractionExponent power x = splitFields x := by
  have hzero : x.magnitude ≠ 0 := by
    have : 0 < fractionCount := by decide
    omega
  have hsmall : ¬ x.magnitude < fractionCount := Nat.not_lt.mpr hnormal
  simp only [fractionExponent, hzero, hx, hsmall, decide_false, Bool.not_true, Bool.or_self,
    Bool.false_eq_true, if_false]

/-- A double below the normal ones is split as the greater double with `54` more digits is. -/
theorem fractionExponent_of_lt {power : ℤ → Double} (hpower : IsPowerOfTwo (power 54) 54)
    {x : Double} (hx : x.isFinite = true) (hne : x.magnitude ≠ 0)
    (hlt : x.magnitude < fractionCount) :
    fractionExponent power x =
      ((fractionExponent power (x * power 54)).1,
        (fractionExponent power (x * power 54)).2 - 54) := by
  obtain ⟨hfinite, -, -, hnormal⟩ := mul_power_of_lt hpower hne hlt
  rw [fractionExponent_of_le power hfinite hnormal]
  simp only [fractionExponent, hne, hx, hlt, decide_false, Bool.not_true, Bool.or_self,
    Bool.false_eq_true, if_false, if_true]

/-- Every finite double is split exactly, if the power for the subnormal ones is right. -/
theorem isSplit_fractionExponent {power : ℤ → Double} (hpower : IsPowerOfTwo (power 54) 54)
    {x : Double} (hx : x.isFinite = true) :
    IsSplit x (fractionExponent power x).1 (fractionExponent power x).2 := by
  rcases Nat.lt_or_ge x.magnitude fractionCount with hsmall | hnormal
  · by_cases hzero : x.magnitude = 0
    · have hvalue := (value_eq_zero_iff x).mpr hzero
      have hown : fractionExponent power x = (x, 0) := by
        simp only [fractionExponent, hzero, decide_true, Bool.true_or, if_true]
      rw [hown]
      constructor
      case isFinite => exact hx
      case isNegative => rfl
      case value => rw [hvalue, zero_mul]
      case low => exact fun hne => absurd hvalue hne
      case high =>
        rw [hvalue, abs_zero]
        exact one_pos
      case exponent_eq_zero => exact fun _ => rfl
    · have hvalue : x.value ≠ 0 := fun h => hzero ((value_eq_zero_iff x).mp h)
      obtain ⟨hfinite, hsign, hscaled, hnormal⟩ := mul_power_of_lt hpower hzero hsmall
      rw [fractionExponent_of_lt hpower hx hzero hsmall,
        fractionExponent_of_le power hfinite hnormal]
      exact (isSplit_splitFields hnormal).of_mul hvalue hsign hscaled
  · rw [fractionExponent_of_le power hx hnormal]
    exact isSplit_splitFields hnormal

/-- Three is three quarters of four. -/
example : fractionExponent powerOfTwo (ofInt (-3)) = (⟨0xbfe8000000000000⟩, 2) := by
  decide +kernel

/-! ## Exponents -/

/-- A finite double other than zero is at least one unit, and less than the infinite magnitude. -/
theorem abs_value_bounds {x : Double} (hx : x.isFinite = true) (hne : x.value ≠ 0) :
    2 ^ (-1074 : ℤ) ≤ |x.value| ∧ |x.value| < 2 ^ (1024 : ℤ) := by
  have hpos := Decimal.cast_unitsPerOne_pos
  have hone : (unitsPerOne : ℚ) = 2 ^ (1074 : ℤ) := by
    rw [unitsPerOne_eq_pow, Nat.cast_pow, Nat.cast_ofNat]
    exact (zpow_natCast 2 1074).symm
  have hmost : unitsOf infinityBits = 2 ^ 2098 := unitsOf_powerMagnitude 2098
  have hunit : unitsOf 0 < unitsOf x.magnitude :=
    unitsOf_strictMono (Nat.pos_of_ne_zero fun h => hne ((value_eq_zero_iff x).mpr h))
  have hless : unitsOf x.magnitude < unitsOf infinityBits :=
    unitsOf_strictMono (of_decide_eq_true hx)
  rw [abs_value, Decimal.valueOf, le_div_iff₀ hpos, div_lt_iff₀ hpos, hone, ← zpow_add₀ two_ne_zero,
    ← zpow_add₀ two_ne_zero]
  constructor
  · rw [neg_add_cancel, zpow_zero]
    exact_mod_cast hunit
  · have hplace : (1024 : ℤ) + 1074 = (2098 : ℕ) := rfl
    rw [hmost] at hless
    have hcast := Nat.cast_lt (α := ℚ).mpr hless
    rwa [Nat.cast_pow, Nat.cast_ofNat, ← zpow_natCast, ← hplace] at hcast

namespace IsSplit

variable {x m : Double} {e : ℤ}

/-- The exponent is that of the least power of two above the double. -/
theorem lt_zpow_iff (h : IsSplit x m e) (hne : x.value ≠ 0) (k : ℤ) :
    |x.value| < 2 ^ k ↔ e ≤ k := by
  have hpow : (0 : ℚ) < 2 ^ e := by positivity
  have habs : |x.value| = |m.value| * 2 ^ e := by rw [h.value, abs_mul, abs_of_pos hpow]
  have hlow : 2 ^ (e - 1) ≤ |x.value| := by
    rw [habs, zpow_sub_one₀ two_ne_zero, mul_comm, ← one_div]
    exact mul_le_mul_of_nonneg_right (h.low hne) hpow.le
  have hhigh : |x.value| < 2 ^ e := by
    rw [habs]
    exact mul_lt_of_lt_one_left hpow h.high
  constructor
  · intro hlt
    have := (zpow_lt_zpow_iff_right₀ one_lt_two).mp (hlow.trans_lt hlt)
    omega
  · exact fun hle => hhigh.trans_le (zpow_le_zpow_right₀ one_le_two hle)

theorem bounds (h : IsSplit x m e) (hx : x.isFinite = true) : -1073 ≤ e ∧ e ≤ 1024 := by
  by_cases hne : x.value = 0
  · rw [h.exponent_eq_zero hne]
    decide
  · obtain ⟨hlow, hhigh⟩ := abs_value_bounds hx hne
    have := (h.lt_zpow_iff hne (-1074)).not.mp hlow.not_gt
    exact ⟨by omega, (h.lt_zpow_iff hne 1024).mp hhigh⟩

/-! ## Scaling -/

theorem mul_power (h : IsSplit x m e) (hx : x.isFinite = true) {p : Double}
    (hp : IsPowerOfTwo p e) : m * p = x := by
  refine mul_eq_of_value h.isFinite hp.isFinite hx ?_ ?_
  · rw [h.isNegative, hp.isNegative, Bool.xor_false]
  · rw [hp.value, h.value]

/-- No exponent of a finite double is brought into range before the fraction is scaled. -/
theorem scaleByPower_eq (h : IsSplit x m e) (hx : x.isFinite = true) (power : ℤ → Double) :
    scaleByPower power m e = m * power e := by
  obtain ⟨hlow, hhigh⟩ := h.bounds hx
  have hclamp : max (-exponentBound) (min exponentBound e) = e := by
    rw [exponentBound]
    omega
  rw [scaleByPower, hclamp]

/-- Scaling restores the double that was split, or overflows from `2 ^ 1023` on. -/
theorem scaleByPower_of_le (h : IsSplit x m e) (hx : x.isFinite = true) {power : ℤ → Double}
    {least : ℤ} (hpower : PowersOfTwo power least) (hleast : least ≤ e) :
    scaleByPower power m e = if |x.value| < 2 ^ 1023 then x else infinity x.isNegative := by
  have hgreatest : |x.value| < 2 ^ 1023 ↔ e ≤ 1023 := by
    by_cases hne : x.value = 0
    · rw [h.exponent_eq_zero hne, hne, abs_zero]
      exact iff_of_true (by positivity) (by decide)
    · exact h.lt_zpow_iff hne 1023
  rw [h.scaleByPower_eq hx]
  split
  · next hlt => exact h.mul_power hx (hpower.exact e hleast (hgreatest.mp hlt))
  · next hle =>
    have hinfinite : 1023 < e := Int.lt_of_not_ge (hgreatest.not.mp hle)
    have hne : m.value ≠ 0 := by
      intro hzero
      rw [h.exponent_eq_zero (by rw [h.value, hzero, zero_mul])] at hinfinite
      exact absurd hinfinite (by decide)
    rw [hpower.infinite e hinfinite, mul_infinity h.isFinite hne, h.isNegative]

/-- Scaled by a power of the machine, a double below `2 ^ (-1024)` is lost too. -/
theorem scaleByPower_powerOfTwo (h : IsSplit x m e) (hx : x.isFinite = true) :
    scaleByPower powerOfTwo m e =
      if x.value ≠ 0 ∧ |x.value| < 2 ^ (-1024 : ℤ) then zero x.isNegative
      else if |x.value| < 2 ^ 1023 then x else infinity x.isNegative := by
  split
  · next hlost =>
    have hlow := (h.lt_zpow_iff hlost.1 (-1024)).mp hlost.2
    rw [h.scaleByPower_eq hx, powerOfTwo_of_lt (by omega), mul_positiveZero h.isFinite,
      h.isNegative]
  · next hkept =>
    have hlow : -1023 ≤ e := by
      by_cases hne : x.value = 0
      · rw [h.exponent_eq_zero hne]
        decide
      · have := (h.lt_zpow_iff hne (-1024)).not.mp fun hlt => hkept ⟨hne, hlt⟩
        omega
    exact h.scaleByPower_of_le hx powersOfTwo_powerOfTwo hlow

end IsSplit

end Double

/-! ## Runs -/

theorem runMath_fractionExponent {args : List Value} {x : Double}
    (hx : Argument.number args 1 "frexp" = .ok x) (s : State) :
    Gives (runMath .fractionExponent args) s
      [.number (Double.fractionExponent Double.powerOfTwo x).1,
        .ofInt (Double.fractionExponent Double.powerOfTwo x).2] s :=
  (gives_lift hx s).bind (gives_pure _ s)

theorem runMath_scale {args : List Value} {x : Double} {e : ℤ}
    (hx : Argument.number args 1 "ldexp" = .ok x) (he : Argument.integer args 2 "ldexp" = .ok e)
    (s : State) :
    Gives (runMath .scale args) s [.number (scaleByPower Double.powerOfTwo x e)] s :=
  (gives_lift hx s).bind ((gives_lift he s).bind (gives_pure _ s))

/-- An exponent is read back from the number that stands for it. -/
theorem integer_ofInt {x : Value} {e : ℤ} (h : e.natAbs ≤ 2 ^ 53) (function : String) :
    Argument.integer [x, .ofInt e] 2 function = .ok e := by
  have hsaturate : Value.saturate e = e := by
    rw [Value.saturate, Value.leastInteger, Value.greatestInteger]
    omega
  have hread : (Value.ofInt e).toInteger? = some e := by
    show ((Double.ofInt e).toInt?).map Value.saturate = some e
    rw [Double.toInt?_ofInt h, Option.map_some, hsaturate]
  have hargs : (Argument.get? [x, .ofInt e] 2).bind Value.toInteger? = some e := hread
  rw [Argument.integer, hargs]

/-- Every finite double is split exactly.  With the powers of two rounded correctly, scaling
restores the doubles below `2 ^ 1023`, normal or subnormal, and overflows for all others.  With
those of the machine, it also loses the doubles below `2 ^ (-1024)`. -/
theorem scaling_restores_below_greatest_power {x : Double} (hx : x.isFinite = true) :
    (∀ power, Double.PowersOfTwo power (-1074) →
      ∃ m e, Double.fractionExponent power x = (m, e) ∧ x.IsSplit m e ∧
        scaleByPower power m e =
          if |x.value| < 2 ^ 1023 then x else Double.infinity x.isNegative) ∧
    ∃ m e, x.IsSplit m e ∧ ∀ s,
      Gives (runMath .fractionExponent [.number x]) s [.number m, .ofInt e] s ∧
      Gives (runMath .scale [.number m, .ofInt e]) s
        [.number (if x.value ≠ 0 ∧ |x.value| < 2 ^ (-1024 : ℤ) then Double.zero x.isNegative
          else if |x.value| < 2 ^ 1023 then x else Double.infinity x.isNegative)] s := by
  constructor
  · intro power hpower
    have hsplit := Double.isSplit_fractionExponent (hpower.exact 54 (by decide) (by decide)) hx
    obtain ⟨hlow, -⟩ := hsplit.bounds hx
    exact ⟨_, _, rfl, hsplit, hsplit.scaleByPower_of_le hx hpower (by omega)⟩
  · have hpower := Double.powersOfTwo_powerOfTwo.exact 54 (by decide) (by decide)
    have hsplit := Double.isSplit_fractionExponent hpower hx
    obtain ⟨hlow, hhigh⟩ := hsplit.bounds hx
    refine ⟨_, _, hsplit, fun s => ⟨runMath_fractionExponent rfl s, ?_⟩⟩
    rw [← hsplit.scaleByPower_powerOfTwo hx]
    exact runMath_scale rfl (integer_ofInt (by omega) "ldexp") s

/-- The least positive double. -/
def leastDouble : Double := ⟨1⟩

/-- The least positive double is restored by powers that are rounded correctly, and lost by those of
the machine. -/
theorem leastDouble_is_restored :
    leastDouble.isFinite = true ∧ Double.PowersOfTwo Double.nearestPower (-1074) ∧
      (∃ m e, Double.fractionExponent Double.nearestPower leastDouble = (m, e) ∧
        leastDouble.IsSplit m e ∧ scaleByPower Double.nearestPower m e = leastDouble) ∧
      ∃ m e, leastDouble.IsSplit m e ∧ ∀ s,
        Gives (runMath .fractionExponent [.number leastDouble]) s [.number m, .ofInt e] s ∧
        Gives (runMath .scale [.number m, .ofInt e]) s [.number (.zero false)] s := by
  have hfinite : leastDouble.isFinite = true := by decide
  have hpowers := Double.powersOfTwo_nearestPower
  have hsmall : leastDouble.value ≠ 0 ∧ |leastDouble.value| < 2 ^ (-1024 : ℤ) := by decide +kernel
  have hless : |leastDouble.value| < 2 ^ 1023 := by decide +kernel
  obtain ⟨hnearest, hmachine⟩ := scaling_restores_below_greatest_power hfinite
  have hrestored := hnearest Double.nearestPower hpowers
  rw [if_pos hless] at hrestored
  rw [if_pos hsmall] at hmachine
  exact ⟨hfinite, hpowers, hrestored, hmachine⟩

/-- The greatest power of two that is a double. -/
def greatestPower : Double := ⟨0x7fe0000000000000⟩

/-- The greatest power of two is a half, to be multiplied by the power after it, and that is no
double. -/
theorem greatestPower_is_lost :
    greatestPower.isFinite = true ∧ ∀ power, Double.PowersOfTwo power (-1074) →
      Double.fractionExponent power greatestPower = (⟨0x3fe0000000000000⟩, 1024) ∧
        scaleByPower power ⟨0x3fe0000000000000⟩ 1024 ≠ greatestPower := by
  refine ⟨by decide, fun power hpower => ⟨rfl, ?_⟩⟩
  have hhalf : (⟨0x3fe0000000000000⟩ : Double).isFinite = true := by decide
  have hne : (⟨0x3fe0000000000000⟩ : Double).value ≠ 0 := by
    rw [ne_eq, Double.value_eq_zero_iff]
    decide
  have hclamp : max (-exponentBound) (min exponentBound 1024) = 1024 := by decide
  rw [scaleByPower, hclamp, hpower.infinite 1024 (by decide), Double.mul_infinity hhalf hne]
  decide

end LuaRuntime
