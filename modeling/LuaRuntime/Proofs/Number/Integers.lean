import LuaRuntime.Proofs.Number.Units

/-!
# Integers that are doubles

An integer that is a double is the nearest double to itself (`equal_ofInt`), so a number and its
integer part name each other.  Up to `2 ^ 53` that is so because all integers are doubles.  From
there on a double has no digits behind the point, its significand is all of it but some zeros at
the end (`fields_of_whole`), and so it is even.
-/

namespace LuaRuntime

theorem roundHalfEven_mul (quotient : Nat) {denominator : Nat} (h : 0 < denominator) :
    roundHalfEven (quotient * denominator) denominator = quotient := by
  simp only [roundHalfEven, Nat.mul_mod_left, Nat.mul_zero, if_pos h, Nat.mul_div_cancel _ h]

namespace Double

/-! ## Great integers -/

/-- The fields of a magnitude whose integer part is `2 ^ 53` or more. -/
theorem fields_of_whole {m : Nat} (h : 2 ^ 53 ≤ wholeOf m) :
    ∃ k f, f < fractionCount ∧ m = (k + 1075 + 1) * fractionCount + f ∧
      wholeOf m = (fractionCount + f) * 2 ^ (k + 1) := by
  have hunits : unitsOf (magnitudeOfNat (2 ^ 53)) ≤ unitsOf m := by
    rw [unitsOf_magnitudeOfNat (Nat.le_refl _)]
    rw [wholeOf_eq_div] at h
    exact (Nat.le_div_iff_mul_le unitsPerOne_pos).mp h
  have hle := unitsOf_strictMono.le_iff_le.mp hunits
  rw [magnitudeOfNat_greatest] at hle
  rcases magnitude_cases m with hsmall | ⟨e, f, hf, rfl⟩
  · omega
  · have he : 1075 ≤ e := by
      by_contra hlt
      have : (e + 1) * fractionCount ≤ 1075 * fractionCount := Nat.mul_le_mul_right _ (by omega)
      omega
    obtain ⟨k, rfl⟩ := Nat.exists_eq_add_of_le' he
    refine ⟨k, f, hf, rfl, ?_⟩
    rw [wholeOf_eq_div, unitsOf_fields hf, unitsPerOne_eq_pow,
      show k + 1075 = k + 1 + 1074 by omega, Nat.pow_add, ← Nat.mul_assoc,
      Nat.mul_div_cancel _ (Nat.two_pow_pos 1074)]

/-- A double from `2 ^ 53` on is even. -/
theorem wholeOf_mod_two {m : Nat} (h : 2 ^ 53 ≤ wholeOf m) : wholeOf m % 2 = 0 := by
  obtain ⟨k, f, -, -, hwhole⟩ := fields_of_whole h
  rw [hwhole, Nat.pow_succ, ← Nat.mul_assoc, Nat.mul_mod_left]

/-- The magnitude of an integer is that of the nearest double to it. -/
theorem magnitudeOfNat_wholeOf {m : Nat} (hfinite : m < infinityBits) (hwhole : isWhole m = true) :
    magnitudeOfNat (wholeOf m) = m := by
  rcases Nat.lt_or_ge (2 ^ 53) (wholeOf m) with hfar | hnear
  · obtain ⟨k, f, hf, hm, hn⟩ := fields_of_whole (Nat.le_of_lt hfar)
    have hpos : wholeOf m ≠ 0 := by omega
    have hpow : 0 < 2 ^ (k + 1) := Nat.two_pow_pos _
    have hsignificand : fractionCount + f < 2 ^ 53 := by
      rw [show (2 : Nat) ^ 53 = fractionCount + fractionCount from rfl]
      omega
    have hlog : (wholeOf m).log2 = k + 53 := by
      rw [Nat.log2_eq_iff hpos, hn]
      constructor
      · calc 2 ^ (k + 53) = fractionCount * 2 ^ (k + 1) := by
              rw [show k + 53 = 52 + (k + 1) by omega, Nat.pow_add]
              rfl
          _ ≤ (fractionCount + f) * 2 ^ (k + 1) := Nat.mul_le_mul_right _ (by omega)
      · calc (fractionCount + f) * 2 ^ (k + 1) < 2 ^ 53 * 2 ^ (k + 1) :=
              Nat.mul_lt_mul_of_pos_right hsignificand hpow
          _ = 2 ^ (k + 53 + 1) := by rw [← Nat.pow_add]; congr 1; omega
    have hround : roundHalfEven (wholeOf m) (Nat.pow 2 (k + 53 - 52)) = fractionCount + f := by
      rw [hn, show k + 53 - 52 = k + 1 by omega]
      exact roundHalfEven_mul _ hpow
    simp only [magnitudeOfNat, if_neg hpos, hlog, if_neg (show ¬ k + 53 ≤ 52 by omega), hround]
    rw [Nat.min_eq_left] <;> rw [show k + 53 + 1022 = k + 1075 by omega] <;>
      rw [Nat.add_one_mul] at hm <;> omega
  · exact (eq_magnitudeOfNat hwhole rfl hnear).symm

/-! ## Integer parts -/

theorem ofInt_natCast (n : Nat) : ofInt n = ofNat n := by
  rw [ofInt, ofNat, Int.natAbs_natCast, decide_eq_false (by omega)]

theorem toInt?_eq_some_iff {x : Double} {i : Int} :
    x.toInt? = some i ↔ x.isFinite = true ∧
      i = if x.isNegative then -(wholeOf x.magnitude : Int) else wholeOf x.magnitude := by
  rw [toInt?]
  cases x.isFinite with
  | false => simp only [Bool.false_eq_true, if_false, false_and, reduceCtorEq]
  | true => simp only [if_true, true_and, Option.some.injEq, eq_comm]

theorem natAbs_of_toInt? {x : Double} {i : Int} (h : x.toInt? = some i) :
    i.natAbs = wholeOf x.magnitude := by
  obtain ⟨-, rfl⟩ := toInt?_eq_some_iff.mp h
  split <;> omega

theorem isNaN_of_isIntegral {x : Double} (h : x.isIntegral = true) : x.isNaN = false := by
  rw [isIntegral, Bool.and_eq_true, isFinite, decide_eq_true_iff] at h
  rw [← Bool.not_eq_true, isNaN_iff]
  omega

theorem magnitude_eq_zero_of_wholeOf {m : Nat} (hwhole : isWhole m = true) (h : wholeOf m = 0) :
    m = 0 := by
  refine unitsOf_strictMono.injective ?_
  rw [unitsOf_of_isWhole hwhole, h, Nat.zero_mul]
  rfl

/-- An integer that is a double is the nearest double to itself. -/
theorem equal_ofInt {x : Double} {i : Int} (hx : x.isIntegral = true) (hi : x.toInt? = some i) :
    x.equal (ofInt i) = true := by
  have hnan := isNaN_of_isIntegral hx
  rw [isIntegral, Bool.and_eq_true, isFinite, decide_eq_true_iff] at hx
  have hmagnitude : magnitudeOfNat i.natAbs = x.magnitude := by
    rw [natAbs_of_toInt? hi, magnitudeOfNat_wholeOf hx.1 hx.2]
  have hint : (ofInt i).magnitude = x.magnitude := by
    rw [ofInt, ofNatural, hmagnitude, magnitude_ofMagnitude _ (magnitude_lt x)]
  have hnan' : (ofInt i).isNaN = false := by rw [isNaN, hint, ← isNaN, hnan]
  refine (equal_iff x (ofInt i)).mpr ⟨hnan, hnan', (rank_eq_iff _ _).mpr ?_⟩
  by_cases h0 : x.magnitude = 0
  · exact Or.inr ⟨h0, hint.trans h0⟩
  · -- The integer is not zero, so its sign is that of the double.
    have hpos : wholeOf x.magnitude ≠ 0 := fun h => h0 (magnitude_eq_zero_of_wholeOf hx.2 h)
    refine Or.inl (eq_of_magnitude_eq ?_ hint.symm)
    rw [ofInt, ofNatural, hmagnitude, isNegative_ofMagnitude _ (magnitude_lt x)]
    obtain ⟨-, rfl⟩ := toInt?_eq_some_iff.mp hi
    cases x.isNegative with
    | false => simp
    | true =>
      simp only [if_true]
      rw [eq_comm, decide_eq_true_iff]
      omega

/-- The integer after one that is a double is none, from `2 ^ 53` on. -/
theorem even_of_toInt? {x : Double} {i : Int} (hi : x.toInt? = some i) (h : 2 ^ 53 ≤ i.natAbs) :
    2 ∣ i := by
  rw [natAbs_of_toInt? hi] at h
  have heven := wholeOf_mod_two h
  rw [← natAbs_of_toInt? hi] at heven
  omega

end Double

end LuaRuntime
