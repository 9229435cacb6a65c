import LuaRuntime.Number.Exact
import Mathlib.Order.Monotone.Basic
import Mathlib.Tactic.Ring

/-!
# Units and places of doubles

A finite magnitude counts units, and a greater magnitude counts more of them
(`unitsOf_strictMono`).  So a magnitude is known from its units, and an integer magnitude from
its integer part.  Every natural number up to `2 ^ 53` is the integer part of the double that
`ofNat` makes of it (`unitsOf_magnitudeOfNat`).

The rank of a double is `2 ^ 63` more than its magnitude, or less by it if the double is
negative.  Two doubles of one rank are the same or two zeros (`rank_eq_iff`), and `ofRank` goes
back to the one that is not negative zero.
-/

namespace LuaRuntime

namespace Double

/-! ## Units -/

theorem shift_of_lt {m : Nat} (h : m < fractionCount) : shift m = 0 := by
  rw [shift, Nat.div_eq_of_lt h]

theorem significand_of_lt {m : Nat} (h : m < fractionCount) : significand m = m := by
  simp only [significand, if_pos h]
  exact Nat.mod_eq_of_lt h

/-- A magnitude by its fields: an exponent from 1 on and a fraction. -/
theorem unitsOf_fields {e f : Nat} (hf : f < fractionCount) :
    unitsOf ((e + 1) * fractionCount + f) = (fractionCount + f) * 2 ^ e := by
  have hF : 0 < fractionCount := by decide
  have hdiv : ((e + 1) * fractionCount + f) / fractionCount = e + 1 := by
    rw [Nat.mul_comm, Nat.mul_add_div hF, Nat.div_eq_of_lt hf, Nat.add_zero]
  have hmod : ((e + 1) * fractionCount + f) % fractionCount = f := by
    rw [Nat.mul_comm, Nat.mul_add_mod, Nat.mod_eq_of_lt hf]
  have hnot : ¬ (e + 1) * fractionCount + f < fractionCount := by
    rw [Nat.add_one_mul]
    omega
  simp only [unitsOf, significand, shift, hdiv, hmod, if_neg hnot, Nat.add_sub_cancel]
  rfl

theorem unitsOf_of_lt {m : Nat} (h : m < fractionCount) : unitsOf m = m := by
  simp [unitsOf, shift_of_lt h, significand_of_lt h]

/-- Every magnitude is below the normal ones or has fields. -/
theorem magnitude_cases (m : Nat) :
    m < fractionCount ∨ ∃ e f, f < fractionCount ∧ m = (e + 1) * fractionCount + f := by
  have hF : 0 < fractionCount := by decide
  rcases Nat.lt_or_ge m fractionCount with h | h
  · exact Or.inl h
  · refine Or.inr ⟨m / fractionCount - 1, m % fractionCount, Nat.mod_lt _ hF, ?_⟩
    have hpos : 1 ≤ m / fractionCount := (Nat.one_le_div_iff hF).mpr h
    rw [Nat.sub_add_cancel hpos, Nat.mul_comm]
    exact (Nat.div_add_mod m fractionCount).symm

theorem unitsOf_lt_succ (m : Nat) : unitsOf m < unitsOf (m + 1) := by
  rcases magnitude_cases m with h | ⟨e, f, hf, rfl⟩
  · rcases Nat.lt_or_ge (m + 1) fractionCount with h' | h'
    · rw [unitsOf_of_lt h, unitsOf_of_lt h']
      exact Nat.lt_succ_self m
    · have hm : m + 1 = (0 + 1) * fractionCount + 0 := by omega
      rw [hm, unitsOf_of_lt h, unitsOf_fields (by decide)]
      simpa using h
  · rcases Nat.lt_or_ge (f + 1) fractionCount with h' | h'
    · rw [Nat.add_assoc, unitsOf_fields hf, unitsOf_fields h']
      exact Nat.mul_lt_mul_of_pos_right (by omega) (Nat.two_pow_pos e)
    · have hm : (e + 1) * fractionCount + f + 1 = (e + 1 + 1) * fractionCount + 0 := by
        rw [Nat.add_one_mul (e + 1)]
        omega
      rw [hm, unitsOf_fields hf, unitsOf_fields (by decide), Nat.pow_succ, Nat.mul_comm (2 ^ e),
        ← Nat.mul_assoc]
      exact Nat.mul_lt_mul_of_pos_right (by omega) (Nat.two_pow_pos e)

theorem unitsOf_strictMono : StrictMono unitsOf := strictMono_nat_of_lt_succ unitsOf_lt_succ

/-! ## Integer parts -/

theorem unitsPerOne_eq_pow : unitsPerOne = 2 ^ 1074 := by decide +kernel

theorem unitsPerOne_pos : 0 < unitsPerOne := by decide +kernel

/-- The digits before and behind the point of a magnitude that has some behind it. -/
theorem unitsPerOne_eq {m : Nat} (h : shift m ≤ 1074) :
    unitsPerOne = 2 ^ fractionLength m * 2 ^ shift m := by
  rw [unitsPerOne_eq_pow, fractionLength, Nat.pow_sub_mul_pow 2 h]

/-- A magnitude with no digits behind the point is a multiple of one. -/
theorem two_pow_shift_eq {m : Nat} (h : 1074 ≤ shift m) :
    2 ^ shift m = 2 ^ (shift m - 1074) * unitsPerOne := by
  rw [unitsPerOne_eq_pow, Nat.pow_sub_mul_pow 2 h]

theorem isWhole_iff_dvd (m : Nat) : isWhole m = true ↔ unitsPerOne ∣ unitsOf m := by
  rw [isWhole, beq_iff_eq]
  change significand m % 2 ^ fractionLength m = 0 ↔ unitsPerOne ∣ significand m * 2 ^ shift m
  rw [← Nat.dvd_iff_mod_eq_zero]
  rcases Nat.le_total (shift m) 1074 with h | h
  · rw [unitsPerOne_eq h]
    exact (Nat.mul_dvd_mul_iff_right (Nat.two_pow_pos _)).symm
  · have hzero : fractionLength m = 0 := Nat.sub_eq_zero_of_le h
    have hdvd : unitsPerOne ∣ 2 ^ shift m := ⟨_, (two_pow_shift_eq h).trans (Nat.mul_comm _ _)⟩
    simp [hzero, Dvd.dvd.mul_left hdvd]

theorem wholeOf_eq_div (m : Nat) : wholeOf m = unitsOf m / unitsPerOne := by
  change significand m * 2 ^ (shift m - 1074) / 2 ^ fractionLength m
    = significand m * 2 ^ shift m / unitsPerOne
  rcases Nat.le_total (shift m) 1074 with h | h
  · rw [unitsPerOne_eq h, Nat.mul_div_mul_right _ _ (Nat.two_pow_pos _),
      Nat.sub_eq_zero_of_le h, Nat.pow_zero, Nat.mul_one]
  · have hzero : fractionLength m = 0 := Nat.sub_eq_zero_of_le h
    rw [hzero, two_pow_shift_eq h, ← Nat.mul_assoc, Nat.mul_div_cancel _ unitsPerOne_pos,
      Nat.pow_zero, Nat.div_one]

theorem unitsOf_of_isWhole {m : Nat} (h : isWhole m = true) :
    unitsOf m = wholeOf m * unitsPerOne := by
  rw [wholeOf_eq_div, Nat.div_mul_cancel ((isWhole_iff_dvd m).mp h)]

/-! ## Doubles of natural numbers -/

theorem two_pow_log2_mul {n : Nat} (hn : n ≠ 0) (h : n.log2 ≤ 52) :
    fractionCount ≤ n * 2 ^ (52 - n.log2) ∧ n * 2 ^ (52 - n.log2) < 2 * fractionCount := by
  have hF : fractionCount = 2 ^ n.log2 * 2 ^ (52 - n.log2) := by
    rw [Nat.mul_comm, Nat.pow_sub_mul_pow 2 h]
    rfl
  have hpos : 0 < 2 ^ (52 - n.log2) := Nat.two_pow_pos _
  constructor
  · rw [hF]
    exact Nat.mul_le_mul_right _ (Nat.log2_self_le hn)
  · rw [hF, ← Nat.mul_assoc, Nat.mul_comm 2, ← Nat.pow_succ]
    exact Nat.mul_lt_mul_of_pos_right Nat.lt_log2_self hpos

/-- The magnitude of a natural number with at most 53 binary digits, by its fields. -/
theorem magnitudeOfNat_fields {n : Nat} (hn : n ≠ 0) (h : n.log2 ≤ 52) :
    magnitudeOfNat n =
      (n.log2 + 1022 + 1) * fractionCount + (n * 2 ^ (52 - n.log2) - fractionCount) := by
  obtain ⟨hlow, hhigh⟩ := two_pow_log2_mul hn h
  have hinf : infinityBits = 2047 * fractionCount := rfl
  have hpow : Nat.pow 2 (52 - n.log2) = 2 ^ (52 - n.log2) := rfl
  simp only [magnitudeOfNat, if_neg hn, if_pos h, hpow]
  rw [Nat.add_one_mul (n.log2 + 1022), Nat.min_eq_left]
  · omega
  · rw [hinf]
    have : (n.log2 + 1022) * fractionCount ≤ 1074 * fractionCount :=
      Nat.mul_le_mul_right _ (by omega)
    omega

theorem magnitudeOfNat_greatest :
    magnitudeOfNat (2 ^ 53) = (1075 + 1) * fractionCount + 0 := by decide +kernel

/-- A natural number up to `2 ^ 53` is a double. -/
theorem unitsOf_magnitudeOfNat {n : Nat} (h : n ≤ 2 ^ 53) :
    unitsOf (magnitudeOfNat n) = n * unitsPerOne := by
  rcases Nat.eq_zero_or_pos n with rfl | hpos
  · decide +kernel
  rcases Nat.lt_or_eq_of_le h with hlt | rfl
  · have hn : n ≠ 0 := by omega
    have hlog : n.log2 ≤ 52 := Nat.le_of_lt_succ ((Nat.log2_lt hn).mpr hlt)
    obtain ⟨hlow, hhigh⟩ := two_pow_log2_mul hn hlog
    have hexp : 52 - n.log2 + (n.log2 + 1022) = 1074 := by omega
    rw [magnitudeOfNat_fields hn hlog, unitsOf_fields (by omega), Nat.add_sub_cancel' hlow,
      unitsPerOne_eq_pow, ← hexp, Nat.pow_add _ (52 - n.log2), ← Nat.mul_assoc]
  · have hdouble (k : Nat) : (fractionCount + 0) * 2 ^ (k + 1) = 2 ^ 53 * 2 ^ k := by
      rw [Nat.pow_succ, show fractionCount = 2 ^ 52 from rfl]
      omega
    rw [magnitudeOfNat_greatest, unitsOf_fields (by decide), hdouble 1074, unitsPerOne_eq_pow]

theorem magnitudeOfNat_lt {n : Nat} (h : n ≤ 2 ^ 53) : magnitudeOfNat n < infinityBits := by
  refine unitsOf_strictMono.lt_iff_lt.mp ?_
  rw [unitsOf_magnitudeOfNat h]
  calc n * unitsPerOne ≤ 2 ^ 53 * unitsPerOne := Nat.mul_le_mul_right _ h
    _ < unitsOf infinityBits := by decide +kernel

/-- A greater natural number has a greater magnitude, as long as both are doubles. -/
theorem magnitudeOfNat_lt_iff {m n : Nat} (hm : m ≤ 2 ^ 53) (hn : n ≤ 2 ^ 53) :
    magnitudeOfNat m < magnitudeOfNat n ↔ m < n := by
  rw [← unitsOf_strictMono.lt_iff_lt, unitsOf_magnitudeOfNat hm, unitsOf_magnitudeOfNat hn]
  exact Nat.mul_lt_mul_right unitsPerOne_pos

theorem isWhole_magnitudeOfNat {n : Nat} (h : n ≤ 2 ^ 53) :
    isWhole (magnitudeOfNat n) = true := by
  rw [isWhole_iff_dvd, unitsOf_magnitudeOfNat h]
  exact Nat.dvd_mul_left _ _

theorem wholeOf_magnitudeOfNat {n : Nat} (h : n ≤ 2 ^ 53) :
    wholeOf (magnitudeOfNat n) = n := by
  rw [wholeOf_eq_div, unitsOf_magnitudeOfNat h, Nat.mul_div_cancel _ unitsPerOne_pos]

/-- An integer magnitude up to `2 ^ 53` is the one of its integer part. -/
theorem eq_magnitudeOfNat {m n : Nat} (hw : isWhole m = true) (hn : wholeOf m = n)
    (h : n ≤ 2 ^ 53) : m = magnitudeOfNat n := by
  refine unitsOf_strictMono.injective ?_
  rw [unitsOf_of_isWhole hw, hn, unitsOf_magnitudeOfNat h]

/-! ## Sign and magnitude -/

theorem signBit_toNat : signBit.toNat = 2 ^ 63 := rfl

theorem magnitude_lt (x : Double) : x.magnitude < 2 ^ 63 := by
  rw [magnitude, UInt64.toNat_mod, signBit_toNat]
  exact Nat.mod_lt _ (Nat.two_pow_pos 63)

theorem isNegative_iff (x : Double) : x.isNegative = true ↔ 2 ^ 63 ≤ x.bits.toNat := by
  rw [isNegative, decide_eq_true_iff, UInt64.le_iff_toNat_le, signBit_toNat]

theorem magnitude_eq_mod (x : Double) : x.magnitude = x.bits.toNat % 2 ^ 63 := by
  rw [magnitude, UInt64.toNat_mod, signBit_toNat]

/-- The bits are the sign above the magnitude. -/
theorem toNat_bits (x : Double) :
    x.bits.toNat = (if x.isNegative then 2 ^ 63 else 0) + x.magnitude := by
  have hlt := x.bits.toNat_lt
  have hneg := isNegative_iff x
  rw [magnitude_eq_mod]
  cases h : x.isNegative with
  | true =>
    have := hneg.mp h
    simp only [if_true]
    omega
  | false =>
    have : ¬ 2 ^ 63 ≤ x.bits.toNat := fun hle => by simp [hneg.mpr hle] at h
    simp only [Bool.false_eq_true, if_false]
    omega

theorem eq_of_magnitude_eq {x y : Double} (hs : x.isNegative = y.isNegative)
    (hm : x.magnitude = y.magnitude) : x = y := by
  have : x.bits = y.bits := by
    rw [← UInt64.toNat_inj, toNat_bits, toNat_bits, hs, hm]
  cases x
  cases y
  simpa using this

theorem toNat_bits_ofMagnitude (negative : Bool) {m : Nat} (h : m < 2 ^ 63) :
    (ofMagnitude negative m).bits.toNat = (if negative then 2 ^ 63 else 0) + m := by
  cases negative with
  | true =>
    simp only [ofMagnitude, if_true, UInt64.toNat_add, UInt64.toNat_ofNat', signBit_toNat]
    omega
  | false =>
    simp only [ofMagnitude, Bool.false_eq_true, if_false, UInt64.toNat_ofNat']
    omega

@[simp] theorem magnitude_ofMagnitude (negative : Bool) {m : Nat} (h : m < 2 ^ 63) :
    (ofMagnitude negative m).magnitude = m := by
  rw [magnitude_eq_mod, toNat_bits_ofMagnitude negative h]
  cases negative <;> simp <;> omega

@[simp] theorem isNegative_ofMagnitude (negative : Bool) {m : Nat} (h : m < 2 ^ 63) :
    (ofMagnitude negative m).isNegative = negative := by
  have hiff := isNegative_iff (ofMagnitude negative m)
  rw [toNat_bits_ofMagnitude negative h] at hiff
  cases negative with
  | true => exact hiff.mpr (by simp)
  | false =>
    rw [← Bool.not_eq_true, hiff]
    simpa using h

/-- A double is put together again from its sign and its magnitude. -/
theorem ofMagnitude_magnitude (x : Double) : ofMagnitude x.isNegative x.magnitude = x :=
  eq_of_magnitude_eq (isNegative_ofMagnitude _ (magnitude_lt x))
    (magnitude_ofMagnitude _ (magnitude_lt x))

/-! ## Rank -/

theorem toNat_rank (x : Double) :
    x.rank.toNat = if x.isNegative then 2 ^ 63 - x.magnitude else 2 ^ 63 + x.magnitude := by
  have hm := magnitude_lt x
  have hb := toNat_bits x
  cases h : x.isNegative with
  | true =>
    simp only [rank, h, if_true]
    rw [UInt64.toNat_sub_of_le]
    · rfl
    · rw [UInt64.le_iff_toNat_le, signBit_toNat]
      exact Nat.le_of_lt hm
  | false =>
    simp only [rank, h, Bool.false_eq_true, if_false] at hb ⊢
    rw [UInt64.toNat_add, signBit_toNat, hb]
    omega

/-- Two doubles of one rank are the same, or both are zero. -/
theorem rank_eq_iff (x y : Double) :
    x.rank = y.rank ↔ x = y ∨ (x.magnitude = 0 ∧ y.magnitude = 0) := by
  have hx := magnitude_lt x
  have hy := magnitude_lt y
  rw [← UInt64.toNat_inj, toNat_rank, toNat_rank]
  constructor
  · intro h
    cases hsx : x.isNegative <;> cases hsy : y.isNegative <;>
      simp only [hsx, hsy, if_true, Bool.false_eq_true, if_false] at h
    · exact Or.inl (eq_of_magnitude_eq (hsx.trans hsy.symm) (by omega))
    · exact Or.inr (by omega)
    · exact Or.inr (by omega)
    · exact Or.inl (eq_of_magnitude_eq (hsx.trans hsy.symm) (by omega))
  · rintro (rfl | ⟨h0, h0'⟩)
    · rfl
    · simp [h0, h0']

/-- The double at the rank of another one is that one, or zero if that is negative zero. -/
theorem ofRank_rank (x : Double) :
    ofRank x.rank = if x.magnitude = 0 then zero false else x := by
  have hm := magnitude_lt x
  have hr := toNat_rank x
  have hrank : (ofRank x.rank).magnitude = x.magnitude ∧
      (ofRank x.rank).isNegative = (x.isNegative && x.magnitude != 0) := by
    cases hs : x.isNegative with
    | false =>
      simp only [hs, Bool.false_eq_true, if_false] at hr
      have hle : signBit ≤ x.rank := by
        rw [UInt64.le_iff_toNat_le, signBit_toNat, hr]
        omega
      have hsub : (x.rank - signBit).toNat = x.magnitude := by
        rw [UInt64.toNat_sub_of_le _ _ hle, hr, signBit_toNat]
        omega
      simp [ofRank, hle, hsub, magnitude_ofMagnitude _ hm, isNegative_ofMagnitude _ hm]
    | true =>
      simp only [hs, if_true] at hr
      by_cases h0 : x.magnitude = 0
      · have hrank : x.rank = signBit := by
          rw [← UInt64.toNat_inj, hr, h0]
          rfl
        rw [hrank, h0]
        decide
      · have hlt : ¬ signBit ≤ x.rank := by
          rw [UInt64.le_iff_toNat_le, signBit_toNat, hr]
          omega
        have hsub : (signBit - x.rank).toNat = x.magnitude := by
          rw [UInt64.toNat_sub_of_le, hr, signBit_toNat]
          · omega
          · rw [UInt64.le_iff_toNat_le, signBit_toNat, hr]
            omega
        simp [ofRank, hlt, hsub, magnitude_ofMagnitude _ hm, isNegative_ofMagnitude _ hm, h0]
  split
  · next h0 =>
    refine eq_of_magnitude_eq ?_ ?_
    · rw [hrank.2, h0]
      simp [zero]
    · rw [hrank.1, h0]
      simp [zero]
  · next h0 =>
    refine eq_of_magnitude_eq ?_ hrank.1
    rw [hrank.2]
    simp [h0]

@[simp] theorem rank_ofRank_rank (x : Double) : (ofRank x.rank).rank = x.rank := by
  rw [rank_eq_iff, ofRank_rank]
  split
  · next h0 => exact Or.inr ⟨by simp [zero], h0⟩
  · exact Or.inl rfl

@[simp] theorem magnitude_ofRank_rank (x : Double) :
    (ofRank x.rank).magnitude = x.magnitude := by
  rw [ofRank_rank]
  split
  · next h0 => simp [zero, h0]
  · rfl

@[simp] theorem isNaN_ofRank_rank (x : Double) : (ofRank x.rank).isNaN = x.isNaN := by
  rw [isNaN, magnitude_ofRank_rank, isNaN]

/-! ## Comparison -/

theorem isNaN_iff (x : Double) : x.isNaN = true ↔ infinityBits < x.magnitude := by
  rw [isNaN, decide_eq_true_iff]

theorem equal_iff (x y : Double) :
    x.equal y = true ↔ x.isNaN = false ∧ y.isNaN = false ∧ x.rank = y.rank := by
  simp [equal, and_assoc]

theorem less_iff (x y : Double) :
    x.less y = true ↔ x.isNaN = false ∧ y.isNaN = false ∧ x.rank < y.rank := by
  simp [less, and_assoc]

theorem lessEqual_iff (x y : Double) :
    x.lessEqual y = true ↔ x.isNaN = false ∧ y.isNaN = false ∧ x.rank ≤ y.rank := by
  simp [lessEqual, and_assoc]

/-! ## Doubles of natural numbers -/

section

variable {n : Nat} (h : n ≤ 2 ^ 53)
include h

theorem magnitude_ofNat : (ofNat n).magnitude = magnitudeOfNat n :=
  magnitude_ofMagnitude false (Nat.lt_trans (magnitudeOfNat_lt h) (by decide))

theorem isNegative_ofNat : (ofNat n).isNegative = false :=
  isNegative_ofMagnitude false (Nat.lt_trans (magnitudeOfNat_lt h) (by decide))

theorem isNaN_ofNat : (ofNat n).isNaN = false := by
  rw [← Bool.not_eq_true, isNaN_iff, magnitude_ofNat h]
  exact Nat.not_lt.mpr (Nat.le_of_lt (magnitudeOfNat_lt h))

theorem isFinite_ofNat : (ofNat n).isFinite = true := by
  rw [isFinite, decide_eq_true_iff, magnitude_ofNat h]
  exact magnitudeOfNat_lt h

theorem isIntegral_ofNat : (ofNat n).isIntegral = true := by
  rw [isIntegral, isFinite_ofNat h, magnitude_ofNat h, isWhole_magnitudeOfNat h]
  rfl

theorem toInt?_ofNat : (ofNat n).toInt? = some (n : Int) := by
  simp only [toInt?, isFinite_ofNat h, if_true, magnitude_ofNat h, wholeOf_magnitudeOfNat h,
    isNegative_ofNat h, Bool.false_eq_true, if_false]

end

end Double

end LuaRuntime
