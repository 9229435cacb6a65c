import LuaRuntime.Number.Decimal
import LuaRuntime.Proofs.Number.Units
import Mathlib.Algebra.Order.Field.Power
import Mathlib.Algebra.Order.Field.Rat
import Mathlib.Tactic.Linarith
import Mathlib.Tactic.NormNum
import Mathlib.Tactic.Positivity
import Mathlib.Tactic.Ring

/-!
# Rounding to significant digits

`NearestEven` says what rounding to an integer is, for rational numbers and without a computation,
and `RoundsTo` what rounding to a number of significant digits is.  The decimal layouts of a number
round in two ways: the exponent layout keeps a number of significant digits, the fixed one a number
of digits after the point.  `scaled_eq_significand` says that both give the same digits if the
count of decimals is derived from the exponent after rounding, also where rounding up to the next
power of ten has moved that exponent.
-/

namespace LuaRuntime

/-! ## Nearest integers -/

/-- An integer is the nearest one to a number, or the even one of two that are as near. -/
structure NearestEven (q : ℚ) (k : ℤ) : Prop where
  near : |q - k| ≤ 1 / 2
  even : |q - k| = 1 / 2 → Even k

namespace NearestEven

variable {q r : ℚ} {k l : ℤ}

theorem mono (hk : NearestEven q k) (hl : NearestEven r l) (h : q ≤ r) : k ≤ l := by
  by_contra hlt
  have hle : (l : ℚ) + 1 ≤ k := by exact_mod_cast Int.not_le.mp hlt
  have hkbound := (abs_le.mp hk.near).1
  have hlbound := (abs_le.mp hl.near).2
  -- Both integers are half a unit away from one number, so both are even.
  have hsame : (k : ℚ) = l + 1 := by linarith
  have hkeven : Even k := hk.even (by rw [abs_of_neg] <;> linarith)
  have hleven : Even l := hl.even (by rw [abs_of_pos] <;> linarith)
  have hnext : k = l + 1 := by exact_mod_cast hsame
  obtain ⟨a, ha⟩ := hkeven
  obtain ⟨b, hb⟩ := hleven
  omega

theorem unique (hk : NearestEven q k) (hl : NearestEven q l) : k = l :=
  le_antisymm (hk.mono hl le_rfl) (hl.mono hk le_rfl)

theorem of_lt (h : |q - k| < 1 / 2) : NearestEven q k := ⟨h.le, fun heq => absurd heq h.ne⟩

theorem self (k : ℤ) : NearestEven k k := of_lt (by simp)

theorem neg (h : NearestEven q k) : NearestEven (-q) (-k) := by
  have habs : |-q - ((-k : ℤ) : ℚ)| = |q - k| := by
    rw [Int.cast_neg, ← abs_neg]
    congr 1
    ring
  refine ⟨habs ▸ h.near, fun heq => ?_⟩
  rw [habs] at heq
  exact (h.even heq).neg

/-- Rounding at the last digit of a multiple of ten decides rounding at the digit before. -/
theorem div_ten {n : ℕ} (h : NearestEven q ((n * 10 : ℕ) : ℤ)) : NearestEven (q / 10) n := by
  have hnear := abs_le.mp h.near
  push_cast at hnear
  refine of_lt ?_
  rw [Int.cast_natCast, abs_lt]
  constructor <;> linarith

end NearestEven

/-- `roundHalfEven` rounds a quotient to the nearest integer. -/
theorem nearestEven_roundHalfEven (n : ℕ) {d : ℕ} (hd : 0 < d) :
    NearestEven (n / d) (roundHalfEven n d) := by
  have hpos : (0 : ℚ) < d := by exact_mod_cast hd
  have hsplit : (n : ℚ) = d * (n / d : ℕ) + (n % d : ℕ) := by
    exact_mod_cast (Nat.div_add_mod n d).symm
  have hquotient : (n : ℚ) / d - (n / d : ℕ) = (n % d : ℕ) / d := by
    rw [eq_div_iff hpos.ne', sub_mul, div_mul_cancel₀ _ hpos.ne']
    linarith
  have hrest : (0 : ℚ) ≤ (n % d : ℕ) / d := by positivity
  simp only [roundHalfEven]
  split
  · next hlt =>
    refine .of_lt ?_
    rw [Int.cast_natCast, hquotient, abs_of_nonneg hrest, div_lt_div_iff₀ hpos two_pos]
    exact_mod_cast (by omega : n % d * 2 < 1 * d)
  · split
    · next hgt =>
      have hless : ((n % d : ℕ) : ℚ) / d < 1 := by
        rw [div_lt_one hpos]
        exact_mod_cast Nat.mod_lt n hd
      have hhalf : (1 : ℚ) / 2 < (n % d : ℕ) / d := by
        rw [div_lt_div_iff₀ two_pos hpos]
        exact_mod_cast (by omega : 1 * d < n % d * 2)
      refine .of_lt ?_
      rw [Int.cast_natCast, Nat.cast_add_one, ← sub_sub, hquotient, abs_of_neg (by linarith)]
      linarith
    · -- The number is half way between two integers.
      have hhalf : ((n % d : ℕ) : ℚ) / d = 1 / 2 := by
        rw [div_eq_div_iff hpos.ne' two_ne_zero]
        exact_mod_cast (by omega : n % d * 2 = 1 * d)
      rw [hhalf] at hquotient
      rcases Nat.mod_two_eq_zero_or_one (n / d) with heven | hodd
      · rw [heven, Nat.add_zero]
        refine ⟨?_, fun _ => ?_⟩
        · rw [Int.cast_natCast, hquotient, abs_of_pos (by norm_num)]
        · exact_mod_cast Nat.even_iff.mpr heven
      · rw [hodd]
        refine ⟨?_, fun _ => ?_⟩
        · rw [Int.cast_natCast, Nat.cast_add_one, ← sub_sub, hquotient]
          norm_num [abs_of_neg]
        · have : Even (n / d + 1) := Nat.even_iff.mpr (by omega)
          exact_mod_cast this

/-! ## Powers of ten -/

/-- A number is rounded to a number of significant digits, a tie going to the even digit. -/
def RoundsTo (digits : ℕ) (q r : ℚ) : Prop :=
  (q = 0 ∧ r = 0) ∨
    ∃ power k : ℤ, 10 ^ power ≤ |q| ∧ |q| < 10 ^ (power + 1) ∧
      NearestEven (q / 10 ^ (power + 1 - digits)) k ∧ r = k * 10 ^ (power + 1 - digits)

theorem RoundsTo.neg {digits : ℕ} {q r : ℚ} (h : RoundsTo digits q r) :
    RoundsTo digits (-q) (-r) := by
  rcases h with ⟨rfl, rfl⟩ | ⟨power, k, hlow, hhigh, hk, rfl⟩
  · exact .inl ⟨neg_zero, neg_zero⟩
  · refine .inr ⟨power, -k, by rwa [abs_neg], by rwa [abs_neg], ?_, ?_⟩
    · rw [neg_div]
      exact hk.neg
    · rw [Int.cast_neg, neg_mul]

/-- The decimal exponent of a number is that of its first digit.  Zero has exponent zero. -/
def HasExponent (q : ℚ) (power : ℤ) : Prop :=
  (q = 0 ∧ power = 0) ∨ (10 ^ power ≤ |q| ∧ |q| < 10 ^ (power + 1))

theorem HasExponent.neg {q : ℚ} {power : ℤ} (h : HasExponent q power) :
    HasExponent (-q) power := by
  rwa [HasExponent, abs_neg, neg_eq_zero]

namespace Decimal

/-- The number of which a magnitude is the count of units. -/
def valueOf (units : ℕ) : ℚ := units / unitsPerOne

theorem cast_unitsPerOne_pos : (0 : ℚ) < unitsPerOne := Nat.cast_pos.mpr Double.unitsPerOne_pos

theorem valueOf_zero : valueOf 0 = 0 := by rw [valueOf, Nat.cast_zero, zero_div]

theorem digitCount_spec {n : ℕ} (hn : 0 < n) :
    ∃ e, digitCount n = e + 1 ∧ 10 ^ e ≤ n ∧ n < 10 ^ (e + 1) := by
  have hlength : ∀ {k}, 0 < k → (digitCount n ≤ k ↔ n < 10 ^ k) := by
    intro k hk
    rw [digitCount, digits_eq_toDigits]
    exact Nat.length_toDigits_le_iff (by decide) hk
  have hpos : 0 < digitCount n := by
    rw [digitCount, digits_eq_toDigits]
    exact Nat.length_toDigits_pos
  refine ⟨digitCount n - 1, by omega, ?_, ?_⟩
  · rcases Nat.eq_zero_or_pos (digitCount n - 1) with hzero | hmore
    · rw [hzero]
      exact hn
    · have := (hlength hmore).not
      omega
  · rw [Nat.sub_add_cancel hpos]
    exact (hlength hpos).mp le_rfl

/-- The number of digits of a reciprocal, rounded up to the next integer and less one. -/
theorem reciprocal_spec {n d : ℕ} (hn : 0 < n) (hlt : n < d) :
    ∃ e, digitCount ((d + n - 1) / n - 1) = e + 1 ∧ n * 10 ^ e < d ∧ d ≤ n * 10 ^ (e + 1) := by
  have hlow : n * ((d + n - 1) / n) ≤ d + n - 1 := Nat.mul_div_le _ _
  have hhigh : d + n - 1 < n * ((d + n - 1) / n + 1) := Nat.lt_mul_div_succ _ hn
  obtain ⟨c, hc⟩ : ∃ c, (d + n - 1) / n = c + 2 := by
    refine ⟨(d + n - 1) / n - 2, ?_⟩
    have : 2 ≤ (d + n - 1) / n := (Nat.le_div_iff_mul_le hn).mpr (by omega)
    omega
  rw [hc] at hlow hhigh ⊢
  obtain ⟨e, he, hfrom, hto⟩ := digitCount_spec (Nat.succ_pos c)
  have hfrom : n * 10 ^ e ≤ n * c + n := Nat.mul_le_mul_left n hfrom
  have hto : n * c + n + n ≤ n * 10 ^ (e + 1) := Nat.mul_le_mul_left n hto
  simp only [Nat.mul_add] at hlow hhigh
  exact ⟨e, he, by omega, by omega⟩

/-- The exponent of a positive magnitude is that of its first digit. -/
theorem exponent_spec {units : ℕ} (h : 0 < units) :
    (10 : ℚ) ^ exponent units ≤ valueOf units ∧
      valueOf units < 10 ^ (exponent units + 1) := by
  have hone := Double.unitsPerOne_pos
  have honeQ := cast_unitsPerOne_pos
  simp only [exponent, valueOf]
  split
  · next hzero =>
    have hlt : units < unitsPerOne := (Nat.div_eq_zero_iff_lt hone).mp hzero
    obtain ⟨e, he, hlow, hhigh⟩ := reciprocal_spec h hlt
    rw [he]
    push_cast
    have hpower : -((e : ℤ) + 1) + 1 = -e := by ring
    have hpow (k : ℕ) : (0 : ℚ) < 10 ^ k := by positivity
    rw [hpower, zpow_neg, zpow_neg, ← Nat.cast_add_one, zpow_natCast, zpow_natCast, ← one_div,
      ← one_div, div_le_div_iff₀ (hpow _) honeQ, div_lt_div_iff₀ honeQ (hpow _), one_mul]
    exact ⟨by exact_mod_cast hhigh, by exact_mod_cast hlow⟩
  · next hwhole =>
    obtain ⟨e, he, hlow, hhigh⟩ := digitCount_spec (Nat.pos_of_ne_zero hwhole)
    rw [he]
    push_cast
    rw [add_sub_cancel_right, ← Nat.cast_add_one, zpow_natCast, zpow_natCast]
    constructor
    · rw [le_div_iff₀ honeQ]
      exact_mod_cast (Nat.le_div_iff_mul_le hone).mp hlow
    · rw [div_lt_iff₀ honeQ]
      exact_mod_cast (Nat.div_lt_iff_lt_mul hone).mp hhigh

/-! ## Rounding of magnitudes -/

theorem shifted_nearest (power : ℤ) (units : ℕ) :
    NearestEven (valueOf units / 10 ^ power) (shifted power units) := by
  rw [shifted]
  split
  · next hpos =>
    obtain ⟨n, rfl⟩ := Int.eq_ofNat_of_zero_le hpos
    have hround := nearestEven_roundHalfEven units
      (Nat.mul_pos Double.unitsPerOne_pos (Nat.pow_pos (n := n) (by decide : 0 < 10)))
    rw [Nat.cast_mul, ← div_div] at hround
    rw [valueOf, zpow_natCast]
    exact_mod_cast hround
  · next hneg =>
    obtain ⟨n, hn⟩ := Int.eq_ofNat_of_zero_le (by omega : 0 ≤ -power)
    have hround := nearestEven_roundHalfEven (units * 10 ^ n) Double.unitsPerOne_pos
    obtain rfl : power = -(n : ℤ) := by omega
    rw [valueOf, zpow_neg, zpow_natCast, div_inv_eq_mul, div_mul_eq_mul_div, neg_neg]
    exact_mod_cast hround

theorem scaled_nearest (decimals units : ℕ) :
    NearestEven (valueOf units * 10 ^ decimals) (scaled decimals units) := by
  have hround := nearestEven_roundHalfEven (units * 10 ^ decimals) Double.unitsPerOne_pos
  rw [valueOf, div_mul_eq_mul_div]
  exact_mod_cast hround

/-- The significand and the exponent of a positive magnitude.  The significand has as many digits as
it should, and stands for the magnitude rounded at the last of them. -/
structure IsSignificant (decimals units significand : ℕ) (power : ℤ) : Prop where
  low : 10 ^ decimals ≤ significand
  high : significand < 10 ^ (decimals + 1)
  rounds : RoundsTo (decimals + 1) (valueOf units) (significand * 10 ^ (power - decimals))
  nearest : NearestEven (valueOf units / 10 ^ (power - decimals)) significand

theorem ten_zpow_pos (power : ℤ) : (0 : ℚ) < 10 ^ power := zpow_pos (by norm_num) power

/-- A magnitude in units of its last digit, before rounding. -/
theorem shifted_bounds (decimals : ℕ) {units : ℕ} (h : 0 < units) :
    (10 : ℚ) ^ decimals ≤ valueOf units / 10 ^ (exponent units - decimals) ∧
      valueOf units / 10 ^ (exponent units - decimals) < 10 ^ (decimals + 1) := by
  have hpos := ten_zpow_pos (exponent units - decimals)
  have hten : (10 : ℚ) ≠ 0 := by norm_num
  obtain ⟨hlow, hhigh⟩ := exponent_spec h
  rw [le_div_iff₀ hpos, div_lt_iff₀ hpos, ← zpow_natCast, ← zpow_natCast, ← zpow_add₀ hten,
    ← zpow_add₀ hten]
  have hfirst : (decimals : ℤ) + (exponent units - decimals) = exponent units := by ring
  have hnext : ((decimals + 1 : ℕ) : ℤ) + (exponent units - decimals) = exponent units + 1 := by
    push_cast
    ring
  rw [hfirst, hnext]
  exact ⟨hlow, hhigh⟩

/-- Rounding keeps the number of digits, or goes up to the next power of ten. -/
theorem shifted_mem (decimals : ℕ) {units : ℕ} (h : 0 < units) :
    10 ^ decimals ≤ shifted (exponent units - decimals) units ∧
      shifted (exponent units - decimals) units ≤ 10 ^ (decimals + 1) := by
  have hnearest := shifted_nearest (exponent units - decimals) units
  obtain ⟨hlow, hhigh⟩ := shifted_bounds decimals h
  have hpower (n : ℕ) : NearestEven (10 ^ n) (10 ^ n) := by
    have hself := NearestEven.self (10 ^ n)
    push_cast at hself
    exact hself
  constructor
  · exact_mod_cast (hpower decimals).mono hnearest hlow
  · exact_mod_cast hnearest.mono (hpower (decimals + 1)) hhigh.le

theorem shifted_rounds (decimals : ℕ) {units : ℕ} (h : 0 < units) :
    RoundsTo (decimals + 1) (valueOf units)
      (shifted (exponent units - decimals) units * 10 ^ (exponent units - decimals)) := by
  obtain ⟨hfrom, hto⟩ := exponent_spec h
  have habs : |valueOf units| = valueOf units := abs_of_pos ((ten_zpow_pos _).trans_le hfrom)
  have hunit : exponent units + 1 - ((decimals + 1 : ℕ) : ℤ) = exponent units - decimals := by
    push_cast
    ring
  refine .inr ⟨exponent units, shifted (exponent units - decimals) units, by rwa [habs],
    by rwa [habs], ?_, ?_⟩
  · rw [hunit]
    exact shifted_nearest _ units
  · rw [hunit, Int.cast_natCast]

theorem significant_spec (decimals : ℕ) {units : ℕ} (h : 0 < units) :
    IsSignificant decimals units (significant decimals units).1 (significant decimals units).2 := by
  have hnearest := shifted_nearest (exponent units - decimals) units
  have hrounds := shifted_rounds decimals h
  obtain ⟨hleast, hmost⟩ := shifted_mem decimals h
  have hten : (10 : ℚ) ≠ 0 := by norm_num
  simp only [significant, if_neg h.ne']
  split
  · next hcarry =>
    -- The significand is a power of ten, and loses its last zero to the exponent.
    have hcarry : shifted (exponent units - decimals) units = 10 ^ decimals * 10 := by
      rw [← Nat.pow_succ]
      exact le_antisymm hmost hcarry
    have hpower : exponent units + 1 - (decimals : ℤ) = exponent units - decimals + 1 := by ring
    rw [hcarry] at hrounds hnearest ⊢
    rw [Nat.mul_div_cancel _ (by norm_num)]
    refine ⟨le_rfl, Nat.pow_lt_pow_right (by norm_num) (Nat.lt_succ_self _), ?_, ?_⟩
    · rw [hpower, zpow_add_one₀ hten, mul_comm _ (10 : ℚ), ← mul_assoc]
      exact_mod_cast hrounds
    · rw [hpower, zpow_add_one₀ hten, ← div_div]
      exact hnearest.div_ten
  · next hkeep => exact ⟨hleast, Nat.lt_of_not_le hkeep, hrounds, hnearest⟩

theorem IsSignificant.hasExponent {decimals units significand : ℕ} {power : ℤ}
    (h : IsSignificant decimals units significand power) :
    HasExponent (significand * 10 ^ (power - decimals)) power := by
  have hten : (10 : ℚ) ≠ 0 := by norm_num
  have hpos := ten_zpow_pos (power - decimals)
  have hlow : (10 : ℚ) ^ decimals ≤ significand := by exact_mod_cast h.low
  have hhigh : (significand : ℚ) < 10 ^ (decimals + 1) := by exact_mod_cast h.high
  have hfirst : (10 : ℚ) ^ power = 10 ^ decimals * 10 ^ (power - decimals) := by
    rw [← zpow_natCast, ← zpow_add₀ hten, add_sub_cancel]
  refine .inr ?_
  rw [abs_of_nonneg (by positivity), zpow_add_one₀ hten, hfirst, mul_right_comm, ← pow_succ]
  exact ⟨mul_le_mul_of_nonneg_right hlow hpos.le, mul_lt_mul_of_pos_right hhigh hpos⟩

/-- Zero has no significant digit, and is not rounded. -/
theorem significant_zero (decimals : ℕ) : significant decimals 0 = (0, 0) := rfl

theorem scaled_zero (decimals : ℕ) : scaled decimals 0 = 0 := by
  have hpos := Double.unitsPerOne_pos
  simp [scaled, roundHalfEven, hpos]

theorem significand_lt (decimals units : ℕ) :
    (significant decimals units).1 < 10 ^ (decimals + 1) := by
  rcases Nat.eq_zero_or_pos units with rfl | hpos
  · exact Nat.pow_pos (by norm_num)
  · exact (significant_spec decimals hpos).high

/-- The number rounded to significant digits, and its exponent after that. -/
theorem significant_rounds (decimals units : ℕ) :
    RoundsTo (decimals + 1) (valueOf units)
        ((significant decimals units).1 * 10 ^ ((significant decimals units).2 - decimals)) ∧
      HasExponent
        ((significant decimals units).1 * 10 ^ ((significant decimals units).2 - decimals))
        (significant decimals units).2 := by
  rcases Nat.eq_zero_or_pos units with rfl | hpos
  · rw [significant_zero]
    constructor
    · exact .inl ⟨valueOf_zero, by simp⟩
    · exact .inl ⟨by simp, rfl⟩
  · have hspec := significant_spec decimals hpos
    exact ⟨hspec.rounds, hspec.hasExponent⟩

/-- Rounding at the last significant digit, the count of decimals being taken from the exponent
after rounding, gives the significand again. -/
theorem scaled_eq_significand (decimals units : ℕ) (h : (significant decimals units).2 ≤ decimals) :
    scaled (decimals - (significant decimals units).2).toNat units
      = (significant decimals units).1 := by
  rcases Nat.eq_zero_or_pos units with rfl | hpos
  · rw [significant_zero, scaled_zero]
  · have hsame := (significant_spec decimals hpos).nearest
    obtain ⟨n, hn⟩ := Int.eq_ofNat_of_zero_le (Int.sub_nonneg_of_le h)
    have hpower : (significant decimals units).2 - decimals = -(n : ℤ) := by omega
    rw [hn, Int.toNat_natCast]
    rw [hpower, zpow_neg, zpow_natCast, div_inv_eq_mul] at hsame
    exact_mod_cast (scaled_nearest n units).unique hsame

end Decimal

end LuaRuntime
