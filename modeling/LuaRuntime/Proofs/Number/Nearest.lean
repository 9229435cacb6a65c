import LuaRuntime.Proofs.Number.GeneralLayout
import LuaRuntime.Proofs.Number.Integers

/-!
# The nearest double

`NearestDouble` says which double is the nearest to a rational number, without a computation: no
finite double is nearer, and of two that are as near it is the one with the even significand.  A
magnitude is its significand behind an even number, so it is even exactly if the significand is.

`magnitudeOf` rounds a quotient at the last binary digit that a significand has room for.  The
magnitudes with no digits behind that one are multiples of its weight, so rounding to a multiple
decides among them; all others lie below the quotient and below a multiple
(`nearestMagnitude_shifted`).

So the nearest double to a decimal number is what `Numeral.ofDecimal` gives, as long as that number
is no greater than the greatest double (`ofDecimal_nearest`).
-/

namespace LuaRuntime

namespace NearestEven

variable {q : ℚ} {k j : ℤ}

/-- Two different integers are a unit apart, so a number is half a unit away from one of them. -/
theorem one_le_distances (q : ℚ) (h : j ≠ k) : 1 ≤ |q - k| + |q - j| := by
  have hunit : (1 : ℚ) ≤ |(k : ℚ) - j| := by
    have hne : k - j ≠ 0 := sub_ne_zero.mpr h.symm
    exact_mod_cast Int.one_le_abs hne
  calc (1 : ℚ) ≤ |(k : ℚ) - j| := hunit
    _ ≤ |(k : ℚ) - q| + |q - j| := abs_sub_le _ _ _
    _ = |q - k| + |q - j| := by rw [abs_sub_comm]

theorem le_distance (h : NearestEven q k) (j : ℤ) : |q - k| ≤ |q - j| := by
  by_cases hj : j = k
  · rw [hj]
  · have := one_le_distances q hj
    linarith [h.near]

theorem even_of_tie (h : NearestEven q k) (hj : j ≠ k) (htie : |q - j| = |q - k|) : Even k := by
  have := one_le_distances q hj
  exact h.even (le_antisymm h.near (by linarith))

/-- A number less than half a unit above an integer goes to that integer or to a lesser one. -/
theorem le_of_lt (h : NearestEven q k) (hlt : q * 2 < j * 2 + 1) : k ≤ j := by
  have hnear := (abs_le.mp h.near).1
  have : (k : ℚ) < j + 1 := by linarith
  exact Int.lt_add_one_iff.mp (by exact_mod_cast this)

end NearestEven

namespace Double

/-! ## Magnitudes -/

/-- A magnitude is the nearest to a number of units, or the even one of two that are as near.  All
magnitudes count here, as if there were no greatest one. -/
structure NearestMagnitude (q : ℚ) (m : ℕ) : Prop where
  near : ∀ other, |q - unitsOf m| ≤ |q - unitsOf other|
  even : ∀ other, other ≠ m → |q - unitsOf other| = |q - unitsOf m| → Even m

theorem unitsOf_zero : unitsOf 0 = 0 := rfl

/-- The units of a significand that fits, with some digits dropped. -/
theorem unitsOf_shifted {e k : ℕ} (hlow : e = 0 ∨ fractionCount ≤ k)
    (hhigh : k ≤ 2 * fractionCount) : unitsOf (e * fractionCount + k) = k * 2 ^ e := by
  rcases Nat.lt_or_ge k fractionCount with hsmall | hbig
  · obtain rfl : e = 0 := hlow.resolve_right (by omega)
    rw [Nat.zero_mul, Nat.zero_add, unitsOf_of_lt hsmall, Nat.pow_zero, Nat.mul_one]
  · rcases Nat.eq_or_lt_of_le hhigh with rfl | hlt
    · have hfields : e * fractionCount + 2 * fractionCount = (e + 1 + 1) * fractionCount + 0 := by
        ring
      rw [hfields, unitsOf_fields (by decide), Nat.pow_succ]
      ring
    · obtain ⟨f, rfl⟩ := Nat.exists_eq_add_of_le hbig
      have hfields : e * fractionCount + (fractionCount + f) = (e + 1) * fractionCount + f := by
        ring
      rw [hfields, unitsOf_fields (by omega)]

/-- Magnitudes with no fewer digits dropped are multiples of the weight of the last one. -/
theorem two_pow_dvd_unitsOf {e m : ℕ} (h : e = 0 ∨ (e + 1) * fractionCount ≤ m) :
    2 ^ e ∣ unitsOf m := by
  rcases h with rfl | h
  · exact one_dvd _
  · rcases magnitude_cases m with hsmall | ⟨d, f, hf, rfl⟩
    · have : fractionCount ≤ (e + 1) * fractionCount := Nat.le_mul_of_pos_left _ (Nat.succ_pos e)
      omega
    · rw [unitsOf_fields hf]
      refine Dvd.dvd.mul_left (pow_dvd_pow 2 ?_) _
      by_contra hlt
      have : (d + 1 + 1) * fractionCount ≤ (e + 1) * fractionCount :=
        Nat.mul_le_mul_right _ (by omega)
      rw [Nat.add_one_mul (d + 1)] at this
      omega

/-- A distance from a multiple, with the number counted in multiples. -/
theorem distance_shifted (q : ℚ) (e : ℕ) (j : ℤ) :
    |q - j * 2 ^ e| = |q / 2 ^ e - j| * 2 ^ e := by
  have hpos : (0 : ℚ) < 2 ^ e := by positivity
  rw [← abs_of_pos hpos, ← abs_mul, abs_of_pos hpos, sub_mul, div_mul_cancel₀ _ hpos.ne']

/-- A magnitude with fewer digits dropped than a number needs lies below all that have as many. -/
theorem unitsOf_lt_least {e m : ℕ} (h : m < (e + 1) * fractionCount) :
    unitsOf m < fractionCount * 2 ^ e := by
  have hleast := unitsOf_fields (e := e) (f := 0) (by decide)
  simp only [Nat.add_zero] at hleast
  rw [← hleast]
  exact unitsOf_strictMono h

theorem even_shifted {e k : ℕ} (h : Even (k : ℤ)) : Even (e * fractionCount + k) := by
  have hcount : Even fractionCount := by decide
  have hk : Even k := by exact_mod_cast h
  exact (hcount.mul_left e).add hk

/-- A magnitude is a multiple of the weight of the last digit, or farther away from the number than
the nearest multiple. -/
theorem multiple_or_farther {q : ℚ} {e : ℕ} {k : ℤ} (hlow : e = 0 ∨ fractionCount * 2 ^ e ≤ q)
    (hk : NearestEven (q / 2 ^ e) k) (m : ℕ) :
    (∃ j : ℤ, (unitsOf m : ℚ) = j * 2 ^ e) ∨ |q - k * 2 ^ e| < |q - unitsOf m| := by
  by_cases h : e = 0 ∨ (e + 1) * fractionCount ≤ m
  · obtain ⟨j, hj⟩ := two_pow_dvd_unitsOf h
    refine .inl ⟨j, ?_⟩
    rw [hj]
    push_cast
    ring
  · obtain ⟨hdropped, hless⟩ := not_or.mp h
    have hbelow : (unitsOf m : ℚ) < (fractionCount : ℤ) * 2 ^ e := by
      exact_mod_cast unitsOf_lt_least (Nat.lt_of_not_le hless)
    have hle : ((fractionCount : ℤ) : ℚ) * 2 ^ e ≤ q := hlow.resolve_left hdropped
    refine .inr ?_
    calc |q - k * 2 ^ e| ≤ |q - (fractionCount : ℤ) * 2 ^ e| := by
          rw [distance_shifted, distance_shifted]
          exact mul_le_mul_of_nonneg_right (hk.le_distance _) (by positivity)
      _ = q - (fractionCount : ℤ) * 2 ^ e := abs_of_nonneg (sub_nonneg.mpr hle)
      _ < q - unitsOf m := sub_lt_sub_left hbelow q
      _ ≤ |q - unitsOf m| := le_abs_self _

/-- A number rounded at the last digit that a significand has room for gives the magnitude. -/
theorem nearestMagnitude_shifted {q : ℚ} {e k : ℕ}
    (hlow : e = 0 ∨ fractionCount * 2 ^ e ≤ q) (hhigh : q ≤ (2 * fractionCount : ℕ) * 2 ^ e)
    (hk : NearestEven (q / 2 ^ e) k) : NearestMagnitude q (e * fractionCount + k) := by
  have hpos : (0 : ℚ) < 2 ^ e := by positivity
  have hmost : k ≤ 2 * fractionCount := by
    have := hk.mono (.self (2 * fractionCount : ℕ)) (by rwa [div_le_iff₀ hpos])
    exact_mod_cast this
  have hleast : e = 0 ∨ fractionCount ≤ k := by
    refine hlow.imp_right fun hle => ?_
    have := NearestEven.mono (.self (fractionCount : ℕ)) hk (by rwa [le_div_iff₀ hpos])
    exact_mod_cast this
  have hunits : (unitsOf (e * fractionCount + k) : ℚ) = (k : ℤ) * 2 ^ e := by
    rw [unitsOf_shifted hleast hmost]
    push_cast
    rfl
  constructor
  case near =>
    intro other
    rw [hunits]
    rcases multiple_or_farther hlow hk other with ⟨j, hj⟩ | hfar
    · rw [hj, distance_shifted, distance_shifted]
      exact mul_le_mul_of_nonneg_right (hk.le_distance j) hpos.le
    · exact hfar.le
  case even =>
    intro other hne htie
    rw [hunits] at htie
    rcases multiple_or_farther hlow hk other with ⟨j, hj⟩ | hfar
    · have hdiffer : j ≠ k := by
        rintro rfl
        refine hne (unitsOf_strictMono.injective ?_)
        exact_mod_cast hj.trans hunits.symm
      rw [hj, distance_shifted, distance_shifted] at htie
      exact even_shifted (hk.even_of_tie hdiffer (mul_right_cancel₀ hpos.ne' htie))
    · exact absurd htie hfar.ne'

/-- The digits that a quotient has more than a significand has room for. -/
theorem quotient_bounds (n : ℕ) {d : ℕ} (hd : 0 < d) :
    ((n / d).log2 - 52 = 0 ∨ (fractionCount : ℚ) * 2 ^ ((n / d).log2 - 52) ≤ n / d) ∧
      (n / d : ℚ) ≤ (2 * fractionCount : ℕ) * 2 ^ ((n / d).log2 - 52) := by
  have hdQ : (0 : ℚ) < d := by exact_mod_cast hd
  have hupper : n / d < 2 ^ ((n / d).log2 + 1) := Nat.lt_log2_self
  constructor
  · by_cases h : (n / d).log2 - 52 = 0
    · exact .inl h
    · refine .inr ?_
      have hne : n / d ≠ 0 := by
        intro hzero
        rw [hzero] at h
        exact h rfl
      have hpow : fractionCount * 2 ^ ((n / d).log2 - 52) = 2 ^ (n / d).log2 := by
        rw [show fractionCount = 2 ^ 52 from rfl, ← Nat.pow_add]
        congr 1
        omega
      have hlower := Nat.log2_self_le hne
      rw [← hpow, Nat.le_div_iff_mul_le hd] at hlower
      rw [le_div_iff₀ hdQ]
      exact_mod_cast hlower
  · have hpow : 2 ^ ((n / d).log2 + 1) ≤ 2 * fractionCount * 2 ^ ((n / d).log2 - 52) := by
      rw [show 2 * fractionCount = 2 ^ 53 from rfl, ← Nat.pow_add]
      exact Nat.pow_le_pow_right (by norm_num) (by omega)
    have hless := (Nat.div_lt_iff_lt_mul hd).mp (hupper.trans_le hpow)
    rw [div_le_iff₀ hdQ]
    exact_mod_cast hless.le

/-- The magnitude of a quotient of units, before a greatest one is set. -/
theorem nearestMagnitude_quotient (n : ℕ) {d : ℕ} (hd : 0 < d) :
    NearestMagnitude (n / d) (((n / d).log2 - 52) * fractionCount +
      roundHalfEven n (d * 2 ^ ((n / d).log2 - 52))) := by
  obtain ⟨hlow, hhigh⟩ := quotient_bounds n hd
  refine nearestMagnitude_shifted hlow hhigh ?_
  have hround := nearestEven_roundHalfEven n (Nat.mul_pos hd (Nat.two_pow_pos ((n / d).log2 - 52)))
  rw [Nat.cast_mul, ← div_div] at hround
  exact_mod_cast hround

/-- A number that is no greater than a magnitude has a nearest one that is no greater either. -/
theorem NearestMagnitude.le {q : ℚ} {m bound : ℕ} (h : NearestMagnitude q m)
    (hle : q ≤ unitsOf bound) : m ≤ bound := by
  by_contra hlt
  have hgreater : (unitsOf bound : ℚ) < unitsOf m := by
    exact_mod_cast unitsOf_strictMono (Nat.lt_of_not_le hlt)
  have hnear := h.near bound
  rw [abs_of_nonpos (by linarith), abs_of_nonpos (by linarith)] at hnear
  linarith

/-- A magnitude is the nearest to its own units. -/
theorem NearestMagnitude.eq {m own : ℕ} (h : NearestMagnitude (unitsOf own) m) : m = own := by
  have hnear := h.near own
  rw [sub_self, abs_zero, abs_nonpos_iff, sub_eq_zero] at hnear
  exact unitsOf_strictMono.injective (by exact_mod_cast hnear.symm)

/-- What is at most half a unit goes to zero. -/
theorem nearestMagnitude_zero {q : ℚ} (hpos : 0 ≤ q) (hhalf : q ≤ 1 / 2) :
    NearestMagnitude q 0 where
  near other := by
    rw [unitsOf_zero, Nat.cast_zero, sub_zero, abs_of_nonneg hpos]
    rcases Nat.eq_zero_or_pos (unitsOf other) with hnone | hsome
    · rw [hnone, Nat.cast_zero, sub_zero]
      exact le_abs_self q
    · have hone : (1 : ℚ) ≤ unitsOf other := by exact_mod_cast hsome
      rw [abs_of_nonpos (by linarith)]
      linarith
  even _ _ _ := Even.zero

/-- The greatest finite magnitude. -/
def greatestMagnitude : ℕ := infinityBits - 1

theorem lt_infinityBits_iff {m : ℕ} : m < infinityBits ↔ m ≤ greatestMagnitude := by
  have : 0 < infinityBits := by decide
  rw [greatestMagnitude]
  omega

/-- A quotient of units no greater than the greatest double has a finite magnitude. -/
theorem nearestMagnitude_magnitudeOf {n d : ℕ} (hd : 0 < d)
    (hle : (n / d : ℚ) ≤ unitsOf greatestMagnitude) :
    magnitudeOf n d ≤ greatestMagnitude ∧ NearestMagnitude (n / d) (magnitudeOf n d) := by
  have hnearest := nearestMagnitude_quotient n hd
  have hbound := hnearest.le hle
  have hmagnitude : magnitudeOf n d = ((n / d).log2 - 52) * fractionCount +
      roundHalfEven n (d * 2 ^ ((n / d).log2 - 52)) :=
    Nat.min_eq_left (lt_infinityBits_iff.mpr hbound).le
  rw [hmagnitude]
  exact ⟨hbound, hnearest⟩

/-! ## Decimal numbers -/

/-- No double is as great as ten to the power 401. -/
theorem unitsOf_greatestMagnitude_lt : unitsOf greatestMagnitude < 10 ^ 401 * unitsPerOne := by
  decide +kernel

theorem two_mul_unitsPerOne_le : unitsPerOne * 2 ≤ 10 ^ 400 := by decide +kernel

/-- A decimal number whose power of ten is small for its digits. -/
theorem tiny_of_power_lt {significand : ℕ} {power : ℤ}
    (h : power < -(significand.log2 + 400 : ℤ)) :
    (significand * 10 ^ power : ℚ) ≤ 10 ^ (-400 : ℤ) := by
  have hpower := Decimal.ten_zpow_pos power
  have hten : (10 : ℚ) ≠ 0 := by norm_num
  have hsignificand : (significand : ℚ) ≤ 10 ^ ((significand.log2 + 1 : ℕ) : ℤ) := by
    rw [zpow_natCast]
    calc (significand : ℚ) ≤ 2 ^ (significand.log2 + 1) := by exact_mod_cast Nat.lt_log2_self.le
      _ ≤ 10 ^ (significand.log2 + 1) := by gcongr; norm_num
  calc (significand * 10 ^ power : ℚ)
      ≤ 10 ^ ((significand.log2 + 1 : ℕ) : ℤ) * 10 ^ power := by gcongr
    _ = 10 ^ (((significand.log2 + 1 : ℕ) : ℤ) + power) := (zpow_add₀ hten _ _).symm
    _ ≤ 10 ^ (-400 : ℤ) := zpow_le_zpow_right₀ (by norm_num) (by push_cast; omega)

theorem units_le_half {q : ℚ} (h : q ≤ 10 ^ (-400 : ℤ)) : q * unitsPerOne ≤ 1 / 2 := by
  have hone := Decimal.cast_unitsPerOne_pos
  have hunits : (unitsPerOne : ℚ) * 2 ≤ 10 ^ (400 : ℤ) := by
    exact_mod_cast two_mul_unitsPerOne_le
  generalize (unitsPerOne : ℚ) = one at *
  rw [le_div_iff₀ two_pos, mul_assoc]
  calc q * (one * 2) ≤ 10 ^ (-400 : ℤ) * (one * 2) := by gcongr
    _ ≤ 10 ^ (-400 : ℤ) * 10 ^ (400 : ℤ) := by gcongr
    _ = 1 := by rw [← zpow_add₀ (by norm_num)]; norm_num

theorem greatest_lt_units {q : ℚ} (h : 10 ^ 401 ≤ q) :
    (unitsOf greatestMagnitude : ℚ) < q * unitsPerOne := by
  have hlimit : (unitsOf greatestMagnitude : ℚ) < 10 ^ 401 * unitsPerOne := by
    exact_mod_cast unitsOf_greatestMagnitude_lt
  exact hlimit.trans_le (mul_le_mul_of_nonneg_right h Decimal.cast_unitsPerOne_pos.le)

theorem ofRatio_nearest {n d : ℕ} (hd : 0 < d)
    (hle : (n / d * unitsPerOne : ℚ) ≤ unitsOf greatestMagnitude) :
    ∃ m ≤ greatestMagnitude, ofRatio false n d = ofMagnitude false m ∧
      NearestMagnitude (n / d * unitsPerOne) m := by
  rw [div_mul_eq_mul_div, ← Nat.cast_mul] at hle ⊢
  obtain ⟨hfinite, hnearest⟩ := nearestMagnitude_magnitudeOf hd hle
  exact ⟨_, hfinite, rfl, hnearest⟩

/-- A decimal number no greater than the greatest double is read as the nearest one. -/
theorem ofDecimal_nearest {significand : ℕ} {power : ℤ}
    (hle : (significand * 10 ^ power * unitsPerOne : ℚ) ≤ unitsOf greatestMagnitude) :
    ∃ m ≤ greatestMagnitude, Numeral.ofDecimal significand power = ofMagnitude false m ∧
      NearestMagnitude (significand * 10 ^ power * unitsPerOne) m := by
  have hpower := Decimal.ten_zpow_pos power
  have hnonneg : (0 : ℚ) ≤ significand * 10 ^ power := mul_nonneg (Nat.cast_nonneg _) hpower.le
  simp only [Numeral.ofDecimal]
  split_ifs with hzero hgreat htiny hwhole
  · refine ⟨0, Nat.zero_le _, rfl, ?_⟩
    rw [hzero, Nat.cast_zero, zero_mul, zero_mul]
    exact nearestMagnitude_zero le_rfl (by norm_num)
  · -- Such a number is greater than all doubles.
    have hsome : (1 : ℚ) ≤ significand := by exact_mod_cast Nat.one_le_iff_ne_zero.mpr hzero
    have hgreater : (10 : ℚ) ^ 401 ≤ significand * 10 ^ power := by
      calc (10 : ℚ) ^ 401 = 10 ^ (401 : ℤ) := (zpow_natCast 10 401).symm
        _ ≤ 10 ^ power := zpow_le_zpow_right₀ (by norm_num) (by omega)
        _ ≤ significand * 10 ^ power := le_mul_of_one_le_left hpower.le hsome
    exact absurd hle (not_le.mpr (greatest_lt_units hgreater))
  · exact ⟨0, Nat.zero_le _, rfl,
      nearestMagnitude_zero (mul_nonneg hnonneg Decimal.cast_unitsPerOne_pos.le)
        (units_le_half (tiny_of_power_lt htiny))⟩
  · obtain ⟨n, rfl⟩ := Int.eq_ofNat_of_zero_le hwhole
    have hvalue : (significand * 10 ^ (n : ℤ) : ℚ) = (significand * 10 ^ n : ℕ) / (1 : ℕ) := by
      simp
    rw [hvalue] at hle ⊢
    exact ofRatio_nearest Nat.one_pos hle
  · obtain ⟨n, hn⟩ := Int.eq_ofNat_of_zero_le (by omega : 0 ≤ -power)
    have hvalue : (significand * 10 ^ power : ℚ) = significand / (10 ^ n : ℕ) := by
      rw [show power = -(n : ℤ) by omega, zpow_neg, zpow_natCast, Nat.cast_pow]
      rfl
    rw [hvalue] at hle ⊢
    rw [hn]
    exact ofRatio_nearest (Nat.pow_pos (by norm_num)) hle

/-! ## Doubles -/

theorem abs_value (x : Double) : |x.value| = Decimal.valueOf (unitsOf x.magnitude) := by
  have hpos : 0 ≤ Decimal.valueOf (unitsOf x.magnitude) :=
    div_nonneg (Nat.cast_nonneg _) (Nat.cast_nonneg _)
  rw [value]
  split
  · rw [abs_neg, abs_of_nonneg hpos]
  · exact abs_of_nonneg hpos

/-- A finite double is the nearest to a number, or the even one of two that are as near. -/
structure NearestDouble (q : ℚ) (y : Double) : Prop where
  finite : y.isFinite = true
  near : ∀ z : Double, z.isFinite = true → |q - y.value| ≤ |q - z.value|
  even : ∀ z : Double, z.isFinite = true → z.value ≠ y.value → |q - z.value| = |q - y.value| →
    Even y.magnitude

/-- The distance between two numbers with signs is no less than that without. -/
theorem distance_unsigned_le (negative : Bool) {q : ℚ} (hq : 0 ≤ q) (v : ℚ) :
    |q - (|v|)| ≤ |(if negative then -q else q) - v| := by
  have hbound := abs_abs_sub_abs_le (if negative then -q else q) v
  have habs : |if negative then -q else q| = q := by
    cases negative with
    | true => exact (abs_neg q).trans (abs_of_nonneg hq)
    | false => exact abs_of_nonneg hq
  rwa [habs] at hbound

/-- The distance to a number with the opposite sign. -/
theorem distance_opposite (negative : Bool) {q v w : ℚ} (hq : 0 ≤ q) (hv : |v| = w)
    (hne : v ≠ if negative then -w else w) : |(if negative then -q else q) - v| = q + w := by
  have hw : 0 ≤ w := hv ▸ abs_nonneg v
  rcases eq_or_eq_neg_of_abs_eq hv with rfl | rfl
  · cases negative with
    | true =>
      rw [if_pos rfl, ← abs_neg, neg_sub, sub_neg_eq_add, add_comm, abs_of_nonneg (by linarith)]
    | false => exact absurd rfl hne
  · cases negative with
    | true => exact absurd rfl hne
    | false => rw [if_neg (by decide), sub_neg_eq_add, abs_of_nonneg (by linarith)]

/-- A distance in units. -/
theorem distance_units (q : ℚ) (units : ℕ) :
    |q * unitsPerOne - units| = |q - Decimal.valueOf units| * unitsPerOne := by
  have hone := Decimal.cast_unitsPerOne_pos
  rw [← abs_of_pos hone, ← abs_mul, abs_of_pos hone, sub_mul, Decimal.valueOf,
    div_mul_cancel₀ _ hone.ne']

theorem value_ofMagnitude (negative : Bool) {m : ℕ} (h : m < 2 ^ 63) :
    (ofMagnitude negative m).value =
      if negative then -Decimal.valueOf (unitsOf m) else Decimal.valueOf (unitsOf m) := by
  rw [value, isNegative_ofMagnitude _ h, magnitude_ofMagnitude _ h]

/-- A double with the nearest magnitude is the nearest to the number with its sign. -/
theorem NearestMagnitude.nearestDouble {q : ℚ} {m : ℕ} (hq : 0 ≤ q) (hm : m ≤ greatestMagnitude)
    (h : NearestMagnitude (q * unitsPerOne) m) (negative : Bool) :
    NearestDouble (if negative then -q else q) (ofMagnitude negative m) := by
  have hone := Decimal.cast_unitsPerOne_pos
  have hlt : m < 2 ^ 63 := hm.trans_lt (by decide)
  have hnear (other : ℕ) :
      |q - Decimal.valueOf (unitsOf m)| ≤ |q - Decimal.valueOf (unitsOf other)| := by
    have hunits := h.near other
    rw [distance_units, distance_units] at hunits
    exact le_of_mul_le_mul_right hunits hone
  have hown : |(if negative then -q else q) - (ofMagnitude negative m).value|
      = |q - Decimal.valueOf (unitsOf m)| := by
    rw [value_ofMagnitude negative hlt]
    cases negative with
    | true => rw [if_pos rfl, if_pos rfl, neg_sub_neg, abs_sub_comm]
    | false => rfl
  have hless (z : Double) := distance_unsigned_le negative hq z.value
  constructor
  case finite =>
    rw [isFinite, magnitude_ofMagnitude negative hlt, decide_eq_true_iff]
    exact lt_infinityBits_iff.mpr hm
  case near =>
    intro z _
    rw [hown]
    refine (hnear z.magnitude).trans ?_
    rw [← abs_value]
    exact hless z
  case even =>
    intro z _ hne htie
    rw [magnitude_ofMagnitude negative hlt]
    rw [hown] at htie
    by_cases hmagnitude : z.magnitude = m
    · -- The number with the opposite sign is no nearer than zero, so both are zero.
      have habs := abs_value z
      rw [hmagnitude] at habs
      have hsum := distance_opposite negative hq habs (value_ofMagnitude negative hlt ▸ hne)
      have hzero := hnear 0
      rw [← htie, hsum, unitsOf_zero, Decimal.valueOf_zero, sub_zero, abs_of_nonneg hq,
        add_le_iff_nonpos_right, ← habs, abs_nonpos_iff] at hzero
      rw [value_ofMagnitude negative hlt, ← habs, hzero, abs_zero, neg_zero, ite_self] at hne
      exact absurd rfl hne
    · have hsame : |q - Decimal.valueOf (unitsOf z.magnitude)|
          = |q - Decimal.valueOf (unitsOf m)| := by
        refine le_antisymm ?_ (hnear z.magnitude)
        rw [← htie, ← abs_value]
        exact hless z
      refine h.even z.magnitude hmagnitude ?_
      rw [distance_units, distance_units, hsame]

end Double

end LuaRuntime
