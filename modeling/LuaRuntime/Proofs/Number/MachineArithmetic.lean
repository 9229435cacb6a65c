import LuaRuntime.Proofs.Number.MachineFormat

/-!
# Products and sums of the machine

The product of two finite doubles is the double nearest to the exact product (`mul_of_isFinite`),
and so is the sum of two that are not negative (`add_of_isFinite`).  Neither is said of an operand
that is no number, whose bits an operation of the machine hands on.
-/

namespace LuaRuntime

open Float.Model (UnpackedFloat)

namespace Double

theorem lift₂_eq {f : Float → Float → Float} {x y : Double} {u : UnpackedFloat}
    (h : f x.toFloat y.toFloat = ⟨Float.Model.pack u⟩) (hu : (ofUnpacked u).isNaN = false) :
    lift₂ f x y = ofUnpacked u := by
  have hnan : (⟨Float.Model.pack u⟩ : Float).isNaN = false := isNaN_unpacked hu
  simp only [lift₂, h, hnan, Bool.false_eq_true, if_false]
  rfl

theorem mul_eq {x y : Double}
    (h : (ofUnpacked (.mul .binary64 (unpacked x) (unpacked y))).isNaN = false) :
    x * y = ofUnpacked (.mul .binary64 (unpacked x) (unpacked y)) := by
  refine lift₂_eq ?_ h
  rw [← unpack_toFloat, ← unpack_toFloat]
  rfl

theorem add_eq {x y : Double}
    (h : (ofUnpacked (.add .binary64 (unpacked x) (unpacked y))).isNaN = false) :
    x + y = ofUnpacked (.add .binary64 (unpacked x) (unpacked y)) := by
  refine lift₂_eq ?_ h
  rw [← unpack_toFloat, ← unpack_toFloat]
  rfl

theorem signOf_mul (a b : Bool) : signOf a * signOf b = signOf (a ^^ b) := by
  cases a <;> cases b <;> rfl

theorem magnitudeOf_le (n d : ℕ) : magnitudeOf n d ≤ infinityBits := min_le_right _ _

theorem isNaN_ofQuotient (negative : Bool) (n d : ℕ) : (ofQuotient negative n d).isNaN = false := by
  have hle := magnitudeOf_le n d
  rw [← Bool.not_eq_true, isNaN_iff, ofQuotient,
    magnitude_ofMagnitude _ (lt_of_le_of_lt hle infinityBits_lt)]
  omega

theorem magnitudeOf_zero (d : ℕ) : magnitudeOf 0 d = 0 := by
  simp [magnitudeOf, roundHalfEven]

theorem significand_bounds (m : ℕ) :
    significand m < 2 * fractionCount ∧ (shift m = 0 ∨ fractionCount ≤ significand m) := by
  have hmod : m % fractionCount < fractionCount := Nat.mod_lt m (by decide)
  rcases Nat.lt_or_ge m fractionCount with hsmall | hlarge
  · rw [significand_of_lt hsmall, shift_of_lt hsmall]
    exact ⟨by omega, .inl rfl⟩
  · simp only [significand, if_neg (Nat.not_lt.mpr hlarge)]
    exact ⟨by omega, .inr (by omega)⟩

theorem unitsOf_eq (m : ℕ) : unitsOf m = significand m * 2 ^ shift m := rfl

theorem unpackedOf_zero (negative : Bool) (e : ℤ) :
    unpackedOf negative 0 e = .zero (signOf negative) := rfl

theorem unpackedOf_of_ne_zero (negative : Bool) {m : ℕ} (h : m ≠ 0) (e : ℤ) :
    unpackedOf negative m e = .finite (signOf negative) m e (Nat.pos_of_ne_zero h) := dif_neg h

/-- The product of two finite numbers is the double nearest to their product. -/
theorem mul_of_isFinite {x y : Double} (hx : x.isFinite = true) (hy : y.isFinite = true) :
    x * y = ofQuotient (x.isNegative ^^ y.isNegative)
      (unitsOf x.magnitude * unitsOf y.magnitude) unitsPerOne := by
  have hproduct : ofUnpacked (.mul .binary64 (unpacked x) (unpacked y)) =
      ofQuotient (x.isNegative ^^ y.isNegative) (unitsOf x.magnitude * unitsOf y.magnitude)
        unitsPerOne := by
    obtain ⟨-, hlowx⟩ := significand_bounds x.magnitude
    obtain ⟨-, hlowy⟩ := significand_bounds y.magnitude
    rw [unpacked_of_isFinite hx, unpacked_of_isFinite hy, unitsOf_eq, unitsOf_eq]
    by_cases hzerox : significand x.magnitude = 0
    · simp only [hzerox, Nat.zero_mul, unpackedOf_zero, ofQuotient, magnitudeOf_zero,
        ← ofUnpacked_zero, ← signOf_mul]
      by_cases hzeroy : significand y.magnitude = 0
      · rw [hzeroy, unpackedOf_zero]
        rfl
      · rw [unpackedOf_of_ne_zero _ hzeroy]
        rfl
    by_cases hzeroy : significand y.magnitude = 0
    · simp only [hzeroy, Nat.zero_mul, Nat.mul_zero, unpackedOf_zero, ofQuotient, magnitudeOf_zero,
        ← ofUnpacked_zero, ← signOf_mul]
      rw [unpackedOf_of_ne_zero _ hzerox]
      rfl
    rw [unpackedOf_of_ne_zero _ hzerox, unpackedOf_of_ne_zero _ hzeroy]
    generalize significand x.magnitude = a at *
    generalize significand y.magnitude = b at *
    have hexponent : (shift x.magnitude : ℤ) - 1074 + (shift y.magnitude - 1074) =
        (shift x.magnitude + shift y.magnitude : ℕ) - (1074 : ℕ) - 1074 := by omega
    have hfits : (shift x.magnitude : ℤ) - 1074 + (shift y.magnitude - 1074) ≤
        max ((a * b).log2 + 1 + ((shift x.magnitude : ℤ) - 1074 + (shift y.magnitude - 1074)) - 53)
          (-1074) := by
      -- One of the factors has all its digits, or both have the least exponent.
      rcases Nat.lt_or_ge (a * b) fractionCount with hsmall | hlarge
      · have hxs : shift x.magnitude = 0 := hlowx.resolve_right fun hle =>
          absurd (Nat.le_mul_of_pos_right a (Nat.pos_of_ne_zero hzeroy)) (by omega)
        have hys : shift y.magnitude = 0 := hlowy.resolve_right fun hle =>
          absurd (Nat.le_mul_of_pos_left b (Nat.pos_of_ne_zero hzerox)) (by omega)
        omega
      · have hlog : 52 ≤ (a * b).log2 :=
          (Nat.le_log2 (Nat.mul_ne_zero hzerox hzeroy)).mpr hlarge
        omega
    have hround := ofUnpacked_round (x.isNegative ^^ y.isNegative)
      (Nat.mul_ne_zero hzerox hzeroy) hexponent hfits
    rw [← signOf_mul, ← unitsPerOne_eq_pow, Nat.pow_add] at hround
    rw [← Nat.mul_assoc, Nat.mul_right_comm a, Nat.mul_assoc (a * b)]
    exact hround
  rw [← hproduct]
  refine mul_eq ?_
  rw [hproduct]
  exact isNaN_ofQuotient _ _ _

theorem shift_mul_add_significand (m : ℕ) : shift m * fractionCount + significand m = m := by
  rcases Nat.lt_or_ge m fractionCount with hsmall | hlarge
  · rw [shift_of_lt hsmall, significand_of_lt hsmall, Nat.zero_mul, Nat.zero_add]
  · have hdiv : 1 ≤ m / fractionCount := (Nat.one_le_div_iff (by decide)).mpr hlarge
    have hsplit := Nat.div_add_mod' m fractionCount
    have hone := Nat.sub_mul (m / fractionCount) 1 fractionCount
    have hle := Nat.mul_le_mul_right fractionCount hdiv
    simp only [shift, significand, if_neg (Nat.not_lt.mpr hlarge)]
    omega

/-- A finite double is packed again as it was. -/
theorem ofUnpacked_unpacked {x : Double} (h : x.isFinite = true) : ofUnpacked (unpacked x) = x := by
  obtain ⟨hhigh, hlow⟩ := significand_bounds x.magnitude
  have hfinite : x.magnitude ≤ infinityBits := (of_decide_eq_true h : _ < _).le
  rw [unpacked_of_isFinite h, ofUnpacked_unpackedOf _ hhigh hlow, shift_mul_add_significand,
    min_eq_left hfinite]
  exact ofMagnitude_magnitude x

/-- A count of units is rounded to the nearest double. -/
theorem ofUnpacked_roundUnits (negative : Bool) {m : ℕ} (hm : m ≠ 0) (n : ℕ) :
    ofUnpacked (.round .binary64 (signOf negative) m (n - 1074)) =
      ofUnits negative (m * 2 ^ n) := by
  obtain ⟨k, hk⟩ : ∃ k : ℕ,
      ((n : ℤ) - 1074 - max (m.log2 + 1 + ((n : ℤ) - 1074) - 53) (-1074)).toNat = k := ⟨_, rfl⟩
  have hround : UnpackedFloat.round .binary64 (signOf negative) m (n - 1074) =
      .roundWithAccuracy .binary64 (signOf negative) (m * 2 ^ k) ((n : ℤ) - 1074 - k) .exact := by
    rw [← hk, ← Nat.shiftLeft_eq]
    rfl
  have hexponent : (n : ℤ) - 1074 - k = ((n - k : ℕ) : ℤ) - (0 : ℕ) - 1074 := by omega
  have hfits : (n : ℤ) - 1074 - k ≤
      max ((m * 2 ^ k).log2 + 1 + ((n : ℤ) - 1074 - k) - 53) (-1074) := by
    rw [log2_mul_two_pow hm]
    omega
  have hpow : m * 2 ^ k ≠ 0 := Nat.mul_ne_zero hm (Nat.two_pow_pos k).ne'
  rw [hround, ofUnpacked_round negative hpow hexponent hfits, Nat.mul_assoc, ← Nat.pow_add,
    Nat.add_sub_cancel' (by omega)]
  rfl

/-- The exact sum of two positive numbers of the machine is rounded. -/
theorem ofUnpacked_add {a b c d : ℕ} (ha : 0 < a) (hb : 0 < b) :
    ofUnpacked (.add .binary64 (.finite .positive a (c - 1074) ha)
      (.finite .positive b (d - 1074) hb)) = ofUnits false (a * 2 ^ c + b * 2 ^ d) := by
  have hleast : min ((c : ℤ) - 1074) (d - 1074) = (min c d : ℕ) - 1074 := by omega
  have hfirst : ((c : ℤ) - 1074 - ((min c d : ℕ) - 1074)).toNat = c - min c d := by omega
  have hsecond : ((d : ℤ) - 1074 - ((min c d : ℕ) - 1074)).toNat = d - min c d := by omega
  have hsum : UnpackedFloat.add .binary64 (.finite .positive a (c - 1074) ha)
      (.finite .positive b (d - 1074) hb) =
      .normalize .binary64 ((a * 2 ^ (c - min c d) + b * 2 ^ (d - min c d) : ℕ) : ℤ)
        ((min c d : ℕ) - 1074) .positive := by
    rw [← Nat.shiftLeft_eq, ← Nat.shiftLeft_eq, ← hfirst, ← hsecond, ← hleast]
    rfl
  have hpos : 0 < a * 2 ^ (c - min c d) + b * 2 ^ (d - min c d) := by positivity
  have hunits : (a * 2 ^ (c - min c d) + b * 2 ^ (d - min c d)) * 2 ^ min c d =
      a * 2 ^ c + b * 2 ^ d := by
    rw [Nat.add_mul, Nat.mul_assoc, Nat.mul_assoc, ← Nat.pow_add, ← Nat.pow_add,
      Nat.sub_add_cancel (min_le_left c d), Nat.sub_add_cancel (min_le_right c d)]
  rw [hsum, UnpackedFloat.normalize, compare_gt_iff_gt.mpr (by exact_mod_cast hpos), ← hunits]
  exact ofUnpacked_roundUnits false hpos.ne' (min c d)

/-- What is a double already is not rounded. -/
theorem magnitudeOf_unitsOf {m d : ℕ} (hm : m ≤ infinityBits) (hd : 0 < d) :
    magnitudeOf (unitsOf m * d) d = m := by
  have hnearest := nearestMagnitude_quotient (unitsOf m * d) hd
  have hquotient : ((unitsOf m * d : ℕ) : ℚ) / d = unitsOf m := by
    rw [Nat.cast_mul, mul_div_cancel_right₀ _ (Nat.cast_ne_zero.mpr hd.ne')]
  rw [hquotient] at hnearest
  have hown : magnitudeOf (unitsOf m * d) d =
      min (((unitsOf m * d / d).log2 - 52) * fractionCount +
        roundHalfEven (unitsOf m * d) (d * 2 ^ ((unitsOf m * d / d).log2 - 52))) infinityBits := rfl
  rw [hown, hnearest.eq, min_eq_left hm]

theorem ofUnits_unitsOf {x : Double} (h : x.isFinite = true) :
    ofUnits x.isNegative (unitsOf x.magnitude) = x := by
  have hfinite : x.magnitude ≤ infinityBits := (of_decide_eq_true h : _ < _).le
  have hown := magnitudeOf_unitsOf hfinite Nat.one_pos
  rw [Nat.mul_one] at hown
  rw [ofUnits, ofQuotient, hown]
  exact ofMagnitude_magnitude x

/-- The sum of two finite numbers that are not negative is the double nearest to their sum. -/
theorem add_of_isFinite {x y : Double} (hx : x.isFinite = true) (hy : y.isFinite = true)
    (hposx : x.isNegative = false) (hposy : y.isNegative = false) :
    x + y = ofUnits false (unitsOf x.magnitude + unitsOf y.magnitude) := by
  have hsum : ofUnpacked (.add .binary64 (unpacked x) (unpacked y)) =
      ofUnits false (unitsOf x.magnitude + unitsOf y.magnitude) := by
    have hunitsx := ofUnits_unitsOf hx
    have hunitsy := ofUnits_unitsOf hy
    have hpackedx := ofUnpacked_unpacked hx
    have hpackedy := ofUnpacked_unpacked hy
    rw [unpacked_of_isFinite hx, hposx] at *
    rw [unpacked_of_isFinite hy, hposy] at *
    by_cases hzerox : significand x.magnitude = 0
    · rw [unitsOf_eq x.magnitude, hzerox, Nat.zero_mul, Nat.zero_add, hunitsy, unpackedOf_zero]
      refine Eq.trans ?_ hpackedy
      by_cases hzeroy : significand y.magnitude = 0
      · rw [hzeroy, unpackedOf_zero]
        rfl
      · rw [unpackedOf_of_ne_zero _ hzeroy]
        rfl
    by_cases hzeroy : significand y.magnitude = 0
    · rw [unitsOf_eq y.magnitude, hzeroy, Nat.zero_mul, Nat.add_zero, hunitsx, unpackedOf_zero]
      refine Eq.trans ?_ hpackedx
      rw [unpackedOf_of_ne_zero _ hzerox]
      rfl
    rw [unpackedOf_of_ne_zero _ hzerox, unpackedOf_of_ne_zero _ hzeroy]
    exact ofUnpacked_add _ _
  rw [← hsum]
  refine add_eq ?_
  rw [hsum]
  exact isNaN_ofQuotient _ _ _

/-! ## Natural numbers -/

theorem exact_ofMagnitude (negative : Bool) {m : ℕ} (h : m < infinityBits) :
    (ofMagnitude negative m).exact = .finite negative (unitsOf m) := by
  have hlt := h.trans infinityBits_lt
  have hmagnitude := magnitude_ofMagnitude negative hlt
  have hnan : (ofMagnitude negative m).isNaN = false := by
    simp only [isNaN, hmagnitude, decide_eq_false_iff_not]
    omega
  have hinfinite : (ofMagnitude negative m).isInfinite = false := by
    simp only [isInfinite, hmagnitude, beq_eq_false_iff_ne]
    omega
  simp [exact, hnan, hinfinite, hmagnitude, isNegative_ofMagnitude negative hlt]

theorem exact_ofNatural (negative : Bool) {n : ℕ} (h : n ≤ 2 ^ 53) :
    (ofNatural negative n).exact = .finite negative (n * unitsPerOne) := by
  rw [ofNatural, exact_ofMagnitude negative (magnitudeOfNat_lt h), unitsOf_magnitudeOfNat h]

/-- As many units as a natural number has are rounded to that number. -/
theorem ofQuotient_natural {n d : ℕ} (h : n ≤ 2 ^ 53) (hd : 0 < d) :
    ofQuotient false (n * unitsPerOne * d) d = ofNat n := by
  rw [ofQuotient, ← unitsOf_magnitudeOfNat h, magnitudeOf_unitsOf (magnitudeOfNat_lt h).le hd]
  rfl

theorem ofNat_mul {m n : ℕ} (hm : m ≤ 2 ^ 53) (hn : n ≤ 2 ^ 53) (h : m * n ≤ 2 ^ 53) :
    ofNat m * ofNat n = ofNat (m * n) := by
  rw [mul_of_isFinite (isFinite_ofNat hm) (isFinite_ofNat hn), isNegative_ofNat hm,
    isNegative_ofNat hn, Bool.xor_self, magnitude_ofNat hm, magnitude_ofNat hn,
    unitsOf_magnitudeOfNat hm, unitsOf_magnitudeOfNat hn, ← Nat.mul_assoc, Nat.mul_right_comm m,
    ofQuotient_natural h unitsPerOne_pos]

theorem ofNat_add {m n : ℕ} (h : m + n ≤ 2 ^ 53) : ofNat m + ofNat n = ofNat (m + n) := by
  have hm : m ≤ 2 ^ 53 := by omega
  have hn : n ≤ 2 ^ 53 := by omega
  have hunits := ofQuotient_natural h Nat.one_pos
  rw [Nat.mul_one] at hunits
  rw [add_of_isFinite (isFinite_ofNat hm) (isFinite_ofNat hn) (isNegative_ofNat hm)
    (isNegative_ofNat hn), magnitude_ofNat hm, magnitude_ofNat hn, unitsOf_magnitudeOfNat hm,
    unitsOf_magnitudeOfNat hn, ← Nat.add_mul, ofUnits, hunits]

/-! ## Positive infinity -/

theorem eq_infinity {x : Double} (hnegative : x.isNegative = false) (h : x.isInfinite = true) :
    x = infinity false := by
  have hmagnitude : x.magnitude = infinityBits := of_decide_eq_true h
  refine eq_of_magnitude_eq ?_ ?_
  · rw [hnegative, infinity, isNegative_ofMagnitude _ infinityBits_lt]
  · rw [hmagnitude, infinity, magnitude_ofMagnitude _ infinityBits_lt]

theorem isNaN_infinity : (infinity false).isNaN = false := by decide

theorem unpacked_infinity : unpacked (infinity false) = .infinity .positive := by
  have hinfinite : (infinity false).isInfinite = true := by decide
  exact unpacked_of_isInfinite hinfinite

theorem ofUnpacked_positive : ofUnpacked (.infinity .positive) = infinity false :=
  ofUnpacked_infinity false

/-- Infinity times a positive number is infinity. -/
theorem infinity_mul {n : ℕ} (hpos : 0 < n) (h : n ≤ 2 ^ 53) :
    infinity false * ofNat n = infinity false := by
  have hunits : 0 < significand (magnitudeOfNat n) := by
    have := unitsOf_magnitudeOfNat h
    rw [unitsOf_eq] at this
    refine Nat.pos_of_ne_zero fun hzero => ?_
    rw [hzero, Nat.zero_mul] at this
    exact absurd this.symm (Nat.mul_pos hpos unitsPerOne_pos).ne'
  have hproduct : UnpackedFloat.mul .binary64 (unpacked (infinity false)) (unpacked (ofNat n)) =
      .infinity .positive := by
    rw [unpacked_infinity, unpacked_of_isFinite (isFinite_ofNat h), isNegative_ofNat h,
      magnitude_ofNat h, unpackedOf_of_ne_zero _ hunits.ne']
    rfl
  rw [mul_eq] <;> rw [hproduct, ofUnpacked_positive]
  exact isNaN_infinity

/-- Infinity plus a number is infinity. -/
theorem infinity_add {n : ℕ} (h : n ≤ 2 ^ 53) : infinity false + ofNat n = infinity false := by
  have hsum : UnpackedFloat.add .binary64 (unpacked (infinity false)) (unpacked (ofNat n)) =
      .infinity .positive := by
    rw [unpacked_infinity, unpacked_of_isFinite (isFinite_ofNat h), unpackedOf]
    split <;> rfl
  rw [add_eq] <;> rw [hsum, ofUnpacked_positive]
  exact isNaN_infinity

theorem isNegative_ofQuotient (n d : ℕ) : (ofQuotient false n d).isNegative = false :=
  isNegative_ofMagnitude false (lt_of_le_of_lt (magnitudeOf_le n d) infinityBits_lt)

/-- A number that is not negative stays one when a digit is put behind it. -/
theorem mul_add_digit {x : Double} {base digit : ℕ} (hnan : x.isNaN = false)
    (hnegative : x.isNegative = false) (hpos : 0 < base) (hbase : base ≤ 2 ^ 53)
    (hdigit : digit ≤ 2 ^ 53) :
    (x * ofNat base + ofNat digit).isNaN = false ∧
      (x * ofNat base + ofNat digit).isNegative = false := by
  have hplus (y : Double) (hy : y.isNaN = false) (hsign : y.isNegative = false) :
      (y + ofNat digit).isNaN = false ∧ (y + ofNat digit).isNegative = false := by
    rcases isFinite_or_isInfinite hy with hfinite | hinfinite
    · rw [add_of_isFinite hfinite (isFinite_ofNat hdigit) hsign (isNegative_ofNat hdigit)]
      exact ⟨isNaN_ofQuotient _ _ _, isNegative_ofQuotient _ _⟩
    · rw [eq_infinity hsign hinfinite, infinity_add hdigit]
      decide
  rcases isFinite_or_isInfinite hnan with hfinite | hinfinite
  · refine hplus _ ?_ ?_
    all_goals rw [mul_of_isFinite hfinite (isFinite_ofNat hbase), hnegative, isNegative_ofNat hbase]
    · exact isNaN_ofQuotient _ _ _
    · exact isNegative_ofQuotient _ _
  · rw [eq_infinity hnegative hinfinite, infinity_mul hpos hbase]
    exact hplus _ isNaN_infinity (by decide)

end Double

end LuaRuntime
