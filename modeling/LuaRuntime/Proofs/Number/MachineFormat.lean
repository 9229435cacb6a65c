import LuaRuntime.Number.Arithmetic
import LuaRuntime.Proofs.Number.Nearest
import Mathlib

/-!
# The number format of the machine

The machine takes a double apart into a sign, a mantissa and an exponent, and packs the parts of an
answer again.  `unpacked_of_isFinite` and `ofUnpacked_unpackedOf` give both ways in terms of
magnitudes, significands and shifts.

An answer with too many digits is shifted to the right, and two bits behind its mantissa keep what
is lost.  They need not say what fraction that is, only how it compares with a half
(`KeepsFraction`): a shift by one digit preserves that, and it decides how the mantissa is rounded.
So the machine rounds as `ofQuotient` does (`ofUnpacked_round`).

The facts about packed numbers that this rests on come only with the whole of Mathlib.
-/

namespace LuaRuntime

open Float.Model (Format UnpackedFloat)
open Float.Model.UnpackedFloat (Accuracy ExtendedMantissa Sign)

/-! ## Mantissas -/

/-- The two bits behind a mantissa say whether a fraction is zero, less than a half, a half or
more. -/
structure KeepsFraction (em : ExtendedMantissa) (f : ℚ) : Prop where
  nonneg : 0 ≤ f
  lt_one : f < 1
  half : em.roundBit = true ↔ 1 / 2 ≤ f
  rest : em.stickyBit = true ↔ f ≠ 0 ∧ f ≠ 1 / 2

namespace KeepsFraction

variable {em : ExtendedMantissa} {f : ℚ}

theorem zero (m : ℕ) : KeepsFraction ⟨m, false, false⟩ 0 := by
  constructor <;> norm_num

/-- Both bits are clear exactly if there is no fraction. -/
theorem any_iff (h : KeepsFraction em f) : (em.roundBit || em.stickyBit) = true ↔ f ≠ 0 := by
  rw [Bool.or_eq_true, h.half, h.rest]
  constructor
  · rintro (hhalf | hrest)
    · linarith
    · exact hrest.1
  · intro hne
    by_cases hhalf : f = 1 / 2
    · exact .inl hhalf.ge
    · exact .inr ⟨hne, hhalf⟩

/-- The digit shifted out of the mantissa comes before the fraction. -/
theorem shiftRightOne (h : KeepsFraction em f) :
    KeepsFraction em.shiftRightOne (((em.mantissa % 2 : ℕ) + f) / 2) := by
  have hany := h.any_iff
  have hnonneg := h.nonneg
  have hlt := h.lt_one
  rcases Nat.mod_two_eq_zero_or_one em.mantissa with hdigit | hdigit
  · simp only [hdigit, Nat.cast_zero, zero_add]
    refine ⟨by linarith, by linarith, ?_, ?_⟩
    · simp only [ExtendedMantissa.shiftRightOne, hdigit]
      exact iff_of_false (by decide) (by linarith)
    · rw [ExtendedMantissa.shiftRightOne, hany]
      exact ⟨fun hne => ⟨by positivity, by linarith⟩, fun hne hzero => hne.1 (by simp [hzero])⟩
  · simp only [hdigit, Nat.cast_one]
    refine ⟨by linarith, by linarith, ?_, ?_⟩
    · simp only [ExtendedMantissa.shiftRightOne, hdigit]
      exact iff_of_true rfl (by linarith)
    · rw [ExtendedMantissa.shiftRightOne, hany]
      constructor
      · intro hne
        refine ⟨by linarith, fun hhalf => hne (by linarith)⟩
      · rintro ⟨-, hhalf⟩ rfl
        norm_num at hhalf

/-- A mantissa rounded by the bits behind it is the nearest integer. -/
theorem nearestEven (h : KeepsFraction em f) :
    NearestEven (em.mantissa + f) em.roundedMantissa := by
  obtain ⟨m, round, sticky⟩ := em
  obtain ⟨hnonneg, hlt, hhalf, hrest⟩ := h
  dsimp only at hhalf hrest ⊢
  cases round with
  | false =>
    have hless : f < 1 / 2 := by simpa using hhalf
    have hrounded : (⟨m, false, sticky⟩ : ExtendedMantissa).roundedMantissa = m := by
      cases sticky <;> rfl
    rw [hrounded]
    refine .of_lt ?_
    rw [Int.cast_natCast, add_sub_cancel_left, abs_of_nonneg hnonneg]
    exact hless
  | true =>
    have hmore : 1 / 2 ≤ f := hhalf.mp rfl
    cases sticky with
    | true =>
      have hne : f ≠ 1 / 2 := (hrest.mp rfl).2
      have hrounded : (⟨m, true, true⟩ : ExtendedMantissa).roundedMantissa = m + 1 := rfl
      rw [hrounded]
      refine .of_lt ?_
      push_cast
      rw [abs_of_nonpos (by linarith)]
      have := lt_of_le_of_ne hmore hne.symm
      linarith
    | false =>
      -- A tie goes to the even neighbour.
      obtain rfl : f = 1 / 2 := by
        by_contra hne
        exact absurd (hrest.mpr ⟨by linarith, hne⟩) (by simp)
      have hrounded : (⟨m, true, false⟩ : ExtendedMantissa).roundedMantissa = m + m % 2 := rfl
      rw [hrounded]
      have hdigit : (m : ℚ) + 1 / 2 - ((m + m % 2 : ℕ) : ℤ) = 1 / 2 - (m % 2 : ℕ) := by
        rw [Int.cast_natCast, Nat.cast_add]
        ring
      refine ⟨?_, fun _ => ?_⟩
      · rw [hdigit]
        rcases Nat.mod_two_eq_zero_or_one m with h | h <;> rw [h] <;> norm_num
      · rw [Int.even_coe_nat, Nat.even_iff]
        omega

end KeepsFraction

/-- Shifting a mantissa to the right divides it, and the bits behind it keep what is lost. -/
theorem exists_keepsFraction (m k : ℕ) :
    ∃ f, KeepsFraction ((⟨m, false, false⟩ : ExtendedMantissa) >>> k) f ∧
      ((((⟨m, false, false⟩ : ExtendedMantissa) >>> k).mantissa : ℚ) + f) = m / 2 ^ k := by
  induction k with
  | zero => exact ⟨0, .zero m, by simp [HShiftRight.hShiftRight, Nat.repeat]⟩
  | succ k ih =>
    obtain ⟨f, hkeeps, hvalue⟩ := ih
    refine ⟨_, hkeeps.shiftRightOne, ?_⟩
    set em := (⟨m, false, false⟩ : ExtendedMantissa) >>> k
    have hsplit : (em.mantissa : ℚ) = 2 * (em.mantissa / 2 : ℕ) + (em.mantissa % 2 : ℕ) := by
      exact_mod_cast (Nat.div_add_mod em.mantissa 2).symm
    calc ((em.mantissa / 2 : ℕ) : ℚ) + ((em.mantissa % 2 : ℕ) + f) / 2
        = (em.mantissa + f) / 2 := by rw [hsplit]; ring
      _ = m / 2 ^ (k + 1) := by rw [hvalue, pow_succ, div_div]

theorem mantissa_shiftRight (m k : ℕ) :
    ((⟨m, false, false⟩ : ExtendedMantissa) >>> k).mantissa = m / 2 ^ k := by
  induction k with
  | zero => simp [HShiftRight.hShiftRight, Nat.repeat]
  | succ k ih =>
    rw [Nat.pow_succ, ← Nat.div_div_eq_div_mul, ← ih]
    rfl

theorem roundedMantissa_shiftRight (m k : ℕ) :
    ((⟨m, false, false⟩ : ExtendedMantissa) >>> k).roundedMantissa = roundHalfEven m (2 ^ k) := by
  obtain ⟨f, hkeeps, hvalue⟩ := exists_keepsFraction m k
  have hround := nearestEven_roundHalfEven m (Nat.two_pow_pos k)
  rw [Nat.cast_pow, Nat.cast_ofNat, ← hvalue] at hround
  exact_mod_cast hkeeps.nearestEven.unique hround

theorem roundHalfEven_bounds (n d : ℕ) :
    n / d ≤ roundHalfEven n d ∧ roundHalfEven n d ≤ n / d + 1 := by
  simp only [roundHalfEven]
  split_ifs <;> omega

/-- A common factor does not change a quotient. -/
theorem roundHalfEven_mul_mul (n d : ℕ) {c : ℕ} (hc : 0 < c) :
    roundHalfEven (n * c) (d * c) = roundHalfEven n d := by
  simp only [roundHalfEven, Nat.mul_div_mul_right _ _ hc, Nat.mul_mod_mul_right, ← Nat.mul_assoc,
    Nat.mul_lt_mul_right hc]

namespace Double

/-! ## Packing -/

/-- A sign of the machine. -/
def signOf (negative : Bool) : Sign := if negative then .negative else .positive

/-- The double of a number that has been taken apart. -/
def ofUnpacked (u : UnpackedFloat) : Double := ⟨⟨UnpackedFloat.pack .binary64 u⟩⟩

theorem toNat_packComponents (negative : Bool) (e : BitVec 11) (m : BitVec 52) :
    BitVec.toNat (UnpackedFloat.packComponents .binary64 (signOf negative) e m) =
      (if negative then 2 ^ 63 else 0) + (e.toNat * fractionCount + m.toNat) := by
  have he := e.isLt
  have hm := m.isLt
  show BitVec.toNat ((signOf negative).toBitVec ++ e ++ m) = _
  rw [BitVec.toNat_append, BitVec.toNat_append, ← Nat.shiftLeft_add_eq_or_of_lt m.isLt,
    ← Nat.shiftLeft_add_eq_or_of_lt e.isLt, Nat.shiftLeft_eq, Nat.shiftLeft_eq, fractionCount]
  cases negative
  · simp [signOf, Sign.toBitVec]
  · simp [signOf, Sign.toBitVec]
    omega

theorem ofUnpacked_eq {u : UnpackedFloat} {negative : Bool} {m : ℕ} (hm : m < 2 ^ 63)
    (h : BitVec.toNat (UnpackedFloat.pack .binary64 u) = (if negative then 2 ^ 63 else 0) + m) :
    ofUnpacked u = ofMagnitude negative m := by
  have hbits : (ofUnpacked u).bits = (ofMagnitude negative m).bits := by
    rw [← UInt64.toNat_inj, toNat_bits_ofMagnitude negative hm, ← h]
    rfl
  rw [← Double.mk.injEq] at hbits
  exact hbits

theorem infinityBits_lt : infinityBits < 2 ^ 63 := by decide

theorem ofUnpacked_zero (negative : Bool) :
    ofUnpacked (.zero (signOf negative)) = ofMagnitude negative 0 := by
  refine ofUnpacked_eq (by decide) ?_
  rw [UnpackedFloat.pack, UnpackedFloat.packedZero, toNat_packComponents]
  rfl

theorem ofUnpacked_infinity (negative : Bool) :
    ofUnpacked (.infinity (signOf negative)) = infinity negative := by
  refine ofUnpacked_eq infinityBits_lt ?_
  rw [UnpackedFloat.pack, UnpackedFloat.packedInfinity, toNat_packComponents]
  rfl

/-- A mantissa that fits is packed behind its exponent. -/
theorem ofUnpacked_finite (negative : Bool) {m d : ℕ} (hpos : 0 < m) (hlt : m < 2 * fractionCount)
    (hlow : d = 0 ∨ fractionCount ≤ m) :
    ofUnpacked (.finite (signOf negative) m (d - 1074) hpos) =
      ofMagnitude negative (min (d * fractionCount + m) infinityBits) := by
  have hcount : fractionCount = 2 ^ 52 := rfl
  have hbiased :
      ((d : ℤ) - 1074 + (Format.binary64.exponentBias : ℕ) + (52 : ℕ)).toNat = d + 1 := by
    show ((d : ℤ) - 1074 + (1023 : ℕ) + (52 : ℕ)).toNat = d + 1
    omega
  refine ofUnpacked_eq (lt_of_le_of_lt (min_le_right _ _) infinityBits_lt) ?_
  rw [UnpackedFloat.pack.eq_4, hbiased]
  split
  · next hlarge =>
    have hd : 2046 ≤ d := by
      have : 2048 ≤ d + 1 + 1 := hlarge
      omega
    have hm := hlow.resolve_left (by omega)
    have hinf : infinityBits ≤ d * fractionCount + m := by
      have : 2046 * fractionCount ≤ d * fractionCount := Nat.mul_le_mul_right _ hd
      have : infinityBits = 2046 * fractionCount + fractionCount := rfl
      omega
    rw [UnpackedFloat.packedInfinity, toNat_packComponents, min_eq_right hinf]
    rfl
  · next hsmall =>
    have hd : d < 2046 := by
      by_contra hge
      exact hsmall (show 2048 ≤ d + 1 + 1 by omega)
    have hfits : d * fractionCount + m ≤ infinityBits := by
      have : d * fractionCount ≤ 2045 * fractionCount := Nat.mul_le_mul_right _ (by omega)
      have : infinityBits = 2045 * fractionCount + 2 * fractionCount := rfl
      omega
    rw [min_eq_left hfits]
    split
    · next hlog =>
      have hm : fractionCount ≤ m := by
        rw [hcount, ← Nat.le_log2 hpos.ne']
        have : m.log2 + 1 = 53 := hlog
        omega
      have hfraction : m % 2 ^ 52 = m - fractionCount := by
        rw [hcount] at hlt hm ⊢
        omega
      have hexponent : (d + 1) % 2 ^ 11 = d + 1 := Nat.mod_eq_of_lt (by omega)
      rw [toNat_packComponents, BitVec.toNat_ofNat, BitVec.toNat_ofNat, hfraction, hexponent,
        Nat.add_one_mul]
      omega
    · next hlog =>
      have hm : m < fractionCount := by
        by_contra hge
        have hlog' : m.log2 = 52 :=
          (Nat.log2_eq_iff hpos.ne').mpr ⟨Nat.le_of_not_lt hge, hlt⟩
        exact hlog (by rw [hlog']; rfl)
      obtain rfl : d = 0 := hlow.resolve_right (Nat.not_le_of_lt hm)
      have hfraction : m % 2 ^ 52 = m := Nat.mod_eq_of_lt hm
      rw [toNat_packComponents, BitVec.toNat_ofNat, BitVec.toNat_ofNat, hfraction]

/-- A mantissa and an exponent, zero if the mantissa is. -/
def unpackedOf (negative : Bool) (m : ℕ) (e : ℤ) : UnpackedFloat :=
  if h : m = 0 then .zero (signOf negative)
  else .finite (signOf negative) m e (Nat.pos_of_ne_zero h)

theorem finite_eq_unpackedOf (negative : Bool) {m n : ℕ} {e e' : ℤ} (hpos : 0 < m) (hm : m = n)
    (he : e = e') : UnpackedFloat.finite (signOf negative) m e hpos = unpackedOf negative n e' := by
  subst hm he
  rw [unpackedOf, dif_neg hpos.ne']

theorem ofUnpacked_unpackedOf (negative : Bool) {m d : ℕ} (hlt : m < 2 * fractionCount)
    (hlow : d = 0 ∨ fractionCount ≤ m) :
    ofUnpacked (unpackedOf negative m (d - 1074)) =
      ofMagnitude negative (min (d * fractionCount + m) infinityBits) := by
  rw [unpackedOf]
  split
  · next hzero =>
    subst hzero
    obtain rfl : d = 0 := hlow.resolve_right (by decide)
    exact ofUnpacked_zero negative
  · next hne => exact ofUnpacked_finite negative _ hlt hlow

/-! ## Rounding -/

theorem targetExponent_eq (m : ℕ) (e : ℤ) :
    Format.binary64.targetExponent (Float.Model.totalExponent m e) =
      max (m.log2 + 1 + e - 53) (-1074) := rfl

/-- A mantissa shifted to an exponent that is no less. -/
theorem shiftToTargetExponent_eq {m k : ℕ} {e : ℤ}
    (h : max (m.log2 + 1 + e - 53) (-1074) = e + k) :
    UnpackedFloat.shiftToTargetExponent .binary64 m e .exact =
      ((⟨m, false, false⟩ : ExtendedMantissa) >>> k, e + k) := by
  have hk : (e + k - e).toNat = k := by omega
  rw [UnpackedFloat.shiftToTargetExponent, targetExponent_eq, h]
  simp only [UnpackedFloat.shiftToExponent, hk]
  rfl

theorem roundWithAccuracy_eq (negative : Bool) (m : ℕ) (e : ℤ) :
    UnpackedFloat.roundWithAccuracy .binary64 (signOf negative) m e .exact =
      let shifted := UnpackedFloat.shiftToTargetExponent .binary64 m e .exact
      let rounded := UnpackedFloat.shiftToTargetExponent .binary64 shifted.1.roundedMantissa
        shifted.2 .exact
      unpackedOf negative rounded.1.mantissa rounded.2 := rfl

/-- A mantissa is rounded at the last digit that it has room for. -/
theorem ofUnpacked_roundWithAccuracy (negative : Bool) {m d k : ℕ} {e : ℤ} (hm : m ≠ 0)
    (htarget : max (m.log2 + 1 + e - 53) (-1074) = e + k) (hd : e + k = d - 1074) :
    ofUnpacked (UnpackedFloat.roundWithAccuracy .binary64 (signOf negative) m e .exact) =
      ofMagnitude negative
        (min (d * fractionCount + roundHalfEven m (2 ^ k)) infinityBits) := by
  have hcount : fractionCount = 2 ^ 52 := rfl
  have hpow : 0 < 2 ^ k := Nat.two_pow_pos k
  have hbounds := roundHalfEven_bounds m (2 ^ k)
  have hhigh : roundHalfEven m (2 ^ k) ≤ 2 * fractionCount := by
    have hlt : m / 2 ^ k < 2 * fractionCount := by
      rw [Nat.div_lt_iff_lt_mul hpow]
      calc m < 2 ^ (m.log2 + 1) := Nat.lt_log2_self
        _ ≤ 2 ^ (53 + k) := Nat.pow_le_pow_right (by norm_num) (by omega)
        _ = 2 * fractionCount * 2 ^ k := by rw [Nat.pow_add]; rfl
    omega
  have hlow : d = 0 ∨ fractionCount ≤ roundHalfEven m (2 ^ k) := by
    by_cases hzero : d = 0
    · exact .inl hzero
    · refine .inr (le_trans ?_ hbounds.1)
      rw [Nat.le_div_iff_mul_le hpow]
      calc fractionCount * 2 ^ k = 2 ^ (52 + k) := by rw [Nat.pow_add]; rfl
        _ = 2 ^ m.log2 := by congr 1; omega
        _ ≤ m := Nat.log2_self_le hm
  rw [roundWithAccuracy_eq, shiftToTargetExponent_eq htarget]
  dsimp only
  rw [roundedMantissa_shiftRight, hd]
  generalize roundHalfEven m (2 ^ k) = r at hhigh hlow
  rcases Nat.lt_or_eq_of_le hhigh with hlt | rfl
  · -- The rounded mantissa still fits.
    have hkept : max ((r.log2 : ℤ) + 1 + (d - 1074) - 53) (-1074) = d - 1074 + (0 : ℕ) := by
      have hlog : r.log2 ≤ 52 := by
        rcases Nat.eq_zero_or_pos r with rfl | hpos
        · decide
        · exact Nat.le_of_lt_succ ((Nat.log2_lt hpos.ne').mpr hlt)
      have hleast : d = 0 ∨ 52 ≤ r.log2 :=
        hlow.imp_right fun hle => (Nat.le_log2 (by omega)).mpr hle
      omega
    rw [shiftToTargetExponent_eq hkept, mantissa_shiftRight, Nat.pow_zero, Nat.div_one]
    simpa using ofUnpacked_unpackedOf negative hlt hlow
  · -- Rounding has carried over into a new digit.
    have hlog : (2 * fractionCount).log2 = 53 := by decide +kernel
    have hcarried : max (((2 * fractionCount).log2 : ℤ) + 1 + (d - 1074) - 53) (-1074) =
        d - 1074 + (1 : ℕ) := by omega
    have hexponent : (d : ℤ) - 1074 + (1 : ℕ) = (d + 1 : ℕ) - 1074 := by omega
    rw [shiftToTargetExponent_eq hcarried, mantissa_shiftRight, hexponent,
      show 2 * fractionCount / 2 ^ 1 = fractionCount from rfl,
      ofUnpacked_unpackedOf negative (by decide) (.inr le_rfl), Nat.add_one_mul, Nat.add_assoc,
      Nat.two_mul]

theorem log2_mul_two_pow {m : ℕ} (hm : m ≠ 0) (a : ℕ) : (m * 2 ^ a).log2 = m.log2 + a := by
  have hpow : 0 < 2 ^ a := Nat.two_pow_pos a
  rw [Nat.log2_eq_iff (by positivity), Nat.pow_add, Nat.add_right_comm, Nat.pow_add]
  exact ⟨Nat.mul_le_mul_right _ (Nat.log2_self_le hm),
    Nat.mul_lt_mul_of_pos_right Nat.lt_log2_self hpow⟩

/-- A number of the machine is rounded to the nearest double. -/
theorem ofUnpacked_round (negative : Bool) {m a b : ℕ} {e : ℤ} (hm : m ≠ 0)
    (he : e = (a : ℤ) - b - 1074) (hfits : e ≤ max (m.log2 + 1 + e - 53) (-1074)) :
    ofUnpacked (UnpackedFloat.roundWithAccuracy .binary64 (signOf negative) m e .exact) =
      ofQuotient negative (m * 2 ^ a) (2 ^ b) := by
  have hlog : (m * 2 ^ a / 2 ^ b).log2 = m.log2 + a - b := by
    rw [← log2_mul_two_pow hm, Nat.log2_eq_log_two, Nat.log2_eq_log_two, Nat.log_div_base_pow]
  obtain ⟨k, hk⟩ : ∃ k : ℕ, max ((m.log2 : ℤ) + 1 + e - 53) (-1074) = e + k :=
    ⟨(max ((m.log2 : ℤ) + 1 + e - 53) (-1074) - e).toNat, by omega⟩
  have hd : e + k = ((m.log2 + a - b - 52 : ℕ) : ℤ) - 1074 := by omega
  have hpow : 2 ^ b * 2 ^ (m.log2 + a - b - 52) = 2 ^ k * 2 ^ a := by
    rw [← Nat.pow_add, ← Nat.pow_add]
    congr 1
    omega
  have hdropped : Nat.pow 2 (m.log2 + a - b - 52) = 2 ^ (m.log2 + a - b - 52) := rfl
  rw [ofUnpacked_roundWithAccuracy negative hm hk hd]
  simp only [ofQuotient, magnitudeOf, hlog, hdropped, hpow,
    roundHalfEven_mul_mul _ _ (Nat.two_pow_pos a)]

/-! ## Unpacking -/

/-- A double taken apart. -/
def unpacked (x : Double) : UnpackedFloat := UnpackedFloat.unpack .binary64 x.bits.toBitVec

section

variable (x : Double)

theorem toNat_unpackExponent :
    BitVec.toNat (@UnpackedFloat.unpackExponent .binary64 x.bits.toBitVec) =
      x.magnitude / fractionCount := by
  have hlt := magnitude_lt x
  rw [UnpackedFloat.unpackExponent_def, BitVec.extractLsb'_toNat, UInt64.toNat_toBitVec,
    toNat_bits, Nat.shiftRight_eq_div_pow]
  show ((if x.isNegative then 2 ^ 63 else 0) + x.magnitude) / 2 ^ 52 % 2 ^ 11 = x.magnitude / 2 ^ 52
  split <;> omega

theorem toNat_unpackMantissa :
    BitVec.toNat (@UnpackedFloat.unpackMantissa .binary64 x.bits.toBitVec) =
      x.magnitude % fractionCount := by
  rw [UnpackedFloat.unpackMantissa_def, BitVec.extractLsb'_toNat, UInt64.toNat_toBitVec,
    toNat_bits, Nat.shiftRight_zero]
  show ((if x.isNegative then 2 ^ 63 else 0) + x.magnitude) % 2 ^ 52 = x.magnitude % 2 ^ 52
  split <;> omega

theorem ofBitVec_unpackSign :
    Sign.ofBitVec (@UnpackedFloat.unpackSign .binary64 x.bits.toBitVec) =
      signOf x.isNegative := by
  have hlt := magnitude_lt x
  have hbit : @UnpackedFloat.unpackSign .binary64 x.bits.toBitVec =
      BitVec.ofNat 1 (if x.isNegative then 1 else 0) := by
    apply BitVec.eq_of_toNat_eq
    rw [UnpackedFloat.unpackSign_def, BitVec.extractLsb'_toNat, UInt64.toNat_toBitVec,
      toNat_bits, Nat.shiftRight_eq_div_pow]
    show ((if x.isNegative then 2 ^ 63 else 0) + x.magnitude) / 2 ^ 63 % 2 ^ 1 = _ % 2 ^ 1
    split <;> omega
  rw [hbit]
  cases x.isNegative <;> rfl

/-- The mantissa of a finite double is its significand. -/
theorem unpacked_of_isFinite {x : Double} (h : x.isFinite = true) :
    unpacked x =
      unpackedOf x.isNegative (significand x.magnitude) (shift x.magnitude - 1074) := by
  have hexponent := toNat_unpackExponent x
  have hmantissa := toNat_unpackMantissa x
  have hfinite : x.magnitude / fractionCount < 2047 :=
    Nat.div_lt_of_lt_mul (of_decide_eq_true h)
  have hne : @UnpackedFloat.unpackExponent .binary64 x.bits.toBitVec ≠ -1#11 := by
    intro heq
    rw [heq] at hexponent
    exact absurd hexponent (Nat.ne_of_gt hfinite)
  rw [unpacked, UnpackedFloat.unpack, ofBitVec_unpackSign]
  dsimp only
  rw [if_neg hne]
  split
  · next hzero =>
    have hsmall : x.magnitude < fractionCount := by
      rw [hzero] at hexponent
      exact (Nat.div_eq_zero_iff_lt (by decide)).mp hexponent.symm
    rw [Nat.mod_eq_of_lt hsmall] at hmantissa
    rw [shift_of_lt hsmall, significand_of_lt hsmall]
    split
    · next hnone =>
      rw [hnone] at hmantissa
      rw [← hmantissa]
      rfl
    · next hsome =>
      refine finite_eq_unpackedOf _ _ hmantissa ?_
      rw [hexponent, Nat.div_eq_of_lt hsmall]
      rfl
  · next hsome =>
    have hpos : 0 < x.magnitude / fractionCount := by
      rw [← hexponent]
      refine Nat.pos_of_ne_zero fun hzero => hsome ?_
      exact BitVec.eq_of_toNat_eq hzero
    have hlarge : ¬ x.magnitude < fractionCount := fun hlt =>
      absurd (Nat.div_eq_of_lt hlt) hpos.ne'
    refine finite_eq_unpackedOf _ _ ?_ ?_
    · rw [BitVec.toNat_append, ← Nat.shiftLeft_add_eq_or_of_lt (BitVec.isLt _), hmantissa,
        significand, if_neg hlarge]
      rfl
    · rw [hexponent, shift]
      show ((x.magnitude / fractionCount : ℕ) : ℤ) - ((1023 : ℕ) + (52 : ℕ)) = _
      omega

theorem unpacked_of_isInfinite {x : Double} (h : x.isInfinite = true) :
    unpacked x = .infinity (signOf x.isNegative) := by
  have hmagnitude : x.magnitude = infinityBits := of_decide_eq_true h
  have hexponent : @UnpackedFloat.unpackExponent .binary64 x.bits.toBitVec = -1#11 := by
    apply BitVec.eq_of_toNat_eq
    rw [toNat_unpackExponent, hmagnitude]
    decide
  have hmantissa : @UnpackedFloat.unpackMantissa .binary64 x.bits.toBitVec = 0#52 := by
    apply BitVec.eq_of_toNat_eq
    rw [toNat_unpackMantissa, hmagnitude]
    decide
  rw [unpacked, UnpackedFloat.unpack, ofBitVec_unpackSign]
  dsimp only
  rw [if_pos hexponent, if_pos hmantissa]

theorem isFinite_or_isInfinite {x : Double} (h : x.isNaN = false) :
    x.isFinite = true ∨ x.isInfinite = true := by
  simp only [isNaN, decide_eq_false_iff_not] at h
  simp only [isFinite, isInfinite, decide_eq_true_eq, beq_iff_eq]
  omega

theorem isNaN_unpacked {x : Double} (h : x.isNaN = false) : (unpacked x).isNaN = false := by
  rcases isFinite_or_isInfinite h with hfinite | hinfinite
  · rw [unpacked_of_isFinite hfinite, unpackedOf]
    split <;> rfl
  · rw [unpacked_of_isInfinite hinfinite]
    rfl

/-- Handing a double to the machine keeps it. -/
theorem unpack_toFloat (x : Double) : x.toFloat.toModel.unpack = unpacked x := by
  show UnpackedFloat.unpack .binary64 (UnpackedFloat.pack .binary64 (unpacked x)) = unpacked x
  rw [unpacked, UnpackedFloat.pack_unpack]
  split
  · next hnan =>
    rw [UnpackedFloat.isNaNBits, decide_eq_true_eq] at hnan
    rw [UnpackedFloat.unpack_packedNaN, UnpackedFloat.unpack]
    simp only [hnan.1, if_true, if_neg hnan.2]
  · rfl

end

end Double

end LuaRuntime
