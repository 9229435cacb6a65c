/-!
# Decimal digits

The decimal digits of a natural number, as characters, without zeros in front.

Dividing by ten once for each digit takes too long where a number has many of them.  So a
number of at most `2 ^ k` digits is split by `splitBase`, a power of ten, into a front and a
back part of half the length, and each part is split again.  The back part has its full
length, with zeros in front, so that the parts can be joined.

`digits_eq_toDigits` says that splitting does not show: the digits are those of the division
by ten.
-/

namespace LuaRuntime

namespace Decimal

/-- The power of ten with `2 ^ k` zeros. -/
def splitBase (k : Nat) : Nat := Nat.pow 10 (Nat.pow 2 k)

/-- The last `2 ^ k` digits of a number below `splitBase k`, with zeros in front. -/
def paddedDigits : (k n : Nat) → List Char
  | 0, n => [Nat.digitChar n]
  | k + 1, n => paddedDigits k (n / splitBase k) ++ paddedDigits k (n % splitBase k)

/-- The digits of a number below `splitBase k`. -/
def splitDigits : (k n : Nat) → List Char
  | 0, n => [Nat.digitChar n]
  | k + 1, n =>
      if n < splitBase k then splitDigits k n
      else splitDigits k (n / splitBase k) ++ paddedDigits k (n % splitBase k)

/-- The decimal digits of a natural number. -/
def digits (n : Nat) : List Char := splitDigits n.log2.log2 n

/-- The number of decimal digits of a natural number. -/
def digitCount (n : Nat) : Nat := (digits n).length

/-! ## Splitting does not show -/

theorem splitBase_pos (k : Nat) : 0 < splitBase k := Nat.pow_pos (by decide)

theorem splitBase_succ (k : Nat) : splitBase (k + 1) = splitBase k * splitBase k := by
  change Nat.pow 10 (Nat.pow 2 k * 2) = _
  rw [Nat.mul_two]
  exact Nat.pow_add 10 (Nat.pow 2 k) (Nat.pow 2 k)

/-- Padded digits behind the digits of a positive number are the digits of both. -/
theorem toDigits_append_paddedDigits {k q r : Nat} (hq : 0 < q) (hr : r < splitBase k) :
    Nat.toDigits 10 q ++ paddedDigits k r = Nat.toDigits 10 (splitBase k * q + r) := by
  induction k generalizing q r with
  | zero =>
      have hr : r < 10 := hr
      rw [paddedDigits, ← Nat.toDigits_of_lt_base hr]
      exact Nat.toDigits_append_toDigits (by decide) hq hr
  | succ k ih =>
      have hmod := Nat.mod_lt r (splitBase_pos k)
      have hdiv : r / splitBase k < splitBase k := by
        rw [splitBase_succ] at hr
        exact Nat.div_lt_of_lt_mul hr
      have hpos : 0 < splitBase k * q + r / splitBase k :=
        Nat.lt_of_lt_of_le (Nat.mul_pos (splitBase_pos k) hq) (Nat.le_add_right _ _)
      rw [paddedDigits, ← List.append_assoc, ih hq hdiv, ih hpos hmod]
      congr 1
      rw [Nat.mul_add, Nat.add_assoc, Nat.div_add_mod, splitBase_succ, Nat.mul_assoc]

theorem splitDigits_eq_toDigits {k n : Nat} (h : n < splitBase k) :
    splitDigits k n = Nat.toDigits 10 n := by
  induction k generalizing n with
  | zero => exact (Nat.toDigits_of_lt_base h).symm
  | succ k ih =>
      rw [splitDigits]
      split
      case isTrue hlt => exact ih hlt
      case isFalse hge =>
        have hq : 0 < n / splitBase k := Nat.div_pos (Nat.le_of_not_lt hge) (splitBase_pos k)
        have hdiv : n / splitBase k < splitBase k := by
          rw [splitBase_succ] at h
          exact Nat.div_lt_of_lt_mul h
        rw [ih hdiv, toDigits_append_paddedDigits hq (Nat.mod_lt n (splitBase_pos k)),
          Nat.div_add_mod]

/-- A number has at most as many decimal digits as `digits` allows for. -/
theorem lt_splitBase_log2_log2 (n : Nat) : n < splitBase n.log2.log2 := by
  have hlength : n.log2 + 1 ≤ 2 * Nat.pow 2 n.log2.log2 := by
    have h := Nat.lt_log2_self (n := n.log2)
    rw [Nat.pow_succ, Nat.mul_comm] at h
    exact h
  have hbits : n < Nat.pow 2 (2 * Nat.pow 2 n.log2.log2) :=
    Nat.lt_of_lt_of_le Nat.lt_log2_self (Nat.pow_le_pow_right (by decide) hlength)
  have hfour : Nat.pow 2 (2 * Nat.pow 2 n.log2.log2) = Nat.pow 4 (Nat.pow 2 n.log2.log2) :=
    Nat.pow_mul 2 2 _
  rw [hfour] at hbits
  exact Nat.lt_of_lt_of_le hbits (Nat.pow_le_pow_left (by decide) _)

/-- The digits are those found by dividing by ten. -/
theorem digits_eq_toDigits (n : Nat) : digits n = Nat.toDigits 10 n :=
  splitDigits_eq_toDigits (lt_splitBase_log2_log2 n)

end Decimal

end LuaRuntime
