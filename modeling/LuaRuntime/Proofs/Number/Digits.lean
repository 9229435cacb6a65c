import LuaRuntime.Number.Numeral

/-!
# Reading digits exactly

`Numeral.naturalValue?` reads digits of a base as the natural number they write, without the loss of
doubles.  The digits of a number, in lower or upper case, are read as that number
(`naturalValue?_toDigits`), and zeros in front of digits do not count.
-/

namespace LuaRuntime

namespace Numeral

/-- A digit up to fifteen has its value in either case. -/
theorem digit?_digitChar : ∀ base ≤ 16, ∀ d < base,
    digit? base (Nat.digitChar d) = some d ∧
      digit? base (Nat.digitChar d).toUpper = some d := by
  decide +kernel

theorem naturalValue?_concat (base : Nat) (text : List Char) (c : Char) :
    naturalValue? base (text ++ [c]) =
      (naturalValue? base text).bind fun n => (digit? base c).map (base * n + ·) := by
  rw [naturalValue?, naturalValue?, List.foldlM_append]
  simp

/-- A text that writes a number has nothing but digits. -/
theorem isSome_digit?_of_mem {base n : Nat} {text : List Char}
    (h : naturalValue? base text = some n) {c : Char} (hc : c ∈ text) :
    (digit? base c).isSome = true := by
  rw [naturalValue?] at h
  generalize 0 = sum at h
  induction text generalizing sum with
  | nil => cases hc
  | cons first text ih =>
    rw [List.foldlM_cons] at h
    obtain ⟨next, hnext, h⟩ := Option.bind_eq_some_iff.mp h
    obtain rfl | hc := List.mem_cons.mp hc
    · obtain ⟨d, hd, -⟩ := Option.map_eq_some_iff.mp hnext
      rw [hd]
      rfl
    · exact ih hc next h

theorem naturalValue?_zeros {base : Nat} (hbase : 0 < base) (count : Nat) (text : List Char) :
    naturalValue? base (List.replicate count '0' ++ text) = naturalValue? base text := by
  induction count with
  | zero => rfl
  | succ count ih =>
    have hzero : digit? base '0' = some 0 := by simp [digit?, Option.filter, hbase]
    rw [← ih, naturalValue?, naturalValue?, List.replicate_succ, List.cons_append, List.foldlM_cons,
      hzero]
    rfl

/-- The digits of a number write that number, in any case that keeps the value of each digit. -/
theorem naturalValue?_toDigits {base : Nat} (hbase : 1 < base) {write : Char → Char}
    (hwrite : ∀ d < base, digit? base (write (Nat.digitChar d)) = some d) (n : Nat) :
    naturalValue? base ((Nat.toDigits base n).map write) = some n := by
  induction n using Nat.strongRecOn with
  | ind n ih =>
    rw [Nat.toDigits_eq_if hbase]
    split
    · next hlt =>
      show naturalValue? base ([] ++ [write (Nat.digitChar n)]) = some n
      rw [naturalValue?_concat, hwrite n hlt]
      simp [naturalValue?]
    · next hge =>
      have hless : n / base < n := Nat.div_lt_self (by omega) hbase
      have hmod : n % base < base := Nat.mod_lt n (by omega)
      rw [List.map_append, List.map_singleton, naturalValue?_concat, ih _ hless, hwrite _ hmod]
      simp [Nat.div_add_mod]

end Numeral

end LuaRuntime
