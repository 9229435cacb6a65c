import LuaRuntime.Library.Base
import LuaRuntime.Proofs.Library.IntegerReads
import LuaRuntime.Proofs.Number.NumberText
import LuaRuntime.Proofs.Number.RadixNumerals

/-!
# Numbers from texts in a base

`tonumber` with a base answers with a number exactly if the text is an integer in that base.  Below
`2 ^ 53` the number is that integer.  Where reading without a base takes the same text, or the same
digits after `0x`, both answers are one number (`tonumber_reads_radix`).
-/

namespace LuaRuntime

open Numeral (SpellsInteger)

/-- A text comes first and a base second. -/
structure RadixArguments (args : List Value) (text : String) (base : ℕ) : Prop where
  first : Argument.get? args 1 = some (.string text)
  second : (Argument.get args 2).toInteger? = some (base : ℤ)
  low : 2 ≤ base
  high : base ≤ 36

variable {args : List Value} {text : String} {base : ℕ}

theorem toNumberIn_eq (h : RadixArguments args text base) :
    toNumberIn args = .ok (.ofNumber? (Numeral.parseRadix? base text)) := by
  have hrange : ¬ ((base : ℤ) < 2 ∨ 36 < (base : ℤ)) := by
    have := h.low
    have := h.high
    omega
  have hbase : (base : ℤ).toNat = base := Int.toNat_natCast base
  simp only [toNumberIn, Argument.any, Argument.string, h.first,
    Argument.optional_integer "tonumber" h.second, bind, Except.bind, if_neg hrange, hbase]
  rfl

theorem toNumberIn_string (text : String) :
    toNumberIn [.string text] = .ok (.ofNumber? (Numeral.parse? text)) := rfl

/-- A natural number with a sign is the integer of that sign. -/
theorem exact_signed {n : ℕ} (h : n < 2 ^ 53) (negative : Bool) :
    (Numeral.signed negative (.ofNat n)).exact = .finite negative (n * unitsPerOne) := by
  have hle := Nat.le_of_lt h
  have hmagnitude := Double.magnitudeOfNat_lt hle
  rw [Double.ofNat, Double.ofNatural,
    Double.signed_ofMagnitude negative (hmagnitude.trans Double.infinityBits_lt),
    Double.exact_ofMagnitude negative hmagnitude, Double.unitsOf_magnitudeOfNat hle]

/-- `tonumber` reads integers in a base, exactly below `2 ^ 53`, and as it reads them without
one. -/
theorem tonumber_reads_radix (h : RadixArguments args text base) :
    (∃ v, toNumberIn args = .ok v ∧
      (v ≠ .nil ↔
        ∃ negative n, SpellsInteger Numeral.isSpace base text.toList negative n)) ∧
    (∀ negative n, SpellsInteger Numeral.isSpace base text.toList negative n → n < 2 ^ 53 →
      ∃ x, toNumberIn args = .ok (.number x) ∧ x.exact = .finite negative (n * unitsPerOne)) ∧
    (base = 16 → text ≠ "" → (∀ c ∈ text.toList, Numeral.IsHexDigit c) →
      ∃ x, x.isNaN = false ∧ toNumberIn args = .ok (.number x) ∧
        toNumberIn [.string ("0x" ++ text)] = .ok (.number x)) ∧
    (base = 10 → ∀ negative n, SpellsInteger Numeral.isBlank 10 text.toList negative n →
      n < 2 ^ 53 → toNumberIn args = toNumberIn [.string text]) := by
  have hpos : 0 < base := lt_of_lt_of_le (by norm_num) h.low
  refine ⟨⟨_, toNumberIn_eq h, ?_⟩, fun negative n hspells hn => ?_, ?_, ?_⟩
  · rw [← Numeral.isSome_parseRadix? hpos h.high]
    cases Numeral.parseRadix? base text <;> simp [Value.ofNumber?]
  · obtain ⟨x, hx, -, hvalue⟩ := hspells.exists_parseRadix? hpos h.high
    refine ⟨Numeral.signed negative x, ?_, ?_⟩
    · rw [toNumberIn_eq h, hx, Value.ofNumber?]
    · rw [hvalue hn, exact_signed hn]
  · rintro rfl hne hdigits
    obtain ⟨n, hn⟩ := (Numeral.natural?_isSome h.high text.toList).mp
      ((Numeral.isSome_natural? _).mpr ⟨by simpa using hne, hdigits⟩)
    obtain ⟨x, hx, hnan, -⟩ := hn.natural?_eq hpos h.high
    have hplain : text.toList = [] ++ ((Numeral.minusSign false ++ text.toList) ++ []) := by
      simp [Numeral.minusSign]
    refine ⟨x, hnan, ?_, ?_⟩
    · rw [toNumberIn_eq h, Numeral.parseRadix?_spelled h.high hplain (List.forall_mem_nil _) hn
        (List.forall_mem_nil _), hx]
      rfl
    · rw [toNumberIn_string, Numeral.parse?_marked hn, hx, Value.ofNumber?]
  · rintro rfl negative n hspells hn
    obtain ⟨x, hx, -, hvalue⟩ := hspells.ofBlank.exists_parseRadix? hpos h.high
    rw [toNumberIn_eq h, toNumberIn_string, hspells.parse?_eq hn, hx, hvalue hn]

/-- The text ` -Ff ` is `-255` in base sixteen. -/
theorem tonumber_reads_hexadecimal :
    RadixArguments [.string " -Ff ", .ofNat 16] " -Ff " 16 ∧
      ∃ x, toNumberIn [.string " -Ff ", .ofNat 16] = .ok (.number x) ∧
        x.exact = .finite true (255 * unitsPerOne) := by
  have hargs : RadixArguments [.string " -Ff ", .ofNat 16] " -Ff " 16 :=
    ⟨rfl, Value.toInteger?_ofNat (by norm_num), by norm_num, by norm_num⟩
  have hupper : Numeral.IsDigitOf 16 'F' 15 := ⟨by norm_num, by decide⟩
  have hlower : Numeral.IsDigitOf 16 'f' 15 := ⟨by norm_num, by decide⟩
  have htext : " -Ff ".toList =
      [' '] ++ ((Numeral.minusSign true ++ (['F'] ++ ['f'])) ++ [' ']) := by decide
  have hspells : SpellsInteger Numeral.isSpace 16 " -Ff ".toList true 255 :=
    .intro (by simp [Numeral.isSpace]) (.snoc (.single hupper) hlower)
      (by simp [Numeral.isSpace]) htext
  exact ⟨hargs, (tonumber_reads_radix hargs).2.1 true 255 hspells (by norm_num)⟩

end LuaRuntime
