import LuaRuntime.Library.Math
import LuaRuntime.Proofs.Library.RadixConversion
import LuaRuntime.Proofs.Number.Words

/-!
# Functions on words

An operand of the functions on 32-bit words is the residue of its integer part modulo `2 ^ 32`.  The
functions of any number of operands are folds from a neutral word, so the bits of the answer are
found from the bits of the operands at the same place, in any order (`combines_foldl`).  The digits
of `tohex` are read back by `tonumber` in base sixteen (`toHex_reads_back`).
-/

namespace LuaRuntime

/-! ## Operands -/

/-- The word that an argument stands for, zero if it is no number. -/
def Value.word (v : Value) : Word := v.toNumber?.elim 0 Word.ofNumber

theorem numbersFrom_eq (function : String) (place : ℕ) {args : List Value}
    (h : ∀ v ∈ args, v.toNumber?.isSome = true) :
    (Argument.numbersFrom function place args).map (List.map Word.ofNumber) =
      .ok (args.map Value.word) := by
  induction args generalizing place with
  | nil => rfl
  | cons v args ih =>
    obtain ⟨x, hx⟩ := Option.isSome_iff_exists.mp (h v List.mem_cons_self)
    have hrest := ih (place + 1) fun v hv => h v (List.mem_cons_of_mem _ hv)
    simp only [Argument.numbersFrom, hx]
    cases hnumbers : Argument.numbersFrom function (place + 1) args with
    | error e =>
      rw [hnumbers] at hrest
      cases hrest
    | ok xs =>
      rw [hnumbers] at hrest
      have hwords : xs.map Word.ofNumber = args.map Value.word := Except.ok.inj hrest
      simp [Except.map, hwords, Value.word, hx]

theorem wordArguments_eq (function : String) {args : List Value} (hne : args ≠ [])
    (h : ∀ v ∈ args, v.toNumber?.isSome = true) :
    wordArguments args function = .ok (args.map Value.word) := by
  rw [wordArguments, Argument.numbers, if_neg (by simpa using hne)]
  exact numbersFrom_eq function 1 h

/-! ## Bits -/

theorem getLsbD_foldl_or (ws : List Word) (w : Word) (i : ℕ) :
    (ws.foldl (· ||| ·) w).getLsbD i = (w.getLsbD i || (ws.map (·.getLsbD i)).any id) := by
  induction ws generalizing w with
  | nil => simp
  | cons first ws ih => simp [ih, Bool.or_assoc]

theorem getLsbD_foldl_and (ws : List Word) (w : Word) (i : ℕ) :
    (ws.foldl (· &&& ·) w).getLsbD i = (w.getLsbD i && (ws.map (·.getLsbD i)).all id) := by
  induction ws generalizing w with
  | nil => simp
  | cons first ws ih => simp [ih, Bool.and_assoc]

theorem getLsbD_foldl_xor (ws : List Word) (w : Word) (i : ℕ) :
    (ws.foldl (· ^^^ ·) w).getLsbD i =
      (w.getLsbD i ^^ decide (Odd ((ws.map (·.getLsbD i)).count true))) := by
  induction ws generalizing w with
  | nil => simp
  | cons first ws ih =>
    rw [List.foldl_cons, ih, BitVec.getLsbD_xor, List.map_cons, Bool.xor_assoc]
    congr 1
    cases first.getLsbD i
    · simp
    · simp only [Bool.true_xor, List.count_cons_self, Nat.odd_add_one, decide_not]

/-- The answer of a function on words has the bits that are found from the bits of its operands at
the same place, in whatever order they stand. -/
structure Combines (f : BitFunction) (bits : List Bool → Bool) (args : List Value) (w : Word) :
    Prop where
  bit_eq : ∀ i < 32, w.getLsbD i = bits (args.map fun v => v.word.getLsbD i)
  run_eq : ∀ other : List Value, args.Perm other → runBit f other = .ok (.number w.toNumber)

/-- An operation on words that does not depend on the order is folded over the operands. -/
theorem combines_foldl {f : BitFunction} {bits : List Bool → Bool} (name : String)
    (op : Word → Word → Word) (init : Word) [RightCommutative op]
    (hrun : ∀ other ws, wordArguments other name = .ok ws →
      runBit f other = .ok (.number (ws.foldl op init).toNumber))
    (hbits : ∀ ws : List Word, ∀ i < 32,
      (ws.foldl op init).getLsbD i = bits (ws.map (·.getLsbD i)))
    {args : List Value} (hne : args ≠ []) (h : ∀ v ∈ args, v.toNumber?.isSome = true) :
    ∃ w, Combines f bits args w := by
  refine ⟨(args.map Value.word).foldl op init, fun i hi => ?_, fun other hperm => ?_⟩
  · rw [hbits _ i hi, List.map_map]
    rfl
  · have hnil : other ≠ [] := fun hnil => hne (hnil ▸ hperm).eq_nil
    have hother := wordArguments_eq name hnil fun v hv => h v (hperm.mem_iff.mpr hv)
    rw [hrun other _ hother, (hperm.map Value.word).foldl_eq]

section

variable {args : List Value} (hne : args ≠ []) (h : ∀ v ∈ args, v.toNumber?.isSome = true)
include hne h

theorem combines_or : ∃ w, Combines .or (·.any id) args w := by
  refine combines_foldl "bor" (· ||| ·) 0
    (fun other ws hwords => ?_) (fun ws i _ => ?_) hne h
  · rw [runBit, hwords]
    rfl
  · simp [getLsbD_foldl_or]

theorem combines_and : ∃ w, Combines .and (·.all id) args w := by
  refine combines_foldl "band" (· &&& ·) (BitVec.allOnes 32)
    (fun other ws hwords => ?_) (fun ws i hi => ?_) hne h
  · rw [runBit, hwords]
    rfl
  · rw [getLsbD_foldl_and, BitVec.getLsbD_allOnes, decide_eq_true hi, Bool.true_and]

theorem combines_xor : ∃ w, Combines .xor (fun bits => Odd (bits.count true)) args w := by
  refine combines_foldl "bxor" (· ^^^ ·) 0
    (fun other ws hwords => ?_) (fun ws i _ => ?_) hne h
  · rw [runBit, hwords]
    rfl
  · simp [getLsbD_foldl_xor]

end

/-! ## Hexadecimal digits -/

/-- Bringing a count into the range of 64-bit integers shows as many digits. -/
theorem shownDigits_saturate (k : ℤ) :
    Word.shownDigits (Value.saturate k) = Word.shownDigits k := by
  rw [Word.shownDigits, Word.shownDigits, Value.saturate, Value.leastInteger,
    Value.greatestInteger]
  omega

/-- The text of a natural number in a base is read back. -/
theorem toNumberIn_natural {text : String} {n : ℕ}
    (h : Numeral.SpellsNatural 16 text.toList n) (hn : n < 2 ^ 53) :
    toNumberIn [.string text, .ofNat 16] = .ok (.ofNat n) := by
  have hargs : RadixArguments [.string text, .ofNat 16] text 16 :=
    ⟨rfl, Value.toInteger?_ofNat (by norm_num), by norm_num, by norm_num⟩
  obtain ⟨x, hx, -, hvalue⟩ :=
    (h.spellsInteger Numeral.isSpace).exists_parseRadix? (by norm_num) (by norm_num)
  rw [toNumberIn_eq hargs, hx, hvalue hn]
  rfl

/-- A number comes first and an integer second. -/
structure HexArguments (args : List Value) (x : Double) (count : ℤ) : Prop where
  first : (Argument.get? args 1).bind Value.toNumber? = some x
  second : (Argument.get args 2).toNumber?.bind Double.toInt? = some count

theorem runBit_toHex {args : List Value} {x : Double} {count : ℤ}
    (h : HexArguments args x count) :
    runBit .toHex args =
      .ok (.string ((Word.ofNumber x).hexText (Value.saturate count))) := by
  have hword : wordArgument args 1 "tohex" = .ok (Word.ofNumber x) := by
    rw [wordArgument, Argument.number, h.first]
    rfl
  have hcount : (Argument.get args 2).toInteger? = some (Value.saturate count) := by
    rw [Value.toInteger?, h.second, Option.map_some]
  simp only [runBit, hword, Argument.optional_integer "tohex" hcount]
  rfl

/-! ## All functions -/

/-- A word is the residue of the integer part of a number modulo `2 ^ 32`, zero if the number is not
finite.  The remainder of a double gives the same word, and so does `tobit`. -/
structure IsOperand (x : Double) (w : Word) : Prop where
  residue : ∀ negative units, x.exact = .finite negative units →
    IsResidue (wholePart negative units) w.toInt ∧
      ∀ j, IsResidue (wholePart negative units) j → j = w.toInt
  missing : x.isFinite = false → w.toInt = 0
  reduced_eq : Word.reduced x = w
  tobit_eq : runBit .toBit [.number x] = .ok (.number w.toNumber)

theorem isOperand_ofNumber (x : Double) : IsOperand x (Word.ofNumber x) where
  residue negative units h := by
    have hresidue : IsResidue (wholePart negative units) (Word.ofNumber x).toInt := by
      rw [Word.ofNumber, Double.toInt?_of_exact h]
      exact Word.isResidue_ofInt _
    exact ⟨hresidue, fun j hj => hresidue.unique hj⟩
  missing h := by simp [Word.ofNumber, Double.toInt?, h]
  reduced_eq := Word.reduced_eq x
  tobit_eq := rfl

/-- The digits of `tohex` are read back as the last digits of the residue. -/
theorem toHex_reads_back {args : List Value} {x : Double} {count : ℤ} {negative : Bool} {units : ℕ}
    (h : HexArguments args x count) (hx : x.exact = .finite negative units) :
    ∃ text, runBit .toHex args = .ok (.string text) ∧
      text.length = min 8 (max 1 count.natAbs) ∧
      toNumberIn [.string text, .ofNat 16] =
        .ok (.ofNat (wholePart negative units % 2 ^ 32 %
          16 ^ min 8 (max 1 count.natAbs)).toNat) := by
  obtain ⟨hlength, hdigits⟩ :=
    (Word.ofNumber x).spellsNatural_hexText (Value.saturate count)
  rw [shownDigits_saturate] at hlength hdigits
  have hword : ((Word.ofNumber x).toNat : ℤ) = wholePart negative units % 2 ^ 32 := by
    rw [Word.ofNumber, Double.toInt?_of_exact hx]
    exact Word.toNat_ofInt _
  have hlt : (Word.ofNumber x).toNat % 16 ^ Word.shownDigits count < 2 ^ 53 :=
    lt_of_le_of_lt (Nat.mod_le _ _) (lt_trans (Word.ofNumber x).isLt (by norm_num))
  refine ⟨_, runBit_toHex h, hlength, ?_⟩
  rw [toNumberIn_natural hdigits hlt, ← hword]
  rfl

/-- Operands are residues modulo `2 ^ 32`, the functions on words work on them bit by bit, and what
they answer with reads back. -/
theorem bit_functions_work_on_residues :
    (∀ x : Double, IsOperand x (Word.ofNumber x)) ∧
    (∀ w : Word, w.toNumber.toInt? = some w.toInt ∧ w.toNumber.isIntegral = true ∧
      Word.ofNumber w.toNumber = w) ∧
    (∀ args : List Value, args ≠ [] → (∀ v ∈ args, v.toNumber?.isSome = true) →
      (∃ w, Combines .and (·.all id) args w) ∧
      (∃ w, Combines .or (·.any id) args w) ∧
      (∃ w, Combines .xor (fun bits => Odd (bits.count true)) args w)) ∧
    (∀ args x count negative units, HexArguments args x count →
      x.exact = .finite negative units →
      ∃ text, runBit .toHex args = .ok (.string text) ∧
        text.length = min 8 (max 1 count.natAbs) ∧
        toNumberIn [.string text, .ofNat 16] =
          .ok (.ofNat (wholePart negative units % 2 ^ 32 %
            16 ^ min 8 (max 1 count.natAbs)).toNat)) :=
  ⟨isOperand_ofNumber,
    fun w => ⟨w.toInt?_toNumber, w.isIntegral_toNumber, w.ofNumber_toNumber⟩,
    fun _ hne h => ⟨combines_and hne h, combines_or hne h, combines_xor hne h⟩,
    fun _ _ _ _ _ h hx => toHex_reads_back h hx⟩

/-- The word of minus one has all bits.  Together with another word it gives that one, and its eight
digits are read back as its residue. -/
theorem minusOne_works_on_residues :
    (∃ w, Combines .and (·.all id) [.ofInt (-1), .ofNat 10] w) ∧
      ∃ text, runBit .toHex [.ofInt (-1), .ofNat 8] = .ok (.string text) ∧ text.length = 8 ∧
        toNumberIn [.string text, .ofNat 16] = .ok (.ofNat 0xffffffff) := by
  obtain ⟨-, -, hfolds, hhex⟩ := bit_functions_work_on_residues
  have hnumbers : ∀ v ∈ [Value.ofInt (-1), .ofNat 10], v.toNumber?.isSome = true := by
    simp [Value.ofInt, Value.ofNat, Value.toNumber?]
  have hargs : HexArguments [.ofInt (-1), .ofNat 8] (.ofNatural true 1) 8 :=
    ⟨rfl, Double.toInt?_ofNat (by norm_num)⟩
  have hread := hhex _ _ _ _ _ hargs (Double.exact_ofNatural true (by norm_num))
  rw [wholePart_natural] at hread
  exact ⟨(hfolds _ (List.cons_ne_nil _ _) hnumbers).1, hread⟩

end LuaRuntime
