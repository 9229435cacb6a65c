import LuaRuntime.Table.Key
import LuaRuntime.Proofs.Number.Units

/-!
# Keys and raw equality

`Key.ofValue?` names the classes of raw equality.  Two values that have keys have the same key
exactly when they are raw equal (`ofValue?_eq_some_iff_rawEqual`), and a value without a key is
nil or no number (`ofValue?_eq_none_iff`).

The index `i` is the key of one double alone, `Double.ofNat i`.  Every other number has its rank
for its key.  A key is *proper* if it is the key of some value: an index in range, or the rank of
a number that is no index.  The value of a proper key has that key (`ofValue?_toValue`).
-/

namespace LuaRuntime

namespace Double

/-! ## Doubles of indices -/

theorem toNat_rank_ofNat {n : Nat} (h : n ≤ 2 ^ 53) :
    (ofNat n).rank.toNat = 2 ^ 63 + magnitudeOfNat n := by
  rw [toNat_rank, isNegative_ofNat h, magnitude_ofNat h]
  rfl

theorem rank_ofNat_lt_iff {m n : Nat} (hm : m ≤ 2 ^ 53) (hn : n ≤ 2 ^ 53) :
    (ofNat m).rank < (ofNat n).rank ↔ m < n := by
  rw [UInt64.lt_iff_toNat_lt, toNat_rank_ofNat hm, toNat_rank_ofNat hn,
    ← magnitudeOfNat_lt_iff hm hn]
  omega

theorem rank_ofNat_inj {m n : Nat} (hm : m ≤ 2 ^ 53) (hn : n ≤ 2 ^ 53) :
    (ofNat m).rank = (ofNat n).rank ↔ m = n := by
  constructor
  · intro h
    have h₁ := (rank_ofNat_lt_iff hm hn).not
    have h₂ := (rank_ofNat_lt_iff hn hm).not
    simp only [h, UInt64.lt_irrefl, not_false_eq_true, true_iff] at h₁ h₂
    omega
  · rintro rfl
    rfl

end Double

namespace Key

open Double

theorem greatestIndex_eq : greatestIndex = 2 ^ 53 := rfl

/-! ## Keys of numbers -/

/-- An integer double in the range of indices is the double of that index. -/
theorem eq_ofNat_of_toInt? {x : Double} {i : Int} (hx : x.isIntegral = true)
    (hi : x.toInt? = some i) (h1 : 1 ≤ i) (h2 : i ≤ greatestIndex) : x = Double.ofNat i.toNat := by
  rw [isIntegral, Bool.and_eq_true] at hx
  simp only [toInt?, hx.1, if_true, Option.some.injEq] at hi
  have hneg : x.isNegative = false := by
    cases hs : x.isNegative with
    | false => rfl
    | true =>
      simp only [hs, if_true] at hi
      omega
  simp only [hneg, Bool.false_eq_true, if_false] at hi
  have hle : i.toNat ≤ 2 ^ 53 := by
    rw [← greatestIndex_eq]
    omega
  refine eq_of_magnitude_eq ?_ ?_
  · rw [hneg, isNegative_ofNat hle]
  · rw [magnitude_ofNat hle]
    exact eq_magnitudeOfNat hx.2 (by omega) hle

theorem ofNumber?_ofNat {i : Nat} (h1 : 1 ≤ i) (h2 : i ≤ greatestIndex) :
    ofNumber? (Double.ofNat i) = some (.index i) := by
  have hrange : (1 : Int) ≤ i ∧ (i : Int) ≤ greatestIndex := by omega
  simp only [ofNumber?, isNaN_ofNat h2, isIntegral_ofNat h2, toInt?_ofNat h2, if_true,
    Bool.false_eq_true, if_false, if_pos hrange, Int.toNat_natCast]

/-- The key of a number: none, an index or a rank. -/
theorem ofNumber?_cases (x : Double) :
    (x.isNaN = true ∧ ofNumber? x = none) ∨
      (∃ i, 1 ≤ i ∧ i ≤ greatestIndex ∧ x = Double.ofNat i ∧ ofNumber? x = some (.index i)) ∨
      (x.isNaN = false ∧ (∀ i, 1 ≤ i → i ≤ greatestIndex → x ≠ Double.ofNat i) ∧
        ofNumber? x = some (.number x.rank)) := by
  cases hnan : x.isNaN with
  | true => exact Or.inl ⟨rfl, by simp [ofNumber?, hnan]⟩
  | false =>
    by_cases hidx : ∃ i, 1 ≤ i ∧ i ≤ greatestIndex ∧ x = Double.ofNat i
    · obtain ⟨i, h1, h2, rfl⟩ := hidx
      exact Or.inr (Or.inl ⟨i, h1, h2, rfl, ofNumber?_ofNat h1 h2⟩)
    · refine Or.inr (Or.inr ⟨rfl, fun i h1 h2 hx => hidx ⟨i, h1, h2, hx⟩, ?_⟩)
      simp only [ofNumber?, hnan, Bool.false_eq_true, if_false]
      split
      · next i hi =>
        split at hi
        · next hint =>
          have hrange : ¬ (1 ≤ i ∧ i ≤ greatestIndex) := fun ⟨h1, h2⟩ =>
            hidx ⟨i.toNat, by omega, by omega, eq_ofNat_of_toInt? hint hi h1 h2⟩
          rw [if_neg hrange]
        · cases hi
      · rfl

theorem ofNumber?_eq_none_iff {x : Double} : ofNumber? x = none ↔ x.isNaN = true := by
  rcases ofNumber?_cases x with ⟨hn, h⟩ | ⟨i, _, h2, rfl, h⟩ | ⟨hn, _, h⟩
  · simp [hn, h]
  · simp [h, isNaN_ofNat h2]
  · simp [hn, h]

/-- Numbers have the same key exactly when they are equal as numbers. -/
theorem ofNumber?_eq_some_iff_equal {x y : Double} {k : Key} (hx : ofNumber? x = some k) :
    ofNumber? y = some k ↔ x.equal y = true := by
  rw [equal_iff]
  rcases ofNumber?_cases x with ⟨_, h⟩ | ⟨i, hi1, hi2, rfl, h⟩ | ⟨hxn, hxi, h⟩
  · rw [h] at hx
    cases hx
  · rw [h] at hx
    cases hx
    rcases ofNumber?_cases y with ⟨hyn, h'⟩ | ⟨j, _, hj2, rfl, h'⟩ | ⟨_, hyi, h'⟩
    · simp [h', hyn]
    · simp [h', isNaN_ofNat hi2, isNaN_ofNat hj2, rank_ofNat_inj hi2 hj2, eq_comm]
    · have hne : ¬ (Double.ofNat i).rank = y.rank := by
        rw [rank_eq_iff]
        rintro (h0 | ⟨h0, _⟩)
        · exact hyi i hi1 hi2 h0.symm
        · have := (magnitudeOfNat_lt_iff (Nat.zero_le _) hi2).mpr hi1
          rw [magnitude_ofNat hi2] at h0
          omega
      simp [h', hne]
  · rw [h] at hx
    cases hx
    rcases ofNumber?_cases y with ⟨hyn, h'⟩ | ⟨j, hj1, hj2, rfl, h'⟩ | ⟨hyn, _, h'⟩
    · simp [h', hyn]
    · have hne : ¬ x.rank = (Double.ofNat j).rank := by
        rw [rank_eq_iff]
        rintro (h0 | ⟨_, h0⟩)
        · exact hxi j hj1 hj2 h0
        · have := (magnitudeOfNat_lt_iff (Nat.zero_le _) hj2).mpr hj1
          rw [magnitude_ofNat hj2] at h0
          omega
      simp [h', hne]
    · simp [h', hxn, hyn, eq_comm]

/-! ## Keys of values -/

/-- A value has no key if it is nil or no number. -/
theorem ofValue?_eq_none_iff {v : Value} :
    ofValue? v = none ↔ v = .nil ∨ ∃ x, v = .number x ∧ x.isNaN = true := by
  cases v <;> simp [ofValue?, ofNumber?_eq_none_iff]

/-- The value of a key is of the kind of every value that has the key. -/
theorem kind_toValue {v : Value} {k : Key} (h : ofValue? v = some k) :
    k.toValue.kind = v.kind := by
  cases v with
  | nil => cases h
  | number x =>
    simp only [ofValue?] at h
    rcases ofNumber?_cases x with ⟨_, h'⟩ | ⟨i, _, _, _, h'⟩ | ⟨_, _, h'⟩ <;> rw [h'] at h <;>
      cases h <;> rfl
  | boolean b => cases h; rfl
  | string s => cases h; rfl
  | table id => cases h; rfl
  | function id => cases h; rfl

theorem kind_eq_of_rawEqual {a b : Value} (h : a.rawEqual b = true) : a.kind = b.kind := by
  cases a <;> cases b <;> first | rfl | cases h

/-- Values have the same key exactly when they are raw equal. -/
theorem ofValue?_eq_some_iff_rawEqual {a b : Value} {k : Key} (ha : ofValue? a = some k) :
    ofValue? b = some k ↔ a.rawEqual b = true := by
  by_cases hk : a.kind = b.kind
  · cases a <;> cases b <;> try cases hk
    · cases ha
    · cases ha
      simp only [ofValue?, Value.rawEqual, Option.some.injEq, boolean.injEq, beq_iff_eq]
      exact eq_comm
    · exact ofNumber?_eq_some_iff_equal ha
    · cases ha
      simp only [ofValue?, Value.rawEqual, Option.some.injEq, string.injEq, beq_iff_eq]
      exact eq_comm
    · cases ha
      simp only [ofValue?, Value.rawEqual, Option.some.injEq, object.injEq, ObjectId.table.injEq,
        beq_iff_eq]
      exact eq_comm
    · cases ha
      simp only [ofValue?, Value.rawEqual, Option.some.injEq, object.injEq,
        ObjectId.function.injEq, beq_iff_eq]
      exact eq_comm
  · constructor
    · intro hb
      exact absurd ((kind_toValue ha).symm.trans (kind_toValue hb)) hk
    · intro he
      exact absurd (kind_eq_of_rawEqual he) hk

/-- Only what is not a number differs from itself. -/
theorem rawEqual_self {v : Value} (h : ∀ x, v = .number x → x.isNaN = false) :
    v.rawEqual v = true := by
  cases hkey : ofValue? v with
  | some k => exact (ofValue?_eq_some_iff_rawEqual hkey).mp hkey
  | none =>
    rcases ofValue?_eq_none_iff.mp hkey with rfl | ⟨x, rfl, hx⟩
    · rfl
    · cases (h x rfl).symm.trans hx

theorem rawEqual_iff_ofValue?_eq {a b : Value} {k l : Key} (ha : ofValue? a = some k)
    (hb : ofValue? b = some l) : a.rawEqual b = true ↔ k = l := by
  rw [← ofValue?_eq_some_iff_rawEqual ha, hb, Option.some.injEq, eq_comm]

/-! ## Proper keys -/

/-- The key is that of some value. -/
def Proper : Key → Prop
  | .index i => 1 ≤ i ∧ i ≤ greatestIndex
  | .number rank => ∃ x : Double, ofNumber? x = some (.number rank)
  | _ => True

theorem proper_of_ofValue? {v : Value} {k : Key} (h : ofValue? v = some k) : k.Proper := by
  cases v with
  | nil => cases h
  | number x =>
    simp only [ofValue?] at h
    rcases ofNumber?_cases x with ⟨_, h'⟩ | ⟨i, h1, h2, _, h'⟩ | ⟨_, _, h'⟩
    · rw [h'] at h
      cases h
    · rw [h'] at h
      cases h
      exact ⟨h1, h2⟩
    · rw [h'] at h
      cases h
      exact ⟨x, h'⟩
  | boolean b => cases h; trivial
  | string s => cases h; trivial
  | table id => cases h; trivial
  | function id => cases h; trivial

theorem ofNumber?_ofRank {x : Double} {r : UInt64} (h : ofNumber? x = some (.number r)) :
    ofNumber? (Double.ofRank r) = some (.number r) := by
  rcases ofNumber?_cases x with ⟨_, h'⟩ | ⟨i, _, _, _, h'⟩ | ⟨hn, _, h'⟩
  · rw [h'] at h
    cases h
  · rw [h'] at h
    cases h
  · rw [h'] at h
    cases h
    rw [ofNumber?_eq_some_iff_equal h', equal_iff, rank_ofRank_rank, isNaN_ofRank_rank]
    exact ⟨hn, hn, rfl⟩

/-- The value of a proper key has that key. -/
theorem ofValue?_toValue {k : Key} (h : k.Proper) : ofValue? k.toValue = some k := by
  cases k with
  | string s => rfl
  | index i => exact ofNumber?_ofNat h.1 h.2
  | number r =>
    obtain ⟨x, hx⟩ := h
    exact ofNumber?_ofRank hx
  | boolean b => rfl
  | object id => cases id <;> rfl

theorem rawEqual_toValue_eq_false_iff {k l : Key} (hk : k.Proper) (hl : l.Proper) :
    k.toValue.rawEqual l.toValue = false ↔ k ≠ l := by
  rw [← Bool.not_eq_true, rawEqual_iff_ofValue?_eq (ofValue?_toValue hk) (ofValue?_toValue hl)]

/-- Distinct proper keys have values that are not raw equal. -/
theorem pairwise_not_rawEqual {keys : List Key} (hnd : keys.Nodup) (hp : ∀ k ∈ keys, k.Proper) :
    keys.Pairwise fun k l => k.toValue.rawEqual l.toValue = false := by
  refine List.Pairwise.imp_of_mem (fun {k l} hk hl hkl => ?_) hnd
  exact (rawEqual_toValue_eq_false_iff (hp k hk) (hp l hl)).mpr hkl

theorem rank_ofRank_of_proper {r : UInt64} (h : Proper (.number r)) :
    (Double.ofRank r).rank = r := by
  obtain ⟨x, hx⟩ := h
  rcases ofNumber?_cases x with ⟨_, h'⟩ | ⟨i, _, _, _, h'⟩ | ⟨_, _, h'⟩
  · rw [h'] at hx
    cases hx
  · rw [h'] at hx
    cases hx
  · rw [h'] at hx
    cases hx
    exact rank_ofRank_rank x

/-- A number kept by its rank has that rank for its key, is a number, and is no integer in the
range of indices. -/
theorem ofRank_of_proper {r : UInt64} (h : Proper (.number r)) :
    ofNumber? (Double.ofRank r) = some (.number r) ∧ (Double.ofRank r).isNaN = false ∧
      ∀ i, 1 ≤ i → i ≤ greatestIndex → Double.ofRank r ≠ Double.ofNat i := by
  obtain ⟨x, hx⟩ := h
  have hr := ofNumber?_ofRank hx
  refine ⟨hr, ?_, ?_⟩
  · rw [← Bool.not_eq_true, ← ofNumber?_eq_none_iff, hr]
    simp
  · intro i h1 h2 hi
    rw [hi, ofNumber?_ofNat h1 h2] at hr
    cases hr

/-- A number is kept as it is, but negative zero is kept as zero. -/
theorem ofRank_of_ofNumber? {x : Double} {r : UInt64} (h : ofNumber? x = some (.number r)) :
    Double.ofRank r = if x = Double.zero true then Double.zero false else x := by
  obtain rfl : x.rank = r := by
    rcases ofNumber?_cases x with ⟨_, h'⟩ | ⟨i, _, _, _, h'⟩ | ⟨_, _, h'⟩ <;> rw [h'] at h
    · cases h
    · cases h
    · cases h
      rfl
  rw [ofRank_rank]
  by_cases h0 : x = Double.zero true
  · subst h0
    decide
  · rw [if_neg h0]
    split
    · next hm =>
      -- There are two doubles of magnitude zero, told apart by their sign.
      cases hs : x.isNegative with
      | false => exact (eq_of_magnitude_eq hs hm).symm
      | true => exact absurd (eq_of_magnitude_eq hs hm) h0
    · rfl

end Key

end LuaRuntime
