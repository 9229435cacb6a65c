import LuaRuntime.Proofs.Table.Invariant

/-!
# A table is one finite map

Read and written at values, the five parts of a table and the two layouts of its indices are one
map.  Its keys are the values that are neither nil nor no number, and raw equal values are one key.

`IsFiniteMap` says what that means.  A write changes the value at the keys raw equal to its own and
at no other.  Changing the layout, asking for the length or the items, and walking change no value.
The list of keys has each key with a value once, however the keys are arranged, the size is its
length, and the greatest key is the greatest positive number among them.  Every reachable table is
such a map, and a constructor gives each key its last value in the flat list, with the positional
values laid over the indices from 1 on (`reachable_isFiniteMap_and_construct`).
-/

namespace LuaRuntime

namespace Table

/-! ## Reading after writing -/

theorem rawGet_congr {t u : Table} (h : ∀ k, u.get? k = t.get? k) (v : Value) :
    u.rawGet v = t.rawGet v := by
  rw [rawGet, rawGet]
  cases Key.ofValue? v with
  | none => rfl
  | some k => simp only [get, h]

theorem Contents.rawGet_rawSet {t : Table} (h : t.Contents) {k : Value} {key : Key}
    (hk : Key.ofValue? k = some key) (v l : Value) :
    (t.rawSet k v).rawGet l = if k.rawEqual l then v else t.rawGet l := by
  obtain ⟨adds, hset⟩ : ∃ adds, t.rawSet k v = (t.forget adds).put key v :=
    ⟨_, by rw [rawSet, hk]⟩
  rw [hset, rawGet, rawGet]
  cases hl : Key.ofValue? l with
  | none =>
    have hne : k.rawEqual l = false := by
      rw [← Bool.not_eq_true, ← Key.ofValue?_eq_some_iff_rawEqual hk, hl]
      simp
    rw [hne]
    rfl
  | some key' =>
    simp only [get, (h.forget _).get?_put, get?_forget]
    by_cases heq : key = key'
    · have hre : k.rawEqual l = true := (Key.rawEqual_iff_ofValue?_eq hk hl).mpr heq
      rw [if_pos heq, if_pos hre, getD_ofValue?]
    · have hre : ¬ k.rawEqual l = true := fun hre =>
        heq ((Key.rawEqual_iff_ofValue?_eq hk hl).mp hre)
      rw [if_neg heq, if_neg hre]

theorem rawGet_rawSet_of_no_key (t : Table) {k : Value} (hk : Key.ofValue? k = none)
    (v l : Value) : (t.rawSet k v).rawGet l = t.rawGet l := by
  have hset : t.rawSet k v = t.forget (!v.isNil && (t.rawGet k).isNil) := by
    rw [rawSet, hk]
  rw [hset]
  exact rawGet_congr (get?_forget t _) l

theorem ofValue?_of_check {v : Value} {k : Key} (h : Key.check v = .ok k) :
    Key.ofValue? v = some k := by
  rw [Key.check] at h
  split at h
  · next hk =>
    cases h
    exact hk
  · cases h

theorem ofValue?_of_check_error {v : Value} {e : Error} (h : Key.check v = .error e) :
    Key.ofValue? v = none := by
  rw [Key.check] at h
  split at h
  · cases h
  · next hk => exact hk

/-! ## The greatest key -/

/-- The number is the greatest positive numeric key of a table, or zero if it has none. -/
def IsGreatestKey (t : Table) (m : Double) : Prop :=
  (∀ x, t.rawGet (.number x) ≠ .nil → x.lessEqual m = true) ∧
    (((Double.ofNat 0).less m = true ∧ t.rawGet (.number m) ≠ .nil) ∨
      (m = Double.ofNat 0 ∧
        ∀ x, (Double.ofNat 0).less x = true → t.rawGet (.number x) = .nil))

theorem Contents.rawGet_number_ne_nil {t : Table} (h : t.Contents) {x : Double} {k : Key}
    (hx : Key.ofNumber? x = some k) (hk : (t.get? k).isSome = true) :
    t.rawGet (.number x) ≠ .nil := by
  rw [rawGet_of_key (v := .number x) hx, ne_eq, h.get_eq_nil_iff]
  exact Option.isSome_iff_ne_none.mp hk

theorem Contents.isGreatestKey {t : Table} (h : t.Contents) : t.IsGreatestKey t.greatestKey := by
  obtain ⟨hle, hmem⟩ := Indexed.greatest_spec h.indexed
  have hrange : t.indexed.greatest ≤ 2 ^ 53 := by
    rcases hmem with h0 | hsome
    · omega
    · obtain ⟨v, hv⟩ := Option.isSome_iff_exists.mp hsome
      exact (Indexed.proper_of_get? h.indexed hv).2.2
  have hproper : ∀ r ∈ t.numbers.keys, Key.Proper (.number r) := by
    intro r hr
    obtain ⟨v, hv⟩ := Option.isSome_iff_exists.mp (mem_numbers.mp (Std.TreeMap.mem_keys.mp hr))
    exact (h.numbers r v hv).2
  obtain ⟨hnan, hstart, hranks, hone⟩ :=
    greatestOf_spec (Double.isNaN_ofNat hrange) hproper
  rw [← greatestKey_eq] at hnan hstart hranks hone
  have hupper : ∀ x, t.rawGet (.number x) ≠ .nil → x.lessEqual t.greatestKey = true := by
    intro x hx
    obtain ⟨k, hk, hsome⟩ := h.key_of_rawGet hx
    rw [Double.lessEqual_iff]
    rcases Key.ofNumber?_cases x with ⟨_, h'⟩ | ⟨i, _, h2, rfl, h'⟩ | ⟨hxn, _, h'⟩
    · rw [Key.ofValue?, h'] at hk
      cases hk
    · rw [Key.ofValue?, h'] at hk
      cases hk
      refine ⟨Double.isNaN_ofNat h2, hnan, UInt64.le_trans ?_ hstart⟩
      rw [← UInt64.not_lt, Double.rank_ofNat_lt_iff hrange h2]
      exact Nat.not_lt.mpr (hle i hsome)
    · rw [Key.ofValue?, h'] at hk
      cases hk
      exact ⟨hxn, hnan, hranks _ (Std.TreeMap.mem_keys.mpr (mem_numbers.mpr hsome))⟩
  have hzero : (Double.ofNat 0).rank ≤ (Double.ofNat t.indexed.greatest).rank := by
    rw [← UInt64.not_lt, Double.rank_ofNat_lt_iff hrange (Nat.zero_le _)]
    omega
  refine ⟨hupper, ?_⟩
  rcases hone with heq | ⟨r, hr, heq, hlt⟩
  · rcases hmem with h0 | hsome
    · right
      rw [h0] at heq
      refine ⟨heq, fun x hx => ?_⟩
      by_contra hne
      have hxle := hupper x hne
      rw [heq, Double.lessEqual_iff] at hxle
      rw [Double.less_iff] at hx
      exact UInt64.not_le.mpr hx.2.2 hxle.2.2
    · obtain ⟨v, hv⟩ := Option.isSome_iff_exists.mp hsome
      have hpos := (Indexed.proper_of_get? h.indexed hv).2.1
      left
      rw [heq, Double.less_iff, Double.rank_ofNat_lt_iff (Nat.zero_le _) hrange]
      exact ⟨⟨Double.isNaN_ofNat (Nat.zero_le _), Double.isNaN_ofNat hrange, hpos⟩,
        h.rawGet_number_ne_nil (Key.ofNumber?_ofNat hpos hrange) hsome⟩
  · left
    obtain ⟨x, hx⟩ := hproper r hr
    rw [Double.less_iff]
    refine ⟨⟨Double.isNaN_ofNat (Nat.zero_le _), hnan, ?_⟩, ?_⟩
    · rw [heq, Key.rank_ofRank_of_proper (hproper r hr)]
      exact UInt64.lt_of_le_of_lt hzero hlt
    · rw [heq]
      exact h.rawGet_number_ne_nil (Key.ofNumber?_ofRank hx)
        (mem_numbers.mp (Std.TreeMap.mem_keys.mp hr))

/-! ## The laws of the map -/

/-- The laws of a finite map on values. -/
structure IsFiniteMap (t : Table) : Prop where
  /-- A write at a key changes the value at the keys raw equal to it alone. -/
  rawGet_rawSet : ∀ k v l key, Key.check k = .ok key →
    (t.rawSet k v).rawGet l = if k.rawEqual l then v else t.rawGet l
  /-- A write at a value that is no key changes no value. -/
  rawGet_rawSet_error : ∀ k v l e, Key.check k = .error e → (t.rawSet k v).rawGet l = t.rawGet l
  /-- The value at a string. -/
  getString : ∀ s, t.getString s = t.rawGet (.string s)
  /-- A write at a string. -/
  setString : ∀ s v, t.setString s v = t.rawSet (.string s) v
  /-- The array layout, into which asking for the items goes too, changes no value. -/
  toArray : ∀ l, t.toArray.rawGet l = t.rawGet l
  /-- The sparse layout changes no value. -/
  toSparse : ∀ l, t.toSparse.rawGet l = t.rawGet l
  /-- Asking for the length changes no value. -/
  measured : ∀ l, t.measured.rawGet l = t.rawGet l
  /-- A step of a walk changes no value. -/
  next : ∀ a v l, (t.next a v).2.rawGet l = t.rawGet l
  /-- No two keys that are listed are raw equal. -/
  keys_distinct : ∀ a, (t.keys a).Pairwise fun k l => k.toValue.rawEqual l.toValue = false
  /-- The keys that are listed are those with a value. -/
  mem_keys : ∀ a l, t.rawGet l ≠ .nil ↔ ∃ k ∈ t.keys a, k.toValue.rawEqual l = true
  /-- The size is the number of keys. -/
  size : ∀ a, t.size = (t.keys a).length
  /-- The greatest key. -/
  greatestKey : t.IsGreatestKey t.greatestKey

theorem WellFormed.isFiniteMap {t : Table} (h : t.WellFormed) : t.IsFiniteMap where
  rawGet_rawSet k v l key hk := h.rawGet_rawSet (ofValue?_of_check hk) v l
  rawGet_rawSet_error k v l e hk := rawGet_rawSet_of_no_key t (ofValue?_of_check_error hk) v l
  getString s := rfl
  setString s v := h.setString_eq s v
  toArray l := rawGet_congr (get?_toArray t) l
  toSparse l := rawGet_congr h.get?_toSparse l
  measured l := rawGet_congr (get?_measured t) l
  next a v l := rawGet_congr (get?_next_snd t a v) l
  keys_distinct a := Key.pairwise_not_rawEqual (h.keys_nodup a) fun k hk =>
    (h.isOrder_keys a).proper k (List.mem_toArray.mpr hk)
  mem_keys a l := by
    have horder := h.isOrder_keys a
    constructor
    · intro hl
      obtain ⟨k, hk, hsome⟩ := h.key_of_rawGet hl
      have hp := horder.proper k (horder.complete k hsome)
      refine ⟨k, (h.mem_keys a k).mpr hsome, ?_⟩
      rwa [← Key.ofValue?_eq_some_iff_rawEqual (Key.ofValue?_toValue hp)]
    · rintro ⟨k, hk, heq⟩
      have hp := horder.proper k (List.mem_toArray.mpr hk)
      rw [← Key.ofValue?_eq_some_iff_rawEqual (Key.ofValue?_toValue hp)] at heq
      rw [rawGet_of_key heq, ne_eq, h.get_eq_nil_iff]
      exact Option.isSome_iff_ne_none.mp ((h.mem_keys a k).mp hk)
  size a := (length_keys t a).symm
  greatestKey := h.isGreatestKey

/-! ## Constructors -/

/-- The pairs of a flat list. -/
def pairsOf : List Value → List (Value × Value)
  | k :: v :: rest => (k, v) :: pairsOf rest
  | _ => []

/-- The last value other than nil that a flat list gives to a key, nil if there is none. -/
def lastGiven (flat : List Value) (l : Value) : Value :=
  (((pairsOf flat).reverse.find? fun p => p.1.rawEqual l && !p.2.isNil).map (·.2)).getD .nil

/-- Writing the pairs of a flat list gives each key its last value, or leaves it as it was. -/
theorem rawGet_ofPairs : ∀ {flat : List Value} {t u : Table}, t.WellFormed →
    ofPairs flat t = .ok u → ∀ l, u.rawGet l =
      (((pairsOf flat).reverse.find? fun p => p.1.rawEqual l && !p.2.isNil).map (·.2)).getD
        (t.rawGet l)
  | [], _, _, _, hu, _ => by
      cases hu
      rfl
  | [_], _, _, _, hu, _ => by cases hu
  | k :: v :: rest, t, u, h, hu, l => by
      rw [Table.ofPairs] at hu
      cases hk : Key.check k with
      | error e =>
        rw [hk] at hu
        cases hu
      | ok key =>
        rw [hk] at hu
        cases hv : v.isNil with
        | true =>
          simp only [hv, if_true] at hu
          rw [rawGet_ofPairs h hu l, pairsOf, List.reverse_cons, List.find?_append]
          simp [hv]
        | false =>
          simp only [hv, Bool.false_eq_true, if_false] at hu
          rw [rawGet_ofPairs (h.rawSet k v) hu l, pairsOf, List.reverse_cons, List.find?_append,
            h.rawGet_rawSet (ofValue?_of_check hk)]
          cases hfind : (pairsOf rest).reverse.find? (fun p => p.1.rawEqual l && !p.2.isNil) with
          | some p => simp
          | none => cases hre : k.rawEqual l <;> simp [hre, hv]

/-- Values laid over the indices from `i` on are read there, and nothing else changes. -/
theorem rawGet_overlay : ∀ (values : List Value) (i : Nat) {t : Table}, t.WellFormed → 1 ≤ i →
    i + values.length ≤ 2 ^ 53 + 1 →
    (∀ j v, values[j]? = some v → (overlay i values t).rawGet (.ofNat (i + j)) = v) ∧
      ∀ l, (∀ j, j < values.length → (Value.ofNat (i + j)).rawEqual l = false) →
        (overlay i values t).rawGet l = t.rawGet l
  | [], _, _, _, _, _ => ⟨by simp, fun _ _ => rfl⟩
  | v :: vs, i, t, h, h1, h2 => by
      rw [List.length_cons] at h2
      have hkey : Key.ofValue? (.ofNat i) = some (.index i) :=
        Key.ofNumber?_ofNat h1 (by rw [Key.greatestIndex_eq]; omega)
      have hset := fun l => h.rawGet_rawSet hkey v l
      obtain ⟨hin, hout⟩ := rawGet_overlay vs (i + 1) (h.rawSet (.ofNat i) v) (by omega) (by omega)
      have hdistinct : ∀ j, j < vs.length →
          (Value.ofNat (i + 1 + j)).rawEqual (.ofNat i) = false := by
        intro j hj
        have hkey' : Key.ofValue? (.ofNat (i + 1 + j)) = some (.index (i + 1 + j)) :=
          Key.ofNumber?_ofNat (by omega) (by rw [Key.greatestIndex_eq]; omega)
        rw [← Bool.not_eq_true, Key.rawEqual_iff_ofValue?_eq hkey' hkey, Key.index.injEq]
        omega
      refine ⟨?_, ?_⟩
      · intro j w hw
        cases j with
        | zero =>
          have hself : (Value.ofNat i).rawEqual (.ofNat i) = true :=
            (Key.ofValue?_eq_some_iff_rawEqual hkey).mp hkey
          change (overlay (i + 1) vs (t.rawSet (.ofNat i) v)).rawGet (.ofNat i) = w
          rw [hout _ hdistinct, hset, if_pos hself]
          simpa using hw
        | succ j =>
          rw [overlay, show i + (j + 1) = i + 1 + j by omega]
          exact hin j w hw
      · intro l hl
        have hhead : ¬ (Value.ofNat i).rawEqual l = true :=
          Bool.not_eq_true _ ▸ hl 0 (Nat.succ_pos _)
        rw [overlay, hout l, hset, if_neg hhead]
        intro j hj
        have := hl (j + 1) (Nat.succ_lt_succ hj)
        rwa [show i + (j + 1) = i + 1 + j by omega] at this

theorem rawGet_construct {positional : Option (List Value)} {flat : List Value} {t : Table}
    (hlen : (positional.getD []).length ≤ 2 ^ 53) (h : construct positional flat = .ok t) :
    (∀ i v, (positional.getD [])[i]? = some v → t.rawGet (.ofNat (i + 1)) = v) ∧
      ∀ l, (∀ i, i < (positional.getD []).length → (Value.ofNat (i + 1)).rawEqual l = false) →
        t.rawGet l = lastGiven flat l := by
  rw [construct] at h
  split at h
  · cases h
  · cases hu : Table.ofPairs flat {} with
    | error e =>
      rw [hu] at h
      cases h
    | ok u =>
      rw [hu] at h
      cases h
      have hwf := WellFormed.ofPairs wellFormed_empty hu
      have hflat : ∀ l, u.rawGet l = lastGiven flat l := by
        intro l
        have hempty : ({} : Table).rawGet l = .nil := by
          rw [rawGet]
          cases Key.ofValue? l with
          | none => rfl
          | some k =>
            cases k with
            | boolean b => cases b <;> rfl
            | _ => simp [get, get?, Indexed.get?, objectValue?]
        rw [rawGet_ofPairs wellFormed_empty hu l, lastGiven, hempty]
      cases positional with
      | none => exact ⟨by simp, fun l _ => hflat l⟩
      | some values =>
        simp only [Option.getD_some] at hlen ⊢
        obtain ⟨hin, hout⟩ := rawGet_overlay values 1 hwf (Nat.le_refl 1) (by omega)
        refine ⟨?_, ?_⟩
        · intro i v hv
          rw [rawGet_congr (get?_toArray _), Nat.add_comm i 1]
          exact hin i v hv
        · intro l hl
          rw [rawGet_congr (get?_toArray _), hout l, hflat]
          intro j hj
          rw [Nat.add_comm 1 j]
          exact hl j hj

theorem exists_ofPairs_iff : ∀ (flat : List Value) (t : Table), flat.length % 2 = 0 →
    ((∃ u, ofPairs flat t = .ok u) ↔ ∀ p ∈ pairsOf flat, ∃ key, Key.check p.1 = .ok key)
  | [], t, _ => by simp [Table.ofPairs, pairsOf]
  | [_], _, h => by cases h
  | k :: v :: rest, t, h => by
      have hrest : rest.length % 2 = 0 := by
        simp only [List.length_cons] at h
        omega
      rw [Table.ofPairs, pairsOf]
      cases hk : Key.check k with
      | error e => simp [hk]
      | ok key =>
        simp only [List.forall_mem_cons, hk]
        rw [exists_ofPairs_iff rest _ hrest]
        simp

/-- A constructor gives a table if the flat list is one of pairs whose first parts are keys. -/
theorem exists_construct_iff (positional : Option (List Value)) (flat : List Value) :
    (∃ t, construct positional flat = .ok t) ↔
      flat.length % 2 = 0 ∧ ∀ p ∈ pairsOf flat, ∃ key, Key.check p.1 = .ok key := by
  rw [construct]
  by_cases hlen : flat.length % 2 = 0
  · rw [if_neg (by simpa using hlen), ← exists_ofPairs_iff flat {} hlen]
    cases Table.ofPairs flat {} <;> simp [hlen, Except.map]
  · rw [if_pos hlen]
    simp [hlen]

/-- Every reachable table is a finite map.  A constructor gives a table unless the flat list is
odd or has a value that is no key in the place of one.  Its table has the positional values at the
indices from 1 on, nil meaning no value, and at every other key the last value other than nil that
the flat list gives to it. -/
theorem reachable_isFiniteMap_and_construct :
    (∀ t, Reachable t → t.IsFiniteMap) ∧
      (∀ positional flat, (∃ t, construct positional flat = .ok t) ↔
        flat.length % 2 = 0 ∧ ∀ p ∈ pairsOf flat, ∃ key, Key.check p.1 = .ok key) ∧
      ∀ positional flat t, (positional.getD []).length < 2 ^ 53 →
        construct positional flat = .ok t →
        (∀ i v, (positional.getD [])[i]? = some v → t.rawGet (.ofNat (i + 1)) = v) ∧
          ∀ l, (∀ i, i < (positional.getD []).length →
            (Value.ofNat (i + 1)).rawEqual l = false) → t.rawGet l = lastGiven flat l :=
  ⟨fun _ h => h.wellFormed.isFiniteMap, exists_construct_iff,
    fun _ _ _ hlen h => rawGet_construct (Nat.le_of_lt hlen) h⟩

theorem edited_isFiniteMap_and_construct :
    (Reachable edited ∧ edited.IsFiniteMap) ∧
      ∃ t, construct (some [.boolean true, .nil])
          [.string "a", .boolean false, .string "a", .nil] = .ok t ∧
        t.rawGet (.ofNat 1) = .boolean true ∧ t.rawGet (.ofNat 2) = .nil ∧
        t.rawGet (.string "a") = .boolean false := by
  obtain ⟨hmap, _, hconstruct⟩ := reachable_isFiniteMap_and_construct
  refine ⟨⟨reachable_edited, hmap _ reachable_edited⟩, _, rfl, ?_⟩
  obtain ⟨hin, hout⟩ := hconstruct (some [.boolean true, .nil])
    [.string "a", .boolean false, .string "a", .nil] _ (by decide) rfl
  exact ⟨hin 0 _ rfl, hin 1 _ rfl, hout (.string "a") (fun _ _ => rfl)⟩

end Table

end LuaRuntime
