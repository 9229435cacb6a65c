import LuaRuntime.Machine
import LuaRuntime.Proofs.Library.InsertRemove
import LuaRuntime.Proofs.Number.Integers
import LuaRuntime.Proofs.Operator.IndexChain
import LuaRuntime.Proofs.Table.FiniteMap

/-!
# Reading a table at integers

A read at an integer looks a positive integer up among the indices, and an index is `2 ^ 53` at
most.  A greater integer that is a double is a key of a table all the same, but one that is kept
among the other numbers.  So a read at an integer finds what a read at the number finds up to the
greatest index, and finds nothing from there on (`WellFormed.getInteger_eq`).

`unpack` and `table.concat` read at every integer of a range, and inherit both halves.  A step of
`ipairs` reads at the integer after its control, and never comes to the second one: the control is
a double, doubles from `2 ^ 53` on are even, and so the next integer is none.
-/

namespace LuaRuntime

/-! ## A single read -/

namespace Table

/-- A read at an integer finds the value at the number up to the greatest index, and none after
it. -/
theorem WellFormed.getInteger_eq {t : Table} (h : t.WellFormed) (i : Int) :
    t.getInteger i = if i ≤ 2 ^ 53 then t.rawGet (.ofInt i) else .nil := by
  rw [getInteger]
  rcases Int.lt_or_le i 1 with hlow | hlow
  · rw [if_pos hlow, if_pos (by omega)]
  · rw [if_neg (by omega)]
    obtain ⟨n, rfl⟩ := Int.eq_ofNat_of_zero_le (a := i) (by omega)
    split
    · next hhigh =>
      have hkey : Key.ofValue? (.ofInt n) = some (.index n) := by
        rw [Value.ofInt, Double.ofInt_natCast]
        exact Key.ofNumber?_ofNat (by omega) (by rw [Key.greatestIndex_eq]; omega)
      rw [rawGet_of_key hkey, Int.toNat_natCast]
    · next hhigh =>
      -- The indices of a table end at the greatest one.
      rw [h.get_eq_nil_iff, ← Option.not_isSome_iff_eq_none]
      intro hsome
      obtain ⟨v, hv⟩ := Option.isSome_iff_exists.mp hsome
      have hproper : 1 ≤ (n : Int).toNat ∧ (n : Int).toNat ≤ Key.greatestIndex := (h.proper hv).2
      rw [Key.greatestIndex_eq] at hproper
      omega

/-- A double that is an integer and the integer itself are one key. -/
theorem rawGet_number {x : Double} {i : Int} (hx : x.isIntegral = true) (hi : x.toInt? = some i)
    (t : Table) : t.rawGet (.number x) = t.rawGet (.ofInt i) := by
  have hequal := Double.equal_ofInt hx hi
  obtain ⟨k, hk⟩ : ∃ k, Key.ofNumber? x = some k := by
    rw [← Option.ne_none_iff_exists', ne_eq, Key.ofNumber?_eq_none_iff,
      Double.isNaN_of_isIntegral hx]
    exact Bool.false_ne_true
  have hint : Key.ofValue? (.ofInt i) = some k := (Key.ofNumber?_eq_some_iff_equal hk).mpr hequal
  have hnumber : Key.ofValue? (.number x) = some k := hk
  rw [rawGet_of_key hnumber, rawGet_of_key hint]

theorem WellFormed.getInteger_of_toInt? {t : Table} (h : t.WellFormed) {x : Double} {i : Int}
    (hx : x.isIntegral = true) (hi : x.toInt? = some i) :
    t.getInteger i = if i ≤ 2 ^ 53 then t.rawGet (.number x) else .nil := by
  rw [h.getInteger_eq, rawGet_number hx hi]

end Table

/-! ## Reads at a range -/

/-- Values, the first of which was read at an integer and the others at the integers after it. -/
def Table.ReadFrom (t : Table) (first : Int) (values : List Value) : Prop :=
  ∀ (n : Nat) v, values[n]? = some v →
    ∀ x, x.isIntegral = true → x.toInt? = some (first + (n : Int)) →
      v = if first + (n : Int) ≤ 2 ^ 53 then t.rawGet (.number x) else .nil

/-- Arguments that name a table and, from a place on, the two ends of a range. -/
structure RangeArguments (args : List Value) (id : TableId) (place : Nat) (first last : Int) :
    Prop where
  table : Argument.get? args 1 = some (.table id)
  first : (Argument.get args place).toInteger? = some first
  last : (Argument.get args (place + 1)).toInteger? = some last

theorem length_valuesFrom (t : Table) : ∀ (count : Nat) (first : Int),
    (valuesFrom t count first).length = count
  | 0, _ => rfl
  | count + 1, first => by rw [valuesFrom, List.length_cons, length_valuesFrom t count]

theorem getElem?_valuesFrom (t : Table) : ∀ (count : Nat) (first : Int) (n : Nat), n < count →
    (valuesFrom t count first)[n]? = some (t.getInteger (first + n))
  | 0, _, _, h => absurd h (Nat.not_lt_zero _)
  | count + 1, first, 0, _ => by
      rw [valuesFrom, List.getElem?_cons_zero, Int.natCast_zero, Int.add_zero]
  | count + 1, first, n + 1, h => by
      rw [valuesFrom, List.getElem?_cons_succ,
        getElem?_valuesFrom t count (first + 1) n (Nat.lt_of_succ_lt_succ h)]
      congr 2
      omega

theorem Table.WellFormed.readFrom_valuesFrom {t : Table} (h : t.WellFormed) (count : Nat)
    (first : Int) : t.ReadFrom first (valuesFrom t count first) := by
  intro n v hv x hx hi
  have hn : n < count := by
    rw [← length_valuesFrom t count first]
    exact (List.getElem?_eq_some_iff.mp hv).1
  rw [getElem?_valuesFrom t count first n hn, Option.some.injEq] at hv
  rw [← hv, h.getInteger_of_toInt? hx hi]

theorem valuesFrom_congr {t u : Table} (h : ∀ k, u.get? k = t.get? k) :
    ∀ (count : Nat) (first : Int), valuesFrom u count first = valuesFrom t count first
  | 0, _ => rfl
  | count + 1, first => by
      have hget : u.getInteger first = t.getInteger first := by
        rw [Table.getInteger, Table.getInteger, Table.rawGet_congr h, Table.get, Table.get, h]
      rw [valuesFrom, valuesFrom, hget, valuesFrom_congr h count]

/-- The texts of values that stand at the integers from one on.  The first of them without a text
of its own is refused. -/
def textsFrom : Int → List Value → Except Error (List String)
  | _, [] => .ok []
  | i, v :: rest =>
      if v.isTextual then (textsFrom (i + 1) rest).map (v.rawText :: ·)
      else .error (.concatenateItem i v.kind)

theorem itemTexts_eq (t : Table) : ∀ (count : Nat) (first : Int),
    itemTexts t count first = textsFrom first (valuesFrom t count first)
  | 0, _ => rfl
  | count + 1, first => by
      rw [itemTexts, valuesFrom, textsFrom, itemText, itemTexts_eq t count]
      cases (t.getInteger first).isTextual with
      | false => rfl
      | true => cases textsFrom (first + 1) (valuesFrom t count (first + 1)) <;> rfl

theorem Value.toInteger?_ofNat {i : Nat} (h : i ≤ 2 ^ 53) :
    (Value.ofNat i).toInteger? = some (i : Int) := by
  have hint : (Double.ofNat i).toInt? = some (i : Int) := Double.toInt?_ofNat h
  show ((Double.ofNat i).toInt?).map saturate = _
  rw [hint, Option.map_some, saturate, leastInteger, greatestInteger]
  congr 1
  omega

theorem Argument.optional_integer {args : List Value} {place : Nat} {i : Int} (function : String)
    (h : (Argument.get args place).toInteger? = some i) :
    Argument.optional Argument.integer args place function = .ok (some i) := by
  have hnil : (Argument.get args place).isNil = false := by
    cases hv : Argument.get args place with
    | nil =>
      rw [hv] at h
      cases h
    | _ => rfl
  rw [Argument.optional, hnil, integer_eq_ok function h]
  rfl

section

variable {s : State} {id : TableId} {args : List Value} {first last : Int}

theorem unpack_gives (hargs : RangeArguments args id 2 first last) (hle : first ≤ last)
    (hspan : last - first < unpackLimit) :
    Gives (unpack args) s
      (replacing (valuesFrom (s.table id) (last - first + 1).toNat first)) s := by
  have htable : Argument.table args 1 "unpack" = .ok id := by rw [Argument.table, hargs.table]
  refine (gives_lift htable s).bind ?_
  refine (gives_lift (Argument.optional_integer "unpack" hargs.first) s).bind ?_
  refine (gives_lift (Argument.optional_integer "unpack" hargs.last) s).bind ?_
  refine (gives_pure last s).bind ?_
  simp only [Option.getD_some, if_neg (Int.not_lt.mpr hle), if_neg (Int.not_le.mpr hspan)]
  exact (gives_getTable id s).bind (gives_pure _ s)

theorem runTable_concat (call : Invoke) (hid : id.index < s.tables.size)
    (hwf : (s.table id).WellFormed) (hargs : Argument.get? args 1 = some (.table id))
    {separator : Option String} {from? to? : Option Int}
    (hseparator : Argument.optional Argument.string args 2 "concat" = .ok separator)
    (hfrom : Argument.optional Argument.integer args 3 "concat" = .ok from?)
    (hto : Argument.optional Argument.integer args 4 "concat" = .ok to?)
    (hfirst : from?.getD 1 = first) (hlast : to?.getD (s.table id).length = last) :
    runTable call .concat args s =
      ((textsFrom first (valuesFrom (s.table id) (last - first + 1).toNat first)).map
        fun texts => [.string ((separator.getD "").intercalate texts)],
        s.modifyTable id Table.toArray) := by
  have htable : Argument.table args 1 "concat" = .ok id := by rw [Argument.table, hargs]
  have harray : (s.modifyTable id Table.toArray).table id = (s.table id).toArray :=
    State.table_modifyTable hid Table.toArray
  rw [runTable, bind_run, concatItems, bind_run, gives_lift htable s]
  dsimp only
  rw [bind_run, gives_lift hseparator s]
  dsimp only
  rw [bind_run, gives_tableItemCount hid hwf]
  dsimp only
  rw [bind_run, gives_lift hfrom]
  dsimp only
  rw [bind_run, gives_lift hto]
  dsimp only
  rw [bind_run, gives_getTable, harray, hfirst, hlast]
  dsimp only
  rw [bind_run, lift_run, itemTexts_eq, valuesFrom_congr (s.table id).get?_toArray]
  cases textsFrom first (valuesFrom (s.table id) (last - first + 1).toNat first) <;> rfl

end

/-! ## Steps of `ipairs` -/

theorem saturate_mem (i : Int) :
    Value.leastInteger ≤ Value.saturate i ∧ Value.saturate i ≤ Value.greatestInteger := by
  rw [Value.saturate, Value.leastInteger, Value.greatestInteger]
  omega

/-- The integer after the control of `ipairs` is no double from `2 ^ 53` on. -/
theorem succ_control_le {v : Value} {control : Int} (hcontrol : v.toInteger? = some control)
    {x : Double} (hx : x.toInt? = some (control + 1)) (hne : control ≠ Value.greatestInteger) :
    control + 1 ≤ 2 ^ 53 := by
  rw [Value.toInteger?, Option.map_eq_some_iff] at hcontrol
  obtain ⟨j, hj, rfl⟩ := hcontrol
  rw [Option.bind_eq_some_iff] at hj
  obtain ⟨y, -, hy⟩ := hj
  by_contra hfar
  have hsaturate : Value.saturate j = j := by
    rw [Value.saturate, Value.leastInteger, Value.greatestInteger] at *
    omega
  rw [hsaturate] at hx hfar
  have heven := Double.even_of_toInt? hx (by omega)
  have heven' := Double.even_of_toInt? hy (by omega)
  omega

section

variable {s : State} {id : TableId} {args : List Value} {control : Int}
  (htable : Argument.get? args 1 = some (.table id))
  (hcontrol : (Argument.get args 2).toInteger? = some control)
include htable hcontrol

theorem ipairsStep_gives (hne : control ≠ Value.greatestInteger) :
    Gives (ipairsStep args) s
      (results (if ((s.table id).getInteger (control + 1)).isNil then [.nil]
        else [.ofInt (control + 1), (s.table id).getInteger (control + 1)])) s := by
  have hid : Argument.table args 1 "ipairs" = .ok id := by rw [Argument.table, htable]
  have hnext : nextInteger control = .ok (control + 1) := if_neg hne
  refine (gives_lift hid s).bind ?_
  refine (gives_lift (integer_eq_ok "ipairs" hcontrol) s).bind ((gives_lift hnext s).bind ?_)
  exact (gives_getTable id s).bind (gives_pure _ s)

/-- There is no integer after the greatest one. -/
theorem ipairsStep_of_greatest (heq : control = Value.greatestInteger) :
    ipairsStep args s = (.error .panic, s) := by
  have hid : Argument.table args 1 "ipairs" = .ok id := by rw [Argument.table, htable]
  have hnext : nextInteger control = .error .panic := if_pos heq
  rw [ipairsStep, bind_run, gives_lift hid s]
  dsimp only
  rw [bind_run, gives_lift (integer_eq_ok "ipairs" hcontrol) s]
  dsimp only
  rw [bind_run, lift_run, hnext]

end

/-! ## Generic reads -/

section

variable {s : State} {id : TableId} {key : Value}

theorem runBase_rawGet (call : Invoke) {args : List Value}
    (htable : Argument.get? args 1 = some (.table id)) (hkey : Argument.get args 2 = key) :
    Gives (runBase call .rawGet args) s (results [(s.table id).rawGet key]) s := by
  have hid : Argument.table args 1 "rawget" = .ok id := by rw [Argument.table, htable]
  subst hkey
  have hread : Gives (rawGet id (Argument.get args 2)) s
      ((s.table id).rawGet (Argument.get args 2)) s := (gives_getTable id s).bind (gives_pure _ s)
  exact (gives_lift hid s).bind (hread.bind (gives_pure _ s))

/-- Indexing a table that needs no handler is a raw read. -/
theorem index_gives_rawGet (call : Invoke) (hlimit : 0 < s.limits.indexChain)
    (hhandler : s.handler? (.table id) .index = none ∨ (s.table id).rawGet key ≠ .nil) :
    Gives (index call (.table id) key) s ((s.table id).rawGet key) s := by
  have hstep : s.readStep (.table id) key = .found ((s.table id).rawGet key) := by
    by_cases hnil : (s.table id).rawGet key = .nil
    · have hnone := hhandler.resolve_right (not_not.mpr hnil)
      rw [readStep_of_resolves (.absent hnil hnone), hnil]
    · exact readStep_of_resolves (.present hnil)
  obtain ⟨limit, hsucc⟩ := Nat.exists_eq_succ_of_ne_zero (Nat.ne_of_gt hlimit)
  refine (gives_get s).bind ?_
  rw [hsucc, indexWithin]
  refine (gives_get s).bind ?_
  rw [hstep]
  exact gives_pure _ s

end

/-- A read of a table at an integer that is a double finds what a raw read at the number finds, up
to `2 ^ 53`, and finds nothing after it.

* `unpack` and `table.concat` of a range read so at each integer of it.
* A step of `ipairs` reads at the integer after its control, and whenever that one is a double it
  finds what a raw read finds.  After the greatest integer there is none, and the step panics.
* `rawget` is the raw read, and so is indexing if the table has no handler, or has a value.

So the values of keys past `2 ^ 53` are found by the last two, and missed by the first two. -/
theorem integer_reads_stop_at_greatest_index (call : Invoke) {s : State} {id : TableId}
    (hid : id.index < s.tables.size) (hwf : (s.table id).WellFormed) :
    let t := s.table id
    (∀ x i, x.isIntegral = true → x.toInt? = some i →
      t.getInteger i = if i ≤ 2 ^ 53 then t.rawGet (.number x) else .nil) ∧
    (∀ args first last, RangeArguments args id 2 first last → first ≤ last →
      last - first < unpackLimit →
      ∃ values, runBase call .unpack args s = (.ok (replacing values), s) ∧
        values.length = (last - first + 1).toNat ∧ t.ReadFrom first values) ∧
    (∀ args first last separator, RangeArguments args id 3 first last →
      Argument.optional Argument.string args 2 "concat" = .ok separator →
      ∃ values, runTable call .concat args s =
          ((textsFrom first values).map fun texts =>
            [.string ((separator.getD "").intercalate texts)], s.modifyTable id Table.toArray) ∧
        values.length = (last - first + 1).toNat ∧ t.ReadFrom first values) ∧
    (∀ args control, Argument.get? args 1 = some (.table id) →
      (Argument.get args 2).toInteger? = some control →
      (control = Value.greatestInteger → runBase call .ipairsStep args s = (.error .panic, s)) ∧
      (control ≠ Value.greatestInteger →
        ∃ v, runBase call .ipairsStep args s =
            (.ok (results (if v.isNil then [.nil] else [.ofInt (control + 1), v])), s) ∧
          ∀ x, x.isIntegral = true → x.toInt? = some (control + 1) →
            v = t.rawGet (.number x))) ∧
    (∀ args key, Argument.get? args 1 = some (.table id) → Argument.get args 2 = key →
      runBase call .rawGet args s = (.ok (results [t.rawGet key]), s)) ∧
    (∀ key, 0 < s.limits.indexChain →
      s.handler? (.table id) .index = none ∨ t.rawGet key ≠ .nil →
      index call (.table id) key s = (.ok (t.rawGet key), s)) := by
  intro t
  refine ⟨fun x i hx hi => hwf.getInteger_of_toInt? hx hi, ?_, ?_, ?_,
    fun args key htable hkey => runBase_rawGet call htable hkey,
    fun key hlimit hhandler => index_gives_rawGet call hlimit hhandler⟩
  · intro args first last hargs hle hspan
    exact ⟨_, unpack_gives hargs hle hspan, length_valuesFrom _ _ _, hwf.readFrom_valuesFrom _ _⟩
  · intro args first last separator hargs hseparator
    have hrun := runTable_concat call hid hwf hargs.table hseparator
      (Argument.optional_integer "concat" hargs.first)
      (Argument.optional_integer "concat" hargs.last) rfl rfl
    exact ⟨_, hrun, length_valuesFrom _ _ _, hwf.readFrom_valuesFrom _ _⟩
  · intro args control htable hcontrol
    refine ⟨ipairsStep_of_greatest htable hcontrol, fun hne => ?_⟩
    refine ⟨_, ipairsStep_gives htable hcontrol hne, ?_⟩
    intro x hx hi
    rw [hwf.getInteger_of_toInt? hx hi, if_pos (succ_control_le hcontrol hi hne)]

/-- A table with a value at an index, and one at a number past the greatest index. -/
def distant : Table :=
  (({} : Table).rawSet (.ofNat 2) (.string "near")).rawSet (.ofNat (2 ^ 54)) (.string "far")

theorem reachable_distant : Table.Reachable distant :=
  (Table.Reachable.empty.edit (.set (.ofNat 2) (.string "near")) trivial).edit
    (.set (.ofNat (2 ^ 54)) (.string "far")) trivial

theorem rawGet_distant : distant.rawGet (.ofNat (2 ^ 54)) = .string "far" ∧
    distant.rawGet (.ofNat 2) = .string "near" := by
  have hnear := (Table.wellFormed_empty.rawSet (.ofNat 2) (.string "near")).toContents
  have hkey : Key.ofValue? (.ofNat (2 ^ 54)) = some (.number (Double.ofNat (2 ^ 54)).rank) := by
    decide +kernel
  have hkey' : Key.ofValue? (.ofNat 2) = some (.index 2) := by decide +kernel
  constructor
  · rw [distant, hnear.rawGet_rawSet hkey, if_pos (by decide +kernel)]
  · rw [distant, hnear.rawGet_rawSet hkey, if_neg (by decide +kernel),
      Table.wellFormed_empty.toContents.rawGet_rawSet hkey', if_pos (by decide +kernel)]

/-- A runtime with that table only. -/
def withDistant : State := { State.initial {} .keep 0 with tables := #[distant] }

/-- `unpack` of the great integer, which is a double, finds nothing where `rawget` finds a value. -/
theorem withDistant_reads_stop :
    (⟨0⟩ : TableId).index < withDistant.tables.size ∧ (withDistant.table ⟨0⟩).WellFormed ∧
      runBase (invoke 0) .unpack [.table ⟨0⟩, .ofNat (2 ^ 54), .ofNat (2 ^ 54)] withDistant =
        (.ok (replacing [.nil]), withDistant) ∧
      runBase (invoke 0) .rawGet [.table ⟨0⟩, .ofNat (2 ^ 54)] withDistant =
        (.ok (results [.string "far"]), withDistant) ∧
      distant.getInteger 2 = .string "near" := by
  have hid : (⟨0⟩ : TableId).index < withDistant.tables.size := by decide
  have hwf : (withDistant.table ⟨0⟩).WellFormed := reachable_distant.wellFormed
  obtain ⟨hread, hunpack, -, -, hraw, -⟩ :=
    integer_reads_stop_at_greatest_index (invoke 0) hid hwf
  have hto : (Double.ofNat (2 ^ 54)).toInt? = some (2 ^ 54) := by decide +kernel
  refine ⟨hid, hwf, ?_, ?_, ?_⟩
  · obtain ⟨values, hrun, hlength, hvalues⟩ := hunpack
      [.table ⟨0⟩, .ofNat (2 ^ 54), .ofNat (2 ^ 54)] (2 ^ 54) (2 ^ 54)
      ⟨rfl, by decide +kernel, by decide +kernel⟩ (by decide) (by decide)
    obtain ⟨v, rfl⟩ := List.length_eq_one_iff.mp hlength
    have hv := hvalues 0 v rfl (Double.ofNat (2 ^ 54)) (by decide +kernel) hto
    rw [hrun, hv, if_neg (by decide)]
  · rw [hraw _ (.ofNat (2 ^ 54)) rfl rfl]
    show (Except.ok (results [distant.rawGet (.ofNat (2 ^ 54))]), withDistant) = _
    rw [rawGet_distant.1]
  · rw [← rawGet_distant.2]
    exact hread (Double.ofNat 2) 2 (by decide +kernel) (by decide +kernel)

/-- The two ways of reading differ at an integer that is a double, past the greatest index. -/
theorem distant_integer_is_missed :
    ∃ t x i, Table.Reachable t ∧ x.isIntegral = true ∧ x.toInt? = some i ∧
      Value.leastInteger ≤ i ∧ i ≤ Value.greatestInteger ∧
      t.getInteger i ≠ t.rawGet (.number x) := by
  refine ⟨distant, Double.ofNat (2 ^ 54), 2 ^ 54, reachable_distant, by decide +kernel,
    by decide +kernel, by decide, by decide, ?_⟩
  have hraw : distant.rawGet (.number (Double.ofNat (2 ^ 54))) = .string "far" := rawGet_distant.1
  rw [reachable_distant.wellFormed.getInteger_eq, hraw, if_neg (by decide)]
  decide

end LuaRuntime
