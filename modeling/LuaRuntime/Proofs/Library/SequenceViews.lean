import LuaRuntime.Proofs.Library.IntegerReads
import LuaRuntime.Proofs.Library.SortTable
import LuaRuntime.Proofs.Machine.Loops
import LuaRuntime.Proofs.Table.Alike

/-!
# Views of a sequence

The items of a table, the steps of `ipairs`, `unpack` and the length are four ways to find where
the sequence of a table ends: the size of a dense array, reads one after the other up to the first
nil, a range up to the length, and the length itself, remembered or counted.  They agree, because
in either layout the length is the first border.

Some of them change the layout or remember the length.  The table has the same values afterwards,
and so it gives the same answers for ever after.
-/

namespace LuaRuntime

/-! ## Values at numbers -/

namespace Table

/-- The values that raw reads find at the numbers from 1 up to the length. -/
def numbered (t : Table) : List Value := (List.range' 1 t.length).map fun i => t.rawGet (.ofNat i)

/-- The entry at a number, as a raw read finds it. -/
def entryAt (t : Table) (i : Nat) : KeyedValue := ⟨.ofNat i, t.rawGet (.ofNat i)⟩

/-- Those values with their numbers. -/
def numberedEntries (t : Table) : List KeyedValue := (List.range' 1 t.length).map t.entryAt

theorem rawGet_ofNat (t : Table) {i : Nat} (h1 : 1 ≤ i) (h2 : i ≤ 2 ^ 53) :
    t.rawGet (.ofNat i) = t.get (.index i) :=
  rawGet_of_key (Key.ofNumber?_ofNat h1 h2)

theorem getInteger_natCast (t : Table) {i : Nat} (h1 : 1 ≤ i) :
    t.getInteger i = t.get (.index i) := by
  rw [getInteger, if_neg (by omega), Int.toNat_natCast]

theorem numbered_eq_sequence {t : Table} (h : t.length ≤ 2 ^ 53) : t.numbered = t.sequence := by
  refine List.map_congr_left fun i hi => ?_
  rw [List.mem_range'_1] at hi
  exact t.rawGet_ofNat hi.1 (by omega)

theorem WellFormed.get_index_ne_nil {t : Table} (h : t.WellFormed) {i : Nat} (h1 : 1 ≤ i)
    (h2 : i ≤ t.length) : t.get (.index i) ≠ .nil := by
  rw [ne_eq, h.get_eq_nil_iff]
  exact Option.isSome_iff_ne_none.mp (h.isBorder_length.1 i h1 h2)

theorem WellFormed.get_index_length {t : Table} (h : t.WellFormed) :
    t.get (.index (t.length + 1)) = .nil := (h.get_eq_nil_iff _).mpr h.isBorder_length.2

theorem valuesFrom_one (t : Table) : valuesFrom t t.length 1 = t.sequence := by
  refine List.ext_getElem? fun n => ?_
  rcases Nat.lt_or_ge n t.length with hn | hn
  · rw [getElem?_valuesFrom t _ _ n hn, sequence, getElem?_upTo t hn,
      show (1 : Int) + n = ((n + 1 : Nat) : Int) by omega, t.getInteger_natCast (Nat.succ_pos n)]
  · rw [List.getElem?_eq_none (by rwa [length_valuesFrom]),
      List.getElem?_eq_none (by rwa [length_sequence])]

end Table

/-! ## Lengths -/

theorem gives_tableLength (s : State) (id : TableId) :
    Gives (tableLength id) s (s.table id).length (s.modifyTable id Table.measured) := by
  refine (gives_modify _ s).bind ((gives_getTable id _).bind ?_)
  have hlength : ((s.modifyTable id Table.measured).table id).length = (s.table id).length := by
    rcases Nat.lt_or_ge id.index s.tables.size with hlt | hge
    · rw [State.table_modifyTable hlt]
      rfl
    · rw [State.modifyTable_of_le hge]
  rw [hlength]
  exact gives_pure _ _

theorem runTable_length (via : Invoke) {s : State} {id : TableId} {args : List Value}
    (htable : Argument.get? args 1 = some (.table id)) :
    Gives (runTable via .length args) s [.ofNat (s.table id).length]
      (s.modifyTable id Table.measured) := by
  have hid : Argument.table args 1 "getn" = .ok id := by rw [Argument.table, htable]
  exact (gives_lift hid s).bind ((gives_tableLength s id).bind (gives_pure _ _))

theorem length_gives (via : Invoke) {s : State} {id : TableId}
    (hhandler : s.handler? (.table id) .length = none) :
    Gives (length via (.table id)) s (.ofNat (s.table id).length)
      (s.modifyTable id Table.measured) := by
  have hnone : Gives (handler? (.table id) .length) s none s := by
    rw [← hhandler]
    exact (gives_get s).bind (gives_pure _ s)
  exact hnone.bind ((gives_tableLength s id).bind (gives_pure _ _))

/-! ## Unpacking -/

theorem unpack_gives_sequence {s : State} {id : TableId} {args : List Value}
    (htable : Argument.get? args 1 = some (.table id)) (hfirst : Argument.get args 2 = .nil)
    (hlast : Argument.get args 3 = .nil) (hlength : (s.table id).length < 2 ^ 24) :
    Gives (unpack args) s (replacing (s.table id).sequence) (s.modifyTable id Table.measured) := by
  have hid : Argument.table args 1 "unpack" = .ok id := by rw [Argument.table, htable]
  have habsent : ∀ {place}, Argument.get args place = .nil →
      Argument.optional Argument.integer args place "unpack" = .ok none := by
    intro place h
    rw [Argument.optional, h]
    rfl
  refine (gives_lift hid s).bind ?_
  refine (gives_lift (habsent hfirst) s).bind ?_
  refine (gives_lift (habsent hlast) s).bind ?_
  refine (gives_tableLength s id).bind ((gives_pure _ _).bind ?_)
  simp only [Option.getD_none, Int.ofNat_eq_natCast]
  split
  · next hempty =>
    have hnil : (s.table id).sequence = [] :=
      List.eq_nil_of_length_eq_zero ((Table.length_sequence _).trans (by omega))
    rw [hnil]
    exact gives_pure _ _
  · rw [if_neg (by rw [unpackLimit]; omega), Int.sub_add_cancel, Int.toNat_natCast]
    have hvalues : valuesFrom ((s.modifyTable id Table.measured).table id) (s.table id).length 1 =
        (s.table id).sequence := by
      rw [← Table.valuesFrom_one]
      refine valuesFrom_congr (fun k => ?_) _ _
      rcases Nat.lt_or_ge id.index s.tables.size with hlt | hge
      · rw [State.table_modifyTable hlt, Table.get?_measured]
      · rw [State.modifyTable_of_le hge]
    rw [← hvalues]
    exact (gives_getTable id _).bind (gives_pure _ _)

/-! ## Driving `ipairs` -/

section

variable (remaining : Nat) {f : FunctionId} (id : TableId) {u : State}

/-- A call of the iterator changes nothing, and gives the entry at the next number, or nil. -/
theorem call_ipairsStep (hbody : (u.function f).body = .builtin (.base .ipairsStep))
    (hdepth : u.depth < u.limits.callDepth) {i : Nat} (hi : i < 2 ^ 53) :
    Gives (call (invoke (remaining + 1)) (.function f) [.table id, .ofNat i]) u
      (if ((u.table id).get (.index (i + 1))).isNil then [.nil]
        else [.ofNat (i + 1), (u.table id).get (.index (i + 1))]) u := by
  have hne : (i : Int) ≠ Value.greatestInteger := by
    rw [Value.greatestInteger]
    omega
  have hcontrol : (Argument.get [.table id, .ofNat i] 2).toInteger? = some (i : Int) :=
    Value.toInteger?_ofNat (Nat.le_of_lt hi)
  have htable : Argument.get? [.table id, .ofNat i] 1 = some (.table id) := rfl
  have hstep := ipairsStep_gives (s := u.deeper) htable hcontrol hne
  have hnext : (i : Int) + 1 = (i + 1 : Nat) := rfl
  have hvalue : u.deeper.table id = u.table id := rfl
  rw [hnext, hvalue, Table.getInteger_natCast _ (Nat.succ_pos i), Value.ofInt,
    Double.ofInt_natCast] at hstep
  exact call_gives (t := u.deeper) hbody hdepth hstep

/-- From the control after some entries on, the loop gives the entries that are left. -/
theorem drives_ipairs (hwf : (u.table id).WellFormed) (hlength : (u.table id).length < 2 ^ 53)
    (hbody : (u.function f).body = .builtin (.base .ipairsStep))
    (hdepth : u.depth < u.limits.callDepth) : ∀ (left i : Nat), i + left = (u.table id).length →
      Drives (invoke (remaining + 1)) (.function f) (.table id) u (.ofNat i)
        ((List.range' (i + 1) left).map (u.table id).entryAt) u
  | 0, i, hi => by
      have hcall := call_ipairsStep remaining id hbody hdepth (show i < 2 ^ 53 by omega)
      obtain rfl : i = (u.table id).length := by omega
      rw [hwf.get_index_length] at hcall
      exact .stop hcall
  | left + 1, i, hi => by
      have hcall := call_ipairsStep remaining id hbody hdepth (show i < 2 ^ 53 by omega)
      have hvalue := hwf.get_index_ne_nil (Nat.succ_pos i) (show i + 1 ≤ _ by omega)
      rw [if_neg (by rwa [Table.isNil_eq_true_iff]),
        ← Table.rawGet_ofNat _ (Nat.succ_pos i) (by omega)] at hcall
      rw [List.range'_succ, List.map_cons]
      exact .step hcall nofun (drives_ipairs hwf hlength hbody hdepth left (i + 1) (by omega))

end

/-- `ipairs` adds a function to the state, and nothing else. -/
theorem ipairs_gives (via : Invoke) {s : State} {id : TableId} {args : List Value}
    (htable : Argument.get? args 1 = some (.table id)) :
    Gives (runBase via .ipairs args) s
      (results [.function ⟨s.functions.size⟩, .table id, .ofNat 0])
      (s.withFunction ⟨"ipairs_iter", .builtin (.base .ipairsStep)⟩) := by
  have hid : Argument.table args 1 "ipairs" = .ok id := by rw [Argument.table, htable]
  exact (gives_lift hid s).bind ((newFunction_gives _ s).bind (gives_pure _ _))

/-! ## One sequence -/

/-- In a well-formed table, whatever its layout, all views of the sequence agree.  With `L` for the
length, which is below `2 ^ 53`:

* Raw reads find values other than nil at the numbers from 1 to `L`, and nil at the one after them.
* The items are these values.
* The triple that `ipairs` returns drives a loop through these values with their numbers, and then
  the iterator returns nil.
* `unpack` returns these values, if there are fewer than `2 ^ 24`.
* `table.getn` returns `L`, and so does the length operator if the table has no handler for it.

After each of these calls, all tables give the same answers as before, for ever after. -/
theorem sequence_views_agree (remaining : Nat) {s : State} {id : TableId}
    (hwf : (s.table id).WellFormed) (hlength : (s.table id).length < 2 ^ 53)
    (hdepth : s.depth < s.limits.callDepth) :
    let via := invoke (remaining + 1)
    let t := s.table id
    ((∀ v ∈ t.numbered, v ≠ .nil) ∧ t.rawGet (.ofNat (t.length + 1)) = .nil) ∧
    (∃ u, Gives (tableItems id) s t.numbered u ∧ s.AnswersAlike u) ∧
    (∀ args, Argument.get? args 1 = some (.table id) →
      ∃ f u w, Gives (runBase via .ipairs args) s
          (results [.function f, .table id, .ofNat 0]) u ∧ s.AnswersAlike u ∧
        Drives via (.function f) (.table id) u (.ofNat 0) t.numberedEntries w ∧
        s.AnswersAlike w) ∧
    (∀ args, Argument.get? args 1 = some (.table id) → Argument.get args 2 = .nil →
      Argument.get args 3 = .nil → t.length < 2 ^ 24 →
      ∃ u, Gives (runBase via .unpack args) s (replacing t.numbered) u ∧ s.AnswersAlike u) ∧
    (∀ args, Argument.get? args 1 = some (.table id) →
      ∃ u, Gives (runTable via .length args) s [.ofNat t.length] u ∧ s.AnswersAlike u) ∧
    (s.handler? (.table id) .length = none →
      ∃ u, Gives (LuaRuntime.length via (.table id)) s (.ofNat t.length) u ∧
        s.AnswersAlike u) := by
  intro via t
  have hbelow : t.length < 2 ^ 53 := hlength
  have hnumbered : t.numbered = t.sequence := Table.numbered_eq_sequence (Nat.le_of_lt hlength)
  have hmeasured : s.AnswersAlike (s.modifyTable id Table.measured) :=
    State.answersAlike_modifyTable hwf.alike_measured
  refine ⟨⟨?_, ?_⟩, ?_, ?_, ?_, ?_, ?_⟩
  · intro v hv
    obtain ⟨i, hi, rfl⟩ := List.mem_map.mp hv
    rw [List.mem_range'_1] at hi
    rw [t.rawGet_ofNat hi.1 (by omega)]
    exact hwf.get_index_ne_nil hi.1 (show i ≤ t.length by omega)
  · rw [t.rawGet_ofNat (Nat.succ_pos _) hlength]
    exact hwf.get_index_length
  · rw [hnumbered]
    exact ⟨_, gives_tableItems hwf, State.answersAlike_modifyTable hwf.alike_toArray⟩
  · intro args htable
    have hkept : s.AnswersAlike (s.withFunction ⟨"ipairs_iter", .builtin (.base .ipairsStep)⟩) :=
      fun other => .refl (s.table other)
    refine ⟨_, _, _, ipairs_gives via htable, hkept, ?_, hkept⟩
    refine drives_ipairs remaining id (u := s.withFunction _) hwf hlength ?_ hdepth t.length 0
      (Nat.zero_add _)
    rw [State.function_withFunction]
  · intro args htable hfirst hlast hfew
    rw [hnumbered]
    exact ⟨_, unpack_gives_sequence htable hfirst hlast hfew, hmeasured⟩
  · intro args htable
    exact ⟨_, runTable_length via htable, hmeasured⟩
  · intro hhandler
    exact ⟨_, length_gives via hhandler, hmeasured⟩

/-- Two values before a gap are unpacked, and `ipairs` goes over them and stops at the gap. -/
theorem withGap_views_agree :
    (withGap.table ⟨0⟩).WellFormed ∧ (withGap.table ⟨0⟩).length < 2 ^ 53 ∧
      withGap.depth < withGap.limits.callDepth ∧
      (∃ u, Gives (runBase (invoke 1) .unpack [.table ⟨0⟩]) withGap
        (replacing [.boolean false, .string "last"]) u ∧ withGap.AnswersAlike u) ∧
      ∃ f u w, Gives (runBase (invoke 1) .ipairs [.table ⟨0⟩]) withGap
          (results [.function f, .table ⟨0⟩, .ofNat 0]) u ∧
        Drives (invoke 1) (.function f) (.table ⟨0⟩) u (.ofNat 0)
          [⟨.ofNat 1, .boolean false⟩, ⟨.ofNat 2, .string "last"⟩] w := by
  have hwf : (withGap.table ⟨0⟩).WellFormed := wellFormed_gapped
  have hlength : (withGap.table ⟨0⟩).length = 2 := rfl
  have hbelow : (withGap.table ⟨0⟩).length < 2 ^ 53 := by rw [hlength]; decide
  have hdepth : withGap.depth < withGap.limits.callDepth := by decide
  have hfirst : (withGap.table ⟨0⟩).rawGet (.ofNat 1) = .boolean false := by decide +kernel
  have hsecond : (withGap.table ⟨0⟩).rawGet (.ofNat 2) = .string "last" := by decide +kernel
  obtain ⟨-, -, hipairs, hunpack, -, -⟩ := sequence_views_agree 0 hwf hbelow hdepth
  refine ⟨hwf, hbelow, hdepth, ?_, ?_⟩
  · have hunpacked := hunpack [.table ⟨0⟩] rfl rfl rfl (by rw [hlength]; decide)
    simpa only [Table.numbered, hlength, List.range', List.map_cons, List.map_nil, hfirst, hsecond]
      using hunpacked
  · obtain ⟨f, u, w, hgives, -, hdrives, -⟩ := hipairs [.table ⟨0⟩] rfl
    refine ⟨f, u, w, hgives, ?_⟩
    simpa only [Table.numberedEntries, Table.entryAt, hlength, List.range', List.map_cons,
      List.map_nil, hfirst, hsecond] using hdrives

end LuaRuntime
