import LuaRuntime.Proofs.Library.IntegerReads
import LuaRuntime.Proofs.Table.Alike

/-!
# Joining a range of a table

`table.concat` joins the texts of a table at the integers of a range, with a separator between
neighbours.  It succeeds exactly if all of the range has texts, and otherwise names the least
integer that has none (`concat_joins_range`).  A range that is cut in two is joined from the two
parts with one more separator.

The call brings the table into the array layout before it looks at the ends of the range, so an
argument that is refused may leave the table in another layout, but with the same values
(`concat_keeps_values`).
-/

namespace LuaRuntime

/-! ## Texts of a range -/

/-- The texts of a table at the integers of a range. -/
def Table.rangeTexts (t : Table) (first last : ℤ) : List String :=
  (List.range (last - first + 1).toNat).map fun n : ℕ => (t.getInteger (first + n)).rawText

/-- All integers of a range have texts in a table. -/
def Table.TextualIn (t : Table) (first last : ℤ) : Prop :=
  ∀ k, first ≤ k → k ≤ last → (t.getInteger k).isTextual = true

/-- The least integer of a range without a text in a table. -/
structure Table.Offends (t : Table) (first last k : ℤ) : Prop where
  first_le : first ≤ k
  le_last : k ≤ last
  not_textual : (t.getInteger k).isTextual = false
  least : ∀ i, first ≤ i → i < k → (t.getInteger i).isTextual = true

theorem valuesFrom_eq_map (t : Table) (count : ℕ) (first : ℤ) :
    valuesFrom t count first = (List.range count).map fun n : ℕ => t.getInteger (first + n) := by
  induction count generalizing first with
  | zero => rfl
  | succ count ih =>
    rw [valuesFrom, ih, List.range_succ_eq_map, List.map_cons, List.map_map, Int.natCast_zero,
      Int.add_zero]
    congr 2
    funext n
    simp only [Function.comp_apply, Nat.cast_succ]
    congr 1
    ring

/-- The first of some values without a text is refused, with the integer it stands at. -/
theorem textsFrom_cases (values : List Value) (first : ℤ) :
    ((∀ v ∈ values, v.isTextual = true) ∧
      textsFrom first values = .ok (values.map Value.rawText)) ∨
    ∃ n v, values[n]? = some v ∧ v.isTextual = false ∧
      (∀ m < n, ∀ u, values[m]? = some u → u.isTextual = true) ∧
      textsFrom first values = .error (.concatenateItem (first + (n : ℕ)) v.kind) := by
  induction values generalizing first with
  | nil => exact .inl ⟨nofun, rfl⟩
  | cons v values ih =>
    cases hv : v.isTextual with
    | false =>
      refine .inr ⟨0, v, rfl, hv, nofun, ?_⟩
      simp [textsFrom, hv]
    | true =>
      obtain ⟨hall, hrest⟩ | ⟨n, u, hu, hnot, hbefore, hrest⟩ := ih (first + 1)
      · refine .inl ⟨List.forall_mem_cons.mpr ⟨hv, hall⟩, ?_⟩
        rw [textsFrom, if_pos hv, hrest]
        rfl
      · refine .inr ⟨n + 1, u, hu, hnot, ?_, ?_⟩
        · rintro (_ | m) hm w hw
          · obtain rfl := Option.some.inj hw
            exact hv
          · exact hbefore m (Nat.lt_of_succ_lt_succ hm) w hw
        · rw [textsFrom, if_pos hv, hrest, Nat.cast_succ, Int.add_assoc, Int.add_comm 1]
          rfl

theorem textualIn_cut {t : Table} {first middle last : ℤ} (h : t.TextualIn first last)
    (hfirst : first ≤ middle) (hlast : middle < last) :
    t.TextualIn first middle ∧ t.TextualIn (middle + 1) last :=
  ⟨fun k hk hle => h k hk (by omega), fun k hk hle => h k (by omega) hle⟩

/-- The texts of a range are those of its parts. -/
theorem rangeTexts_append (t : Table) {first middle last : ℤ} (hfirst : first ≤ middle)
    (hlast : middle < last) :
    t.rangeTexts first last = t.rangeTexts first middle ++ t.rangeTexts (middle + 1) last := by
  obtain ⟨a, ha⟩ := Int.eq_ofNat_of_zero_le (show 0 ≤ middle - first + 1 by omega)
  obtain ⟨b, hb⟩ := Int.eq_ofNat_of_zero_le (show 0 ≤ last - (middle + 1) + 1 by omega)
  have hall : (last - first + 1).toNat = a + b := by omega
  rw [Table.rangeTexts, Table.rangeTexts, Table.rangeTexts, hall, ha, hb, Int.toNat_natCast,
    Int.toNat_natCast, List.range_add, List.map_append, List.map_map]
  congr 2
  funext n
  simp only [Function.comp_apply, Nat.cast_add]
  congr 2
  omega

theorem rangeTexts_ne_nil (t : Table) {first last : ℤ} (h : first ≤ last) :
    t.rangeTexts first last ≠ [] := by
  rw [Table.rangeTexts, Ne, List.map_eq_nil_iff, List.range_eq_nil]
  omega

/-- One separator stands between two joined lists. -/
theorem intercalate_append (separator : String) {front back : List String} (hfront : front ≠ [])
    (hback : back ≠ []) :
    separator.intercalate (front ++ back) =
      separator.intercalate front ++ separator ++ separator.intercalate back := by
  induction front with
  | nil => exact absurd rfl hfront
  | cons text front ih =>
    cases front with
    | nil =>
      obtain ⟨next, back, rfl⟩ := List.exists_cons_of_ne_nil hback
      rw [List.singleton_append, String.intercalate_cons_cons, String.intercalate_singleton]
    | cons next front =>
      rw [List.cons_append, List.cons_append, String.intercalate_cons_cons, ← List.cons_append,
        ih (List.cons_ne_nil _ _), String.intercalate_cons_cons]
      simp only [String.append_assoc]

/-! ## Runs -/

/-- What `table.concat` is asked to join: a table, a separator, by default an empty one, and a
range, by default from one to the length. -/
structure ConcatArguments (args : List Value) (id : TableId) (length : ℕ) (separator : String)
    (first last : ℤ) : Prop where
  table : Argument.get? args 1 = some (.table id)
  separator : ∃ given, Argument.optional Argument.string args 2 "concat" = .ok given ∧
    given.getD "" = separator
  first : ∃ given, Argument.optional Argument.integer args 3 "concat" = .ok given ∧
    given.getD 1 = first
  last : ∃ given, Argument.optional Argument.integer args 4 "concat" = .ok given ∧
    given.getD (length : ℤ) = last

section

variable {s : State} {id : TableId} {args : List Value} {separator : String} {first last : ℤ}

theorem concat_run (call : Invoke) (hid : id.index < s.tables.size)
    (hwf : (s.table id).WellFormed)
    (h : ConcatArguments args id (s.table id).length separator first last) :
    ((s.table id).TextualIn first last ∧ (runTable call .concat args s).1 =
      .ok [.string (separator.intercalate ((s.table id).rangeTexts first last))]) ∨
    ∃ k, (s.table id).Offends first last k ∧ (runTable call .concat args s).1 =
      .error (.concatenateItem k ((s.table id).getInteger k).kind) := by
  obtain ⟨htable, ⟨given, hgiven, rfl⟩, ⟨from?, hfrom, hfirst⟩, ⟨to?, hto, hlast⟩⟩ := h
  have hrun := runTable_concat call hid hwf htable hgiven hfrom hto hfirst hlast
  rw [valuesFrom_eq_map] at hrun
  obtain ⟨hall, htexts⟩ | ⟨n, v, hv, hnot, hbefore, htexts⟩ := textsFrom_cases
    ((List.range (last - first + 1).toNat).map fun n : ℕ => (s.table id).getInteger (first + n))
    first
  · refine .inl ⟨fun k hk hle => ?_, ?_⟩
    · have hread := List.forall_mem_map.mp hall (k - first).toNat (List.mem_range.mpr (by omega))
      rwa [Int.toNat_of_nonneg (by omega), add_sub_cancel] at hread
    · rw [hrun, htexts, List.map_map]
      rfl
  · obtain ⟨m, hm, rfl⟩ : ∃ m, (List.range (last - first + 1).toNat)[n]? = some m ∧
        (s.table id).getInteger (first + (m : ℕ)) = v := by simpa using hv
    obtain ⟨hn, rfl⟩ := List.getElem?_eq_some_iff.mp hm
    rw [List.length_range] at hn
    rw [List.getElem_range] at *
    refine .inr ⟨first + n, ⟨by omega, by omega, hnot, fun i hi hlt => ?_⟩, ?_⟩
    · refine hbefore (i - first).toNat (by omega) _ ?_
      have hi' : first + ((i - first).toNat : ℤ) = i := by omega
      simp only [List.getElem?_map, List.getElem?_range (show (i - first).toNat <
        (last - first + 1).toNat by omega), Option.map_some, hi']
    · rw [hrun, htexts]
      rfl

/-- A check leaves the state to what comes after it. -/
theorem snd_bind_lift {α β : Type} (Q : State → Prop) {e : Except Error α} {f : α → Action β}
    {u : State} (hu : Q u) (hf : ∀ a, Q (f a u).2) : Q ((liftM e >>= f) u).2 := by
  rw [bind_run, lift_run]
  cases e with
  | error e => exact hu
  | ok a => exact hf a

/-- Whatever the other arguments are, the table is left as it was or in the array layout. -/
theorem concat_leaves (call : Invoke) (hid : id.index < s.tables.size)
    (hwf : (s.table id).WellFormed) (htable : Argument.get? args 1 = some (.table id)) :
    (runTable call .concat args s).2 = s ∨
      (runTable call .concat args s).2 = s.modifyTable id Table.toArray := by
  let Q (u : State) : Prop := u = s ∨ u = s.modifyTable id Table.toArray
  have hargs : Argument.table args 1 "concat" = .ok id := by rw [Argument.table, htable]
  have hitems : Q (concatItems args s).2 := by
    rw [concatItems, bind_run, gives_lift hargs s]
    dsimp only
    refine snd_bind_lift Q (.inl rfl) fun separator => ?_
    rw [bind_run, gives_tableItemCount hid hwf]
    dsimp only
    refine snd_bind_lift Q (.inr rfl) fun first => snd_bind_lift Q (.inr rfl) fun last => ?_
    rw [bind_run, gives_getTable]
    dsimp only
    exact snd_bind_lift Q (.inr rfl) fun texts => .inr rfl
  have hsame : (runTable call .concat args s).2 = (concatItems args s).2 := by
    rw [runTable, bind_run]
    rcases concatItems args s with ⟨_ | _, u⟩ <;> rfl
  rw [hsame]
  exact hitems

/-- A call changes no value of a table, whether it succeeds or fails. -/
theorem concat_keeps_values (call : Invoke) (hid : id.index < s.tables.size)
    (hwf : (s.table id).WellFormed) (htable : Argument.get? args 1 = some (.table id))
    (other : TableId) (key : Value) :
    ((runTable call .concat args s).2.table other).rawGet key = (s.table other).rawGet key := by
  rcases concat_leaves call hid hwf htable with h | h <;> rw [h]
  exact (State.answersAlike_modifyTable hwf.alike_toArray other [] trivial).1 key

/-- `table.concat` succeeds exactly if a range has texts, and joins them.  Otherwise it names the
least integer without one.  It joins a range from its parts, and changes no value of the table. -/
theorem concat_joins_range (call : Invoke) (hid : id.index < s.tables.size)
    (hwf : (s.table id).WellFormed)
    (h : ConcatArguments args id (s.table id).length separator first last) :
    let t := s.table id
    ((∃ text, (runTable call .concat args s).1 = .ok [.string text]) ↔ t.TextualIn first last) ∧
    (t.TextualIn first last →
      (runTable call .concat args s).1 =
        .ok [.string (separator.intercalate (t.rangeTexts first last))]) ∧
    (last < first → (runTable call .concat args s).1 = .ok [.string ""]) ∧
    (¬ t.TextualIn first last →
      ∃ k, t.Offends first last k ∧
        (runTable call .concat args s).1 = .error (.concatenateItem k (t.getInteger k).kind)) ∧
    (∀ middle front back, t.TextualIn first last → first ≤ middle → middle < last →
      ConcatArguments front id t.length separator first middle →
      ConcatArguments back id t.length separator (middle + 1) last →
      ∃ a b, (runTable call .concat front s).1 = .ok [.string a] ∧
        (runTable call .concat back s).1 = .ok [.string b] ∧
        (runTable call .concat args s).1 = .ok [.string (a ++ separator ++ b)]) ∧
    (∀ any other key, Argument.get? any 1 = some (.table id) →
      ((runTable call .concat any s).2.table other).rawGet key =
        (s.table other).rawGet key) := by
  intro t
  have hcases {args : List Value} {first last : ℤ}
      (h : ConcatArguments args id t.length separator first last) := concat_run call hid hwf h
  have hjoined {args : List Value} {first last : ℤ}
      (h : ConcatArguments args id t.length separator first last)
      (ht : t.TextualIn first last) : (runTable call .concat args s).1 =
        .ok [.string (separator.intercalate (t.rangeTexts first last))] := by
    obtain ⟨-, hrun⟩ | ⟨k, hk, -⟩ := hcases h
    · exact hrun
    · have htextual := ht k hk.first_le hk.le_last
      rw [hk.not_textual] at htextual
      cases htextual
  refine ⟨⟨fun ⟨text, htext⟩ => ?_, fun ht => ⟨_, hjoined h ht⟩⟩, hjoined h, fun hempty => ?_,
    fun hnot => ?_, ?_,
    fun any other key htable => concat_keeps_values call hid hwf htable other key⟩
  · obtain ⟨ht, -⟩ | ⟨k, -, hrun⟩ := hcases h
    · exact ht
    · rw [hrun] at htext
      cases htext
  · have hnone : (last - first + 1).toNat = 0 := by omega
    rw [hjoined h fun k hk hle => absurd hk (by omega), Table.rangeTexts, hnone]
    simp
  · exact (hcases h).resolve_left fun hjoin => hnot hjoin.1
  · intro middle front back ht hfirst hlast hfront hback
    obtain ⟨hleft, hright⟩ := textualIn_cut ht hfirst hlast
    refine ⟨_, _, hjoined hfront hleft, hjoined hback hright, ?_⟩
    rw [hjoined h ht, rangeTexts_append t hfirst hlast, intercalate_append separator
      (rangeTexts_ne_nil t hfirst) (rangeTexts_ne_nil t (Int.add_one_le_of_lt hlast))]

end

/-- Three letters in a sequence. -/
def lettered : Table :=
  { indexed := .array #[.string "a", .string "b", .string "c"] Std.HashMap.emptyWithCapacity }

theorem wellFormed_lettered : lettered.WellFormed := by
  refine Table.Contents.wellFormed { Table.contents_empty with indexed := ?_ } rfl rfl
  refine ⟨by simp, by decide, ?_⟩
  intro i v hv
  simp at hv

/-- A runtime with that table only. -/
def withLetters : State := { State.initial {} .keep 0 with tables := #[lettered] }

/-- The letters are joined, and the fourth integer has no text. -/
theorem withLetters_joins_range :
    (⟨0⟩ : TableId).index < withLetters.tables.size ∧ (withLetters.table ⟨0⟩).WellFormed ∧
      ConcatArguments [.table ⟨0⟩, .string "-"] ⟨0⟩ (withLetters.table ⟨0⟩).length "-" 1 3 ∧
      (runTable (invoke 0) .concat [.table ⟨0⟩, .string "-"] withLetters).1 =
        .ok [.string "a-b-c"] ∧
      ∃ k, lettered.Offends 2 4 k ∧
        (runTable (invoke 0) .concat [.table ⟨0⟩, .nil, .ofNat 2, .ofNat 4] withLetters).1 =
          .error (.concatenateItem k (lettered.getInteger k).kind) := by
  have hid : (⟨0⟩ : TableId).index < withLetters.tables.size := by decide
  have hargs : ConcatArguments [.table ⟨0⟩, .string "-"] ⟨0⟩ (withLetters.table ⟨0⟩).length "-"
      1 3 := ⟨rfl, ⟨some "-", rfl, rfl⟩, ⟨none, rfl, rfl⟩, ⟨none, rfl, rfl⟩⟩
  have hrange : ConcatArguments [.table ⟨0⟩, .nil, .ofNat 2, .ofNat 4] ⟨0⟩
      (withLetters.table ⟨0⟩).length "" 2 4 :=
    ⟨rfl, ⟨none, rfl, rfl⟩,
      ⟨some 2, Argument.optional_integer "concat" (by decide +kernel), rfl⟩,
      ⟨some 4, Argument.optional_integer "concat" (by decide +kernel), rfl⟩⟩
  have htextual : (withLetters.table ⟨0⟩).TextualIn 1 3 := by
    intro k hfirst hlast
    obtain rfl | rfl | rfl : k = 1 ∨ k = 2 ∨ k = 3 := by omega
    all_goals rfl
  have habsent : (withLetters.table ⟨0⟩).getInteger 4 = .nil := by
    show ((Std.HashMap.emptyWithCapacity : Std.HashMap Nat Value)[4]?).getD Value.nil = .nil
    simp
  have hnot : ¬ (withLetters.table ⟨0⟩).TextualIn 2 4 := by
    intro h
    have := h 4 (by decide) (by decide)
    rw [habsent] at this
    cases this
  refine ⟨hid, wellFormed_lettered, hargs, ?_, ?_⟩
  · exact (concat_joins_range (invoke 0) hid wellFormed_lettered hargs).2.1 htextual
  · exact (concat_joins_range (invoke 0) hid wellFormed_lettered hrange).2.2.2.1 hnot

end LuaRuntime
