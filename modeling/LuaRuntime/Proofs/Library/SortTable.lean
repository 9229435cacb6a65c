import LuaRuntime.Proofs.Library.MergeSort
import LuaRuntime.Proofs.Machine.CallDepth
import LuaRuntime.Proofs.State.Fields
import LuaRuntime.Proofs.Table.Sequence

/-!
# Sorting a table

`table.sort` reads the items of a table, makes the comparisons of a merge sort of them, and writes
the result over the same indices.  A comparison may fail, answer as it likes and change the state,
the table included.  The table is still there afterwards, because no call takes a table away
(`tables_invoke`), so the result is written to it as the comparisons left it.
-/

namespace LuaRuntime

/-! ## Comparisons keep the table -/

theorem tables_sortLess {remaining : Nat} {comparison a b : Value} {s t : State} {answer : Bool}
    (h : Gives (sortLess (invoke remaining) comparison a b) s answer t) :
    s.tables.size ≤ t.tables.size := by
  have hsize := frame_tables.programmed (programmed_sortLess comparison a b)
    (tables_invoke remaining) s
  rwa [h] at hsize

theorem Asking.Reaches.tables_le {β : Type} {remaining : Nat} {comparison : Value}
    {tree rest : Asking Value β} {s t : State}
    (h : Reaches (sortLess (invoke remaining) comparison) tree s rest t) :
    s.tables.size ≤ t.tables.size := by
  induction h with
  | refl => exact Nat.le_refl _
  | step hanswer _ ih => exact (tables_sortLess hanswer).trans ih

/-! ## The steps of a sort -/

/-- The state in which the comparisons start: the table has been put into the array layout. -/
def State.withItems (s : State) (id : TableId) : State := s.modifyTable id Table.toArray

theorem State.table_withItems (s : State) (id : TableId) :
    (s.withItems id).table id = (s.table id).toArray ∨ (s.withItems id).table id = s.table id := by
  rcases Nat.lt_or_ge id.index s.tables.size with h | h
  · exact Or.inl (table_modifyTable h Table.toArray)
  · exact Or.inr (by rw [withItems, modifyTable_of_le h])

theorem State.get_withItems (s : State) (id : TableId) (k : Key) :
    ((s.withItems id).table id).get k = (s.table id).get k := by
  rcases s.table_withItems id with h | h
  · rw [h, Table.get_toArray]
  · rw [h]

theorem State.items_withItems (s : State) (id : TableId) :
    ((s.withItems id).table id).items = (s.table id).items := by
  rcases s.table_withItems id with h | h
  · obtain ⟨items, overflow, heq⟩ := Indexed.toArray_eq_array (s.table id).indexed
    have htwice : (s.table id).toArray.indexed.toArray = .array items overflow := by
      show (s.table id).indexed.toArray.toArray = _
      rw [heq, Indexed.toArray]
    rw [h, Table.items_eq heq, Table.items_eq htwice]
  · rw [h]

theorem gives_tableItems {s : State} {id : TableId} (hwf : (s.table id).WellFormed) :
    Gives (tableItems id) s (s.table id).sequence (s.withItems id) := by
  rw [← hwf.toList_items, ← s.items_withItems]
  rfl

/-- Fewer than two items are sorted without a comparison. -/
theorem gives_sort_of_length_le_one {less : Value → Value → Action Bool} {items : List Value}
    (h : items.length ≤ 1) (s : State) : Gives (MergeSort.sort less items) s items s := by
  rcases items with _ | ⟨x, _ | ⟨y, rest⟩⟩
  · rfl
  · rfl
  · simp at h

/-- The state with a sorted list written over the indices of a table.  Fewer than two values are
not written. -/
def State.withSorted (u : State) (id : TableId) (sorted : List Value) : State :=
  if sorted.length ≤ 1 then u else u.modifyTable id (·.replaceItems sorted)

section

variable {args : List Value} {s : State} {id : TableId}
  (htable : Argument.get? args 1 = some (.table id))
  (hcomparison : (Argument.get args 2).isNil = true ∨ (Argument.get args 2).isFunction = true)
  (hwf : (s.table id).WellFormed)
include htable hcomparison hwf

/-- A sort makes the comparisons of a merge sort, and writes what they lead to. -/
theorem sortTable_run (call : Invoke) :
    sortTable call args s =
      match (MergeSort.sort Asking.compare (s.table id).sequence).run
          (sortLess call (Argument.get args 2)) (s.withItems id) with
      | (.ok sorted, u) => (.ok (), if (s.table id).sequence.length ≤ 1 then u
          else u.modifyTable id (·.replaceItems sorted))
      | (.error e, u) => (.error e, u) := by
  have hid : Argument.table args 1 "sort" = .ok id := by rw [Argument.table, htable]
  have haccepted : (!(Argument.get args 2).isNil && !(Argument.get args 2).isFunction) = false := by
    rcases hcomparison with h | h <;> simp [h]
  rw [sortTable, bind_run, gives_lift hid s]
  dsimp only
  rw [haccepted, if_neg Bool.false_ne_true, bind_run, gives_tableItems hwf, Asking.run_sort]
  dsimp only
  split
  · next hfew =>
    rw [gives_sort_of_length_le_one hfew]
    rfl
  · rw [bind_run]
    rcases MergeSort.sort (sortLess call (Argument.get args 2)) (s.table id).sequence
      (s.withItems id) with ⟨result, u⟩
    cases result <;> rfl

theorem sortTable_of_done {call : Invoke} {sorted : List Value} {u : State}
    (h : Asking.Reaches (sortLess call (Argument.get args 2))
      (MergeSort.sort Asking.compare (s.table id).sequence) (s.withItems id) (.done sorted) u) :
    sortTable call args s = (.ok (), u.withSorted id sorted) := by
  rw [sortTable_run htable hcomparison hwf, Asking.run_eq_ok_iff.mpr h, ← h.perm.length_eq]
  rfl

theorem sortTable_of_failure {call : Invoke} {x y : Value}
    {next : Bool → Asking Value (List Value)} {u t : State} {e : Error}
    (h : Asking.Reaches (sortLess call (Argument.get args 2))
      (MergeSort.sort Asking.compare (s.table id).sequence) (s.withItems id) (.ask x y next) u)
    (he : sortLess call (Argument.get args 2) x y u = (.error e, t)) :
    sortTable call args s = (.error e, t) := by
  rw [sortTable_run htable hcomparison hwf,
    Asking.run_eq_error_iff.mpr ⟨x, y, next, u, h, he⟩]

end

section

variable {s : State} {id : TableId}

/-- A table with items to move is one of the state. -/
theorem State.index_lt_of_length (h : ¬ (s.table id).length ≤ 1) : id.index < s.tables.size := by
  rcases Nat.lt_or_ge id.index s.tables.size with hlt | hge
  · exact hlt
  · refine absurd ?_ h
    rw [State.table, Array.getElem?_eq_none hge]
    decide

/-- What the comparisons of a sort lead to is written to the table as they left it. -/
theorem table_withSorted {remaining : Nat} {comparison : Value} {sorted : List Value} {u : State}
    (h : Asking.Reaches (sortLess (invoke remaining) comparison)
      (MergeSort.sort Asking.compare (s.table id).sequence) (s.withItems id) (.done sorted) u) :
    ((u.withSorted id sorted).table id).upTo (s.table id).length = sorted ∧
      ∀ k, (∀ i, 1 ≤ i → i ≤ (s.table id).length → k ≠ .index i) →
        ((u.withSorted id sorted).table id).get k = (u.table id).get k := by
  have hlength : sorted.length = (s.table id).length := by
    rw [h.perm.length_eq, Table.length_sequence]
  rw [State.withSorted]
  split
  · next hfew =>
    have hrun := h.run_eq
    rw [h.perm.length_eq] at hfew
    rw [Asking.run_sort, gives_sort_of_length_le_one hfew] at hrun
    cases hrun
    exact ⟨Table.upTo_congr (s.get_withItems id), fun k _ => rfl⟩
  · next hmany =>
    rw [hlength] at hmany
    have hsize : s.tables.size ≤ u.tables.size := by
      have hle := h.tables_le
      rwa [State.withItems, State.modifyTable, Array.size_modify] at hle
    rw [State.table_modifyTable ((State.index_lt_of_length hmany).trans_le hsize), ← hlength]
    exact ⟨Table.upTo_replaceItems _ sorted, fun k => Table.get_replaceItems_of_ne _ sorted⟩

end

/-! ## Sorting -/

/-- For every table, whatever its comparisons do:

* if the sort succeeds, the comparisons of a merge sort of the values up to the length led to a
  permutation of them, which stands at the same indices, and at every other key is what the
  comparisons left there;
* it fails exactly with the error of a comparison, in the state that comparison left;
* if the comparisons answer by a strict weak order of the values, as they do if they leave the state
  as it is (`Asking.Reaches.answers_of_pure`), the sort succeeds, no value is less than an earlier
  one, and equivalent values keep their order. -/
theorem sortTable_permutes_and_is_stable (remaining : Nat) {args : List Value} {s : State}
    {id : TableId} (htable : Argument.get? args 1 = some (.table id))
    (hcomparison : (Argument.get args 2).isNil = true ∨ (Argument.get args 2).isFunction = true)
    (hwf : (s.table id).WellFormed) :
    let n := (s.table id).length
    let items := (s.table id).upTo n
    let less := sortLess (invoke remaining) (Argument.get args 2)
    let comparisons := MergeSort.sort Asking.compare items
    (∀ t, sortTable (invoke remaining) args s = (.ok (), t) →
      ∃ sorted u, Asking.Reaches less comparisons (s.withItems id) (.done sorted) u ∧
        sorted.Perm items ∧ (t.table id).upTo n = sorted ∧
        ∀ k, (∀ i, 1 ≤ i → i ≤ n → k ≠ .index i) → (t.table id).get k = (u.table id).get k) ∧
    (∀ e t, sortTable (invoke remaining) args s = (.error e, t) ↔
      ∃ x y next u, Asking.Reaches less comparisons (s.withItems id) (.ask x y next) u ∧
        less x y u = (.error e, t)) ∧
    (∀ lt, StrictWeakOrder lt items →
      (∀ x y next u, Asking.Reaches less comparisons (s.withItems id) (.ask x y next) u →
        ∃ v, Gives (less x y) u (lt x y) v) →
      ∃ t, sortTable (invoke remaining) args s = (.ok (), t) ∧
        Ascending lt ((t.table id).upTo n) ∧
        ∀ z ∈ items, ((t.table id).upTo n).filter (alike lt z) = items.filter (alike lt z)) := by
  intro n items less comparisons
  have hfailure : ∀ e t, (∃ x y next u,
      Asking.Reaches less comparisons (s.withItems id) (.ask x y next) u ∧
        less x y u = (.error e, t)) → sortTable (invoke remaining) args s = (.error e, t) := by
    rintro e t ⟨x, y, next, u, h, he⟩
    exact sortTable_of_failure htable hcomparison hwf h he
  rcases Asking.exists_reaches less comparisons (s.withItems id) with
    ⟨sorted, u, h⟩ | ⟨x, y, next, u, e, t, h, he⟩
  · have hrun := sortTable_of_done htable hcomparison hwf h
    obtain ⟨hsorted, hothers⟩ := table_withSorted h
    refine ⟨fun t ht => ?_, fun e t => ⟨fun ht => ?_, hfailure e t⟩, fun lt horder hanswers => ?_⟩
    · cases hrun.symm.trans ht
      exact ⟨sorted, u, h, h.perm, hsorted, hothers⟩
    · cases hrun.symm.trans ht
    · refine ⟨_, hrun, ?_⟩
      rw [hsorted]
      exact h.ascending horder hanswers
  · have hrun := hfailure e t ⟨x, y, next, u, h, he⟩
    refine ⟨fun t' ht => ?_, fun e' t' => ⟨fun ht => ?_, hfailure e' t'⟩, fun lt _ hanswers => ?_⟩
    · cases hrun.symm.trans ht
    · cases hrun.symm.trans ht
      exact ⟨x, y, next, u, h, he⟩
    · obtain ⟨v, hv⟩ := hanswers x y next u h
      cases he.symm.trans hv

/-- The order of numbers, in which zero and its negative are equivalent. -/
def numberLess : Value → Value → Bool
  | .number x, .number y => x.less y
  | _, _ => false

/-- A runtime whose only table holds one, zero and negative zero. -/
def withNumbers : State :=
  { State.initial {} .keep 0 with
    tables := #[{ indexed := .array #[.ofNat 1, .number (.zero false), .number (.zero true)] {} }] }

theorem wellFormed_withNumbers : (withNumbers.table ⟨0⟩).WellFormed := by
  refine Table.Contents.wellFormed { Table.contents_empty with indexed := ?_ } rfl rfl
  show Indexed.WellFormed (.array #[.ofNat 1, .number (.zero false), .number (.zero true)] {})
  simp [Indexed.WellFormed, Value.ofNat, Key.greatestIndex]

theorem withNumbers_permutes_and_is_stable :
    ∃ t, sortTable (invoke 0) [.table ⟨0⟩] withNumbers = (.ok (), t) ∧
      Ascending numberLess ((t.table ⟨0⟩).upTo 3) ∧
      ((t.table ⟨0⟩).upTo 3).filter (alike numberLess (.number (.zero false))) =
        [.number (.zero false), .number (.zero true)] := by
  have hlength : (withNumbers.table ⟨0⟩).length = 3 := rfl
  have hitems : (withNumbers.table ⟨0⟩).upTo 3 =
    [.ofNat 1, .number (.zero false), .number (.zero true)] := rfl
  have horder : StrictWeakOrder numberLess ((withNumbers.table ⟨0⟩).upTo 3) := by
    rw [hitems]
    exact ⟨by decide +kernel, by decide +kernel, by decide +kernel⟩
  have hpure : ∀ x ∈ (withNumbers.table ⟨0⟩).upTo 3, ∀ y ∈ (withNumbers.table ⟨0⟩).upTo 3,
      ∀ s, Gives (sortLess (invoke 0) .nil x y) s (numberLess x y) s := by
    rw [hitems]
    simp only [List.forall_mem_cons, List.not_mem_nil, false_imp_iff, implies_true, and_true]
    exact ⟨⟨fun _ => rfl, fun _ => rfl, fun _ => rfl⟩, ⟨fun _ => rfl, fun _ => rfl, fun _ => rfl⟩,
      fun _ => rfl, fun _ => rfl, fun _ => rfl⟩
  have hget : Argument.get? [.table ⟨0⟩] 1 = some (.table ⟨0⟩) := rfl
  have hsort := sortTable_permutes_and_is_stable 0 hget (Or.inl rfl)
    wellFormed_withNumbers
  rw [hlength] at hsort
  obtain ⟨t, hrun, hascending, hstable⟩ := hsort.2.2 numberLess horder fun x y next u h =>
    h.answers_of_pure fun x hx y hy => hpure x hx y hy _
  refine ⟨t, hrun, hascending, ?_⟩
  rw [hstable _ (by rw [hitems]; simp), hitems]
  rfl

end LuaRuntime
