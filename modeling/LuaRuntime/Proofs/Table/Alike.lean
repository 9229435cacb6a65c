import LuaRuntime.Proofs.State.Fields
import LuaRuntime.Proofs.Table.Shift

/-!
# Tables that answer alike

The layout of a table, its remembered length and its remembered traversal are seen by no read.
More than that, they are seen by no read later on: two well-formed tables with the same values
have the same values again after any edit of both (`Alike.apply`), because the values after an
edit are a function of those before.  So a call that only changes what a table remembers changes
no answer of the table for ever after (`Alike.answersAlike`).
-/

namespace LuaRuntime

namespace Table

/-! ## Values after a write -/

/-- The value at each key after a write at a value. -/
theorem Contents.get_rawSet {t : Table} (h : t.Contents) (key v : Value) (l : Key) :
    (t.rawSet key v).get l = if Key.ofValue? key = some l then v else t.get l := by
  rw [rawSet]
  cases hkey : Key.ofValue? key with
  | none => rw [if_neg (Option.some_ne_none l).symm, get, get?_forget, get]
  | some k =>
    rw [get, (h.forget _).get?_put, get?_forget, apply_ite (Option.getD · Value.nil), getD_ofValue?]
    exact ite_congr (by rw [Option.some.injEq]) (fun _ => rfl) fun _ => rfl

theorem Contents.get_toSparse {t : Table} (h : t.Contents) (k : Key) :
    t.toSparse.get k = t.get k := by
  rw [get, get, h.get?_toSparse]

/-! ## Tables with the same values -/

/-- Well-formed tables with the same values. -/
structure Alike (t u : Table) : Prop where
  left : t.WellFormed
  right : u.WellFormed
  get_eq : ∀ k, u.get k = t.get k

theorem WellFormed.alike {t u : Table} (ht : t.WellFormed) (hu : u.WellFormed)
    (h : ∀ k, u.get? k = t.get? k) : Alike t u :=
  ⟨ht, hu, fun k => by rw [get, get, h]⟩

namespace Alike

variable {t u : Table}

theorem isSome_eq (h : Alike t u) (k : Key) : (u.get? k).isSome = (t.get? k).isSome := by
  have hiff : u.get? k = none ↔ t.get? k = none := by
    rw [← h.right.get_eq_nil_iff, ← h.left.get_eq_nil_iff, h.get_eq]
  rw [Bool.eq_iff_iff, Option.isSome_iff_ne_none, Option.isSome_iff_ne_none, ne_eq, ne_eq, hiff]

theorem rawGet_eq (h : Alike t u) (key : Value) : u.rawGet key = t.rawGet key := by
  rw [rawGet, rawGet]
  cases Key.ofValue? key with
  | none => rfl
  | some k => exact h.get_eq k

/-- The first border is the same, remembered or not. -/
theorem length_eq (h : Alike t u) : u.length = t.length := by
  have hborder : u.indexed.IsBorder t.length := by
    have ht := h.left.isBorder_length
    refine ⟨fun i h1 h2 => (h.isSome_eq (.index i)).trans (ht.1 i h1 h2), ?_⟩
    have hnone : t.get (.index (t.length + 1)) = .nil := (h.left.get_eq_nil_iff _).mpr ht.2
    rw [← h.get_eq, h.right.get_eq_nil_iff] at hnone
    exact hnone
  exact h.right.isBorder_length.unique hborder

theorem size_eq (h : Alike t u) : u.size = t.size := by
  have hperm : (u.keys .ascending).Perm (t.keys .ascending) := by
    refine (List.perm_ext_iff_of_nodup (h.right.keys_nodup _) (h.left.keys_nodup _)).mpr ?_
    intro k
    rw [h.right.mem_keys, h.left.mem_keys, h.isSome_eq]
  rw [← length_keys u .ascending, ← length_keys t .ascending, hperm.length_eq]

theorem inRange (h : Alike t u) {e : Edit} (hr : e.InRange t) : e.InRange u := by
  cases e with
  | insert position v =>
    show u.size < 2 ^ 53
    rw [h.size_eq]
    exact hr
  | _ => exact hr

theorem get_insertItem (h : Alike t u) {position : Nat} (h1 : 1 ≤ position)
    (h2 : position ≤ t.length + 1) (v : Value) (k : Key) :
    (u.insertItem position v).get k = (t.insertItem position v).get k := by
  have hlength := h.length_eq
  have ht := h.left.inserted h1 h2 v
  have hu := h.right.inserted h1 (hlength ▸ h2) v
  by_cases hmoved : ∃ i, position ≤ i ∧ i ≤ t.length + 1 ∧ k = .index i
  · obtain ⟨i, hi1, hi2, rfl⟩ := hmoved
    rcases Nat.eq_or_lt_of_le hi1 with rfl | hafter
    · rw [hu.here, ht.here]
    · obtain ⟨j, rfl⟩ := Nat.exists_eq_succ_of_ne_zero (Nat.ne_zero_of_lt hafter)
      rw [hu.moved j (by omega) (by omega), ht.moved j (by omega) (by omega), h.get_eq]
  · have hothers : ∀ i, position ≤ i → i ≤ t.length + 1 → k ≠ .index i :=
      fun i hi1 hi2 heq => hmoved ⟨i, hi1, hi2, heq⟩
    rw [hu.others k (hlength ▸ hothers), ht.others k hothers, h.get_eq]

theorem get_removeItem (h : Alike t u) {position : Nat} (h1 : 1 ≤ position)
    (h2 : position ≤ t.length) (k : Key) :
    (u.removeItem position).get k = (t.removeItem position).get k := by
  have hlength := h.length_eq
  have ht := h.left.removed h1 h2
  have hu := h.right.removed h1 (hlength ▸ h2)
  by_cases hmoved : ∃ i, position ≤ i ∧ i ≤ t.length ∧ k = .index i
  · obtain ⟨i, hi1, hi2, rfl⟩ := hmoved
    rcases Nat.eq_or_lt_of_le hi2 with rfl | hbefore
    · rw [ht.last, ← hlength, hu.last]
    · rw [hu.moved i hi1 (by omega), ht.moved i hi1 hbefore, h.get_eq]
  · have hothers : ∀ i, position ≤ i → i ≤ t.length → k ≠ .index i :=
      fun i hi1 hi2 heq => hmoved ⟨i, hi1, hi2, heq⟩
    rw [hu.others k (hlength ▸ hothers), ht.others k hothers, h.get_eq]

theorem get_replaceItems (h : Alike t u) (values : List Value) (k : Key) :
    (u.replaceItems values).get k = (t.replaceItems values).get k := by
  by_cases hindex : ∃ i, k = .index i
  · obtain ⟨i, rfl⟩ := hindex
    rw [Table.get_replaceItems, Table.get_replaceItems, h.get_eq]
  · have hother : ∀ i, 1 ≤ i → i ≤ values.length → k ≠ .index i := fun i _ _ heq => hindex ⟨i, heq⟩
    rw [get_replaceItems_of_ne u values hother, get_replaceItems_of_ne t values hother, h.get_eq]

theorem get_apply (h : Alike t u) (e : Edit) (k : Key) : (e.apply u).get k = (e.apply t).get k := by
  cases e with
  | set key v =>
    rw [Edit.apply, Edit.apply, h.right.get_rawSet, h.left.get_rawSet, h.get_eq]
  | setString s v =>
    rw [Edit.apply, Edit.apply, h.right.setString_eq, h.left.setString_eq, h.right.get_rawSet,
      h.left.get_rawSet, h.get_eq]
  | toArray | items => rw [Edit.apply, Edit.apply, get_toArray, get_toArray, h.get_eq]
  | toSparse => rw [Edit.apply, Edit.apply, h.right.get_toSparse, h.left.get_toSparse, h.get_eq]
  | measure =>
    rw [Edit.apply, Edit.apply, get, get, get?_measured, get?_measured]
    exact h.get_eq k
  | insert position v =>
    have hroom : u.hasRoomAt position = t.hasRoomAt position := by
      rw [Bool.eq_iff_iff, h.right.hasRoomAt_iff, h.left.hasRoomAt_iff, h.length_eq]
    rw [Edit.apply, Edit.apply, hroom]
    split
    · next hyes =>
      obtain ⟨h1, h2⟩ := h.left.hasRoomAt_iff.mp hyes
      exact h.get_insertItem h1 h2 v k
    · rw [get_forSequence, get_forSequence, h.get_eq]
  | remove position =>
    cases position with
    | zero =>
      show u.forSequence.get k = t.forSequence.get k
      rw [get_forSequence, get_forSequence, h.get_eq]
    | succ i =>
      rw [Edit.apply, Edit.apply, h.right.item?_eq (Nat.succ_pos i),
        h.left.item?_eq (Nat.succ_pos i), h.length_eq]
      by_cases hle : i + 1 ≤ t.length
      · simp only [if_pos hle, Option.isSome_some, if_true]
        exact h.get_removeItem (Nat.succ_pos i) hle k
      · simp only [if_neg hle, Option.isSome_none, Bool.false_eq_true, if_false]
        rw [get_forSequence, get_forSequence, h.get_eq]
  | replace values => exact h.get_replaceItems values k
  | next a v =>
    rw [Edit.apply, Edit.apply, get, get, get?_next_snd, get?_next_snd]
    exact h.get_eq k

/-- Tables with the same values have the same values after an edit of both. -/
theorem apply (h : Alike t u) (e : Edit) (hr : e.InRange t) : Alike (e.apply t) (e.apply u) :=
  ⟨h.left.apply e hr, h.right.apply e (h.inRange hr), h.get_apply e⟩

end Alike

/-! ## Answers later on -/

/-- The table after some edits. -/
def Edit.applyAll : List Edit → Table → Table
  | [], t => t
  | e :: rest, t => applyAll rest (e.apply t)

/-- Whether some edits keep the indices of a table in range. -/
def Edit.AllInRange : List Edit → Table → Prop
  | [], _ => True
  | e :: rest, t => e.InRange t ∧ AllInRange rest (e.apply t)

/-- Two tables give the same answers to all reads, now and after any edits of both. -/
def AnswersAlike (t u : Table) : Prop :=
  ∀ edits, Edit.AllInRange edits t →
    (∀ key, (Edit.applyAll edits u).rawGet key = (Edit.applyAll edits t).rawGet key) ∧
      (Edit.applyAll edits u).length = (Edit.applyAll edits t).length

theorem AnswersAlike.refl (t : Table) : AnswersAlike t t := fun _ _ => ⟨fun _ => rfl, rfl⟩

theorem Alike.answersAlike {t u : Table} (h : Alike t u) : AnswersAlike t u := by
  intro edits
  induction edits generalizing t u with
  | nil => exact fun _ => ⟨h.rawGet_eq, h.length_eq⟩
  | cons e rest ih =>
    rintro ⟨hr, hrest⟩
    exact ih (h.apply e hr) hrest

theorem WellFormed.alike_toArray {t : Table} (h : t.WellFormed) : Alike t t.toArray :=
  h.alike h.toArray t.get?_toArray

theorem WellFormed.alike_measured {t : Table} (h : t.WellFormed) : Alike t t.measured :=
  h.alike h.measured t.get?_measured

end Table

/-- All tables of two states give the same answers, now and after any edits. -/
def State.AnswersAlike (s u : State) : Prop :=
  ∀ id, (s.table id).AnswersAlike (u.table id)

/-- A change of a table to one with the same values changes no answer. -/
theorem State.answersAlike_modifyTable {s : State} {id : TableId} {f : Table → Table}
    (h : (s.table id).Alike (f (s.table id))) : s.AnswersAlike (s.modifyTable id f) := by
  intro other
  by_cases hother : other = id
  · subst hother
    rcases Nat.lt_or_ge other.index s.tables.size with hlt | hge
    · rw [State.table_modifyTable hlt]
      exact h.answersAlike
    · rw [State.modifyTable_of_le hge]
      exact .refl _
  · rw [State.table_modifyTable_of_ne hother]
    exact .refl _

end LuaRuntime
