import LuaRuntime.Proofs.Table.KeyOrder

/-!
# Walking a table that forgets its order

Between two steps of a walk the table may change by edits that add no key, and some of these drop
the order of the walk.  The next step then takes the order of the keys as they are.  If the entry
of the key that the walk returned last was cleared, the key stands nowhere, and the step fails.

`Changes` are such changes with a flag that tells whether the order is lost, and `Passage` is a
walk over them.  Each step of a walk finds the keys in an arrangement of its own, which may be any
of those that are allowed.  Whether a step fails depends on the flag alone (`Knows.next_cases`).

What the steps return together depends on the arrangements.  If the maps of the table may list
their keys in another order after a write, then an order that is taken anew may put a key on the
other side of the place where the walk stands, and the walk passes it over or returns it twice
(`bounds_walk_skips`).  If there is one steady arrangement, what lay before the place lies before it
still.  The invariant splits the order in what the walk has passed and what is ahead, and a change
leaves a part of each (`Passing`).
-/

namespace LuaRuntime

namespace Table

variable {a : Arrangement}

/-! ## One step -/

theorem stands_of_split {order : Array Key} {before ahead : List Key} {key : Key}
    (h : order.toList = (before ++ [key]) ++ ahead) :
    Stands order key.toValue (before ++ [key]).length := by
  have hkey : order[before.length]? = some key := by
    rw [← Array.getElem?_toList, h]
    simp
  rw [List.length_append]
  exact .after hkey

/-- A step of a walk gives the first entry of what is ahead, or ends the walk. -/
theorem WellFormed.next_of_split {t : Table} (h : t.WellFormed) {control : Value}
    {passed ahead : List Key} (hsplit : (t.order a).toList = passed ++ ahead)
    (hstands : Stands (t.order a) control passed.length) :
    ((t.next a control).1 = .ok none ∧ ∀ k ∈ ahead, t.get? k = none) ∨
      ∃ skipped key v rest, (t.next a control).1 = .ok (some (key, v)) ∧
        ahead = skipped ++ key :: rest ∧ t.get? key = some v ∧
        ∀ k ∈ skipped, t.get? k = none := by
  have hahead : ∀ j : Nat, (t.order a)[passed.length + j]? = ahead[j]? := by
    intro j
    rw [← Array.getElem?_toList, hsplit, List.getElem?_append_right (Nat.le_add_right _ _),
      Nat.add_sub_cancel_left]
  rcases h.next_cases hstands with ⟨hnext, hnone⟩ | ⟨i, key, v, hnext, hle, hi, hv, hnone⟩
  · refine Or.inl ⟨hnext, ?_⟩
    intro k hk
    obtain ⟨j, hj⟩ := List.mem_iff_getElem?.mp hk
    exact hnone _ k (Nat.le_add_right _ _) ((hahead j).trans hj)
  · obtain ⟨j, rfl⟩ := Nat.exists_eq_add_of_le hle
    rw [hahead] at hi
    obtain ⟨hj, hkey⟩ := List.getElem?_eq_some_iff.mp hi
    refine Or.inr ⟨ahead.take j, key, v, ahead.drop (j + 1), hnext, ?_, hv, ?_⟩
    · rw [← hkey, ← List.drop_eq_getElem_cons hj, List.take_append_drop]
    · intro k hk
      obtain ⟨m, hm⟩ := List.mem_iff_getElem?.mp hk
      rw [List.getElem?_take] at hm
      split at hm
      · next hmj => exact hnone _ k (Nat.le_add_right _ _) (by omega) ((hahead m).trans hm)
      · cases hm

/-- A walk does not know a key that does not stand in its order. -/
theorem next_of_not_mem {t : Table} {key : Key} (hproper : key.Proper) (h : key ∉ t.order a) :
    (t.next a key.toValue).1 = .error .unknownKey := by
  have hvalue := Key.ofValue?_toValue hproper
  have hnil : key.toValue.isNil = false := by
    cases hk : key.toValue <;> first | rfl | (rw [hk] at hvalue; cases hvalue)
  have hplace : place? (t.order a) t.hint key = none := by
    rw [place?, if_neg, Array.findIdx?_eq_none_iff]
    · intro k hk
      exact decide_eq_false fun heq => h (heq ▸ hk)
    · exact fun heq => h (Array.mem_of_getElem? heq)
  rw [next, resume?, hnil, hvalue]
  simp [hplace]

theorem WellFormed.next_of_stands {t : Table} (h : t.WellFormed) {control : Value} {place : Nat}
    (hstands : Stands (t.order a) control place) : ∃ found, (t.next a control).1 = .ok found := by
  rcases h.next_cases hstands with ⟨hnone, -⟩ | ⟨_, key, v, hsome, -⟩
  · exact ⟨_, hnone⟩
  · exact ⟨_, hsome⟩

/-- An entry that a step returns is one of the table, and its key stands in the order. -/
theorem mem_of_next {t : Table} {control : Value} {key : Key} {v : Value}
    (h : (t.next a control).1 = .ok (some (key, v))) : t.get? key = some v ∧ key ∈ t.order a := by
  cases hresume : t.resume? (t.order a) control with
  | none =>
    rw [next, hresume] at h
    cases h
  | some place =>
    rw [next_fst hresume] at h
    cases hseek : t.seek (t.order a) place with
    | none =>
      rw [hseek] at h
      cases h
    | some found =>
      obtain ⟨i, k, w⟩ := found
      rw [hseek] at h
      cases h
      obtain ⟨-, hkey, hv, -⟩ := seek_some hseek
      exact ⟨hv, Array.mem_of_getElem? hkey⟩

theorem order_next (t : Table) (a b : Arrangement) (v : Value) :
    (t.next a v).2.order b = t.order a := by
  rw [order, traversal_next, Option.getD_some]

/-! ## Changes -/

/-- What may happen to a table after a walk returned a key and before its next step.  The flag
tells whether the order in which the key stood is lost: an edit drops it, and another walk fixes
an order again, in which the key stands if it has a value then. -/
inductive Changes (allowed : Arrangement → Prop) (key : Key) (t : Table) : Bool → Table → Prop where
  | refl : Changes allowed key t false t
  | keep {u : Table} {lost : Bool} (e : Edit) :
      Changes allowed key t lost u → e.AddsNoKey u → (∀ b v, e ≠ .next b v) →
      Changes allowed key t lost (e.apply u)
  | drop {u : Table} {lost : Bool} (e : Edit) :
      Changes allowed key t lost u → e.DropsOrder u → Changes allowed key t true (e.apply u)
  | walk {u : Table} {lost : Bool} (b : Arrangement) (v : Value) :
      Changes allowed key t lost u → allowed b →
      Changes allowed key t (lost && (u.get? key).isNone) (u.next b v).2
  | dress {u : Table} {lost : Bool} (metatable : Option TableId) (hint : Nat) :
      Changes allowed key t lost u → Changes allowed key t lost { u with metatable, hint }

/-- Whether a key is in the order that a table remembers, according to the flag. -/
def KeepsPlace (key : Key) (t : Table) : Bool → Prop
  | false => ∃ order, t.traversal = some order ∧ key ∈ order
  | true => ∀ order, t.traversal = some order → key ∉ order

theorem KeepsPlace.mem_order_iff {key : Key} {t : Table} {lost : Bool}
    (h : KeepsPlace key t lost) (hwf : t.WellFormed) (a : Arrangement) :
    key ∈ t.order a ↔ ¬ (lost = true ∧ t.get? key = none) := by
  cases lost with
  | false =>
    obtain ⟨order, htraversal, hmem⟩ := h
    have horder : t.order a = order := by rw [Table.order, htraversal, Option.getD_some]
    simp [horder, hmem]
  | true =>
    rw [← Option.not_isSome_iff_eq_none, ← hwf.mem_keys a]
    cases htraversal : t.traversal with
    | none =>
      rw [← Array.mem_toList_iff, order_eq_keys htraversal]
      simp
    | some order =>
      have hnot : key ∉ t.order a := by
        rw [Table.order, htraversal]
        exact h order htraversal
      have hkeys : key ∉ t.keys a := fun hmem =>
        hnot ((hwf.isOrder_order a).complete key ((hwf.mem_keys a key).mp hmem))
      simp [hnot, hkeys]

/-- What a change leaves: a part of the keys, and the meaning of the flag. -/
structure Leaves (key : Key) (t u : Table) (lost : Bool) : Prop where
  wellFormed : u.WellFormed
  keys : ∀ k, (u.get? k).isSome = true → (t.get? k).isSome = true
  place : KeepsPlace key u lost

namespace Changes

variable {allowed : Arrangement → Prop} {key : Key} {t u : Table} {lost : Bool}

theorem leaves (h : Changes allowed key t lost u) (hwf : t.WellFormed)
    (hplace : KeepsPlace key t false) : Leaves key t u lost := by
  induction h with
  | refl => exact ⟨hwf, fun _ hk => hk, hplace⟩
  | @keep u lost e _ he hnext ih =>
    refine ⟨ih.wellFormed.apply e he.inRange,
      fun k hk => ih.keys k (he.isSome_of_apply ih.wellFormed hk), ?_⟩
    have hplace := ih.place
    cases lost <;> rwa [KeepsPlace, he.traversal_eq ih.wellFormed hnext]
  | drop e _ he ih =>
    refine ⟨he.wellFormed_apply ih.wellFormed,
      fun k hk => ih.keys k (he.isSome_of_apply ih.wellFormed hk), fun order ho => ?_⟩
    rw [he.traversal_apply] at ho
    cases ho
  | @walk u lost b v _ _ ih =>
    refine ⟨ih.wellFormed.next b v, fun k hk => ?_, ?_⟩
    · rw [get?_next_snd] at hk
      exact ih.keys k hk
    · have hmem := ih.place.mem_order_iff ih.wellFormed b
      cases hlost : lost && (u.get? key).isNone with
      | false =>
        refine ⟨u.order b, traversal_next u b v, hmem.mpr ?_⟩
        rintro ⟨rfl, hnone⟩
        rw [hnone] at hlost
        cases hlost
      | true =>
        rw [Bool.and_eq_true, Option.isNone_iff_eq_none] at hlost
        intro order ho
        rw [traversal_next, Option.some.injEq] at ho
        rw [← ho, hmem]
        exact not_not.mpr hlost
  | @dress u lost metatable hint _ ih =>
    refine ⟨ih.wellFormed.withHint metatable hint, fun k hk => ih.keys k ?_, ?_⟩
    · cases k <;> exact hk
    · have hplace := ih.place
      cases lost <;> exact hplace

/-- If the keys are always found in one steady arrangement, changes leave a part of the order. -/
theorem listed (h : Changes allowed key t lost u) (ha : a.Steady) (hone : ∀ b, allowed b → b = a)
    (hwf : t.WellFormed) (hplace : KeepsPlace key t false) (hlisted : t.Listed a) :
    u.Listed a ∧ (u.order a).toList.Sublist (t.order a).toList := by
  induction h with
  | refl => exact ⟨hlisted, .refl _⟩
  | keep e hchanges he hnext ih =>
    have hwf' := (hchanges.leaves hwf hplace).wellFormed
    have hby : e.ListsBy a := by
      cases e with
      | next b v => exact absurd rfl (hnext b v)
      | _ => trivial
    exact ⟨he.listed hwf' ha hby ih.1, (he.order_sublist hwf' ha hby).trans ih.2⟩
  | drop e hchanges he ih =>
    exact ⟨listed_of_traversal_eq_none he.traversal_apply a,
      (he.order_sublist (hchanges.leaves hwf hplace).wellFormed ha ih.1).trans ih.2⟩
  | @walk u lost b v hchanges hb ih =>
    have hwf' := (hchanges.leaves hwf hplace).wellFormed
    have hquiet : Edit.AddsNoKey (.next b v) u := trivial
    exact ⟨hquiet.listed hwf' ha (hone b hb) ih.1,
      (hquiet.order_sublist hwf' ha (hone b hb)).trans ih.2⟩
  | dress metatable hint _ ih => exact ih

end Changes

/-! ## Passages -/

/-- A walk that has returned some entries, with changes between its steps.  The flag is that of the
changes since the last step. -/
inductive Passage (allowed : Arrangement → Prop) (start : Table) :
    Table → Value → Bool → List Visit → Prop where
  | begin : Passage allowed start start .nil false []
  | step {t u w : Table} {control : Value} {lost lost' : Bool} {visits : List Visit} {key : Key}
      {v : Value} (b : Arrangement) :
      Passage allowed start t control lost visits → allowed b →
      t.next b control = (.ok (some (key, v)), u) →
      Changes allowed key u lost' w →
      Passage allowed start w key.toValue lost' (visits ++ [⟨t, key, v⟩])

/-- A walk goes on after nil, or after a key that is in the order according to the flag. -/
inductive Knows (t : Table) : Value → Bool → Prop where
  | start : Knows t .nil false
  | after {key : Key} {lost : Bool} : key.Proper → KeepsPlace key t lost → Knows t key.toValue lost

/-- A step of a walk fails if the order is lost and the key that was returned last has no value any
more, and else it gives a result. -/
theorem Knows.next_cases {t : Table} {control : Value} {lost : Bool} (h : Knows t control lost)
    (hwf : t.WellFormed) (a : Arrangement) :
    ((lost = true ∧ t.rawGet control = .nil) ∧ (t.next a control).1 = .error .unknownKey) ∨
      (¬ (lost = true ∧ t.rawGet control = .nil) ∧ ∃ found, (t.next a control).1 = .ok found) := by
  cases h with
  | start => exact Or.inr ⟨fun hlost => Bool.noConfusion hlost.1, hwf.next_of_stands .start⟩
  | @after key _ hproper hplace =>
    rw [rawGet_of_key (Key.ofValue?_toValue hproper), hwf.get_eq_nil_iff]
    have hmem := hplace.mem_order_iff hwf a
    by_cases hin : key ∈ t.order a
    · obtain ⟨i, hi⟩ := Array.mem_iff_getElem?.mp hin
      exact Or.inr ⟨hmem.mp hin, hwf.next_of_stands (.after hi)⟩
    · exact Or.inl ⟨not_not.mp fun hlost => hin (hmem.mpr hlost), next_of_not_mem hproper hin⟩

/-- What holds of a walk, however the keys are arranged at its steps. -/
structure Roaming (start t : Table) (control : Value) (lost : Bool) (visits : List Visit) :
    Prop where
  wellFormed : t.WellFormed
  /-- No key has been added. -/
  shrinks : ∀ k, (t.get? k).isSome = true → (start.get? k).isSome = true
  knows : Knows t control lost
  current : ∀ visit ∈ visits, visit.key.Proper ∧ visit.value ≠ .nil ∧
    visit.table.get? visit.key = some visit.value ∧ (start.get? visit.key).isSome = true

namespace Roaming

variable {start t u : Table} {control : Value} {lost : Bool} {visits : List Visit} {key : Key}
  {v : Value}

/-- A step returns an entry of the table, and remembers an order in which its key stands. -/
theorem advance (h : Roaming start t control lost visits)
    (hnext : (t.next a control).1 = .ok (some (key, v))) :
    Roaming start (t.next a control).2 key.toValue false (visits ++ [⟨t, key, v⟩]) where
  wellFormed := h.wellFormed.next a control
  shrinks k hk := by
    rw [get?_next_snd] at hk
    exact h.shrinks k hk
  knows := by
    obtain ⟨hv, hmem⟩ := mem_of_next hnext
    exact .after (h.wellFormed.proper hv).2 ⟨t.order a, traversal_next t a control, hmem⟩
  current visit hvisit := by
    obtain ⟨hv, -⟩ := mem_of_next hnext
    obtain ⟨hne, hproper⟩ := h.wellFormed.proper hv
    rcases List.mem_append.mp hvisit with hold | hnew
    · exact h.current visit hold
    · rw [List.mem_singleton.mp hnew]
      exact ⟨hproper, hne, hv, h.shrinks key (by rw [hv]; rfl)⟩

/-- Changes take keys away. -/
theorem shrink (h : Roaming start t key.toValue false visits) (hproper : key.Proper)
    (hleaves : Leaves key t u lost) : Roaming start u key.toValue lost visits where
  wellFormed := hleaves.wellFormed
  shrinks k hk := h.shrinks k (hleaves.keys k hk)
  knows := .after hproper hleaves.place
  current := h.current

end Roaming

section

variable {allowed : Arrangement → Prop} {start t u w : Table} {control : Value}
  {lost lost' : Bool} {visits : List Visit} {key : Key} {v : Value}

/-- What the changes after a step leave of the table. -/
theorem Roaming.leaves (h : Roaming start t control lost visits)
    (hnext : t.next a control = (.ok (some (key, v)), u))
    (hchanges : Changes allowed key u lost' w) :
    key.Proper ∧ KeepsPlace key u false ∧ Leaves key u w lost' := by
  obtain rfl : (t.next a control).2 = u := by rw [hnext]
  obtain ⟨hv, hmem⟩ := mem_of_next (a := a) (by rw [hnext] : (t.next a control).1 = _)
  have hplace : KeepsPlace key (t.next a control).2 false :=
    ⟨t.order a, traversal_next t a control, hmem⟩
  exact ⟨(h.wellFormed.proper hv).2, hplace,
    hchanges.leaves (h.wellFormed.next a control) hplace⟩

theorem Roaming.step (h : Roaming start t control lost visits)
    (hnext : t.next a control = (.ok (some (key, v)), u))
    (hchanges : Changes allowed key u lost' w) :
    Roaming start w key.toValue lost' (visits ++ [⟨t, key, v⟩]) := by
  obtain ⟨hproper, -, hleaves⟩ := h.leaves hnext hchanges
  obtain rfl : (t.next a control).2 = u := by rw [hnext]
  exact (h.advance (by rw [hnext])).shrink hproper hleaves

theorem Passage.roaming (h : Passage allowed start t control lost visits)
    (hwf : start.WellFormed) : Roaming start t control lost visits := by
  induction h with
  | begin => exact ⟨hwf, fun _ hk => hk, .start, by simp⟩
  | step b _ _ hnext hchanges ih => exact ih.step hnext hchanges

end

/-! ## One steady arrangement -/

/-- The place at which a walk stands in an order, if it stands there: at the start, or after the
last key that it has passed. -/
inductive AtPlace (order : Array Key) : Value → List Key → Prop where
  | start : AtPlace order .nil []
  | after {key : Key} {passed : List Key} : key.Proper →
      (key ∈ order → ∃ before, passed = before ++ [key]) → AtPlace order key.toValue passed

/-- How far a walk has come in an order that consists of what it has passed and what is ahead. -/
structure Passing (a : Arrangement) (start t : Table) (control : Value) (lost : Bool)
    (visits : List Visit) (passed ahead : List Key) : Prop
    extends Roaming start t control lost visits where
  listed : t.Listed a
  split : (t.order a).toList = passed ++ ahead
  place : AtPlace (t.order a) control passed
  /-- What was returned is not ahead. -/
  fresh : ∀ visit ∈ visits, visit.key ∉ ahead
  /-- What was passed was returned, or is gone. -/
  returned : ∀ k ∈ passed, (t.get? k).isSome = true → ∃ visit ∈ visits, visit.key = k
  distinct : visits.Pairwise fun a b => a.key ≠ b.key

theorem AtPlace.stands {t : Table} {control : Value} {passed ahead : List Key}
    (h : AtPlace (t.order a) control passed) (hsplit : (t.order a).toList = passed ++ ahead)
    {found : Option (Key × Value)} (hnext : (t.next a control).1 = .ok found) :
    Stands (t.order a) control passed.length := by
  cases h with
  | start => exact .start
  | @after key _ hproper hlast =>
    have hmem : key ∈ t.order a := by
      by_contra hnot
      rw [next_of_not_mem hproper hnot] at hnext
      cases hnext
    obtain ⟨before, rfl⟩ := hlast hmem
    exact stands_of_split hsplit

namespace Passing

variable {start t u w : Table} {control : Value} {lost lost' : Bool} {visits : List Visit}
  {passed ahead skipped rest before : List Key} {key : Key} {v : Value}

/-- A step that gives a result returns the first entry of what is ahead, or ends the walk. -/
theorem next_cases (h : Passing a start t control lost visits passed ahead)
    {found : Option (Key × Value)} (hnext : (t.next a control).1 = .ok found) :
    (found = none ∧ ∀ k ∈ ahead, t.get? k = none) ∨
      ∃ skipped key v rest, found = some (key, v) ∧ ahead = skipped ++ key :: rest ∧
        t.get? key = some v ∧ ∀ k ∈ skipped, t.get? k = none := by
  have hcases := h.wellFormed.next_of_split h.split (h.place.stands h.split hnext)
  simpa only [hnext, Except.ok.injEq] using hcases

/-- A step passes the keys without a value, and the one that it returns. -/
theorem advance (h : Passing a start t control lost visits passed (skipped ++ key :: rest))
    (ha : a.Steady) (hnext : (t.next a control).1 = .ok (some (key, v)))
    (hskipped : ∀ k ∈ skipped, t.get? k = none) :
    Passing a start (t.next a control).2 key.toValue false (visits ++ [⟨t, key, v⟩])
      (passed ++ skipped ++ [key]) rest := by
  have hproper := (h.wellFormed.proper (mem_of_next hnext).1).2
  have hsplit : (t.order a).toList = (passed ++ skipped ++ [key]) ++ rest := by
    rw [h.split]
    simp
  have hnodup := (h.wellFormed.isOrder_order a).nodup
  rw [hsplit, List.nodup_append'] at hnodup
  have hrest : key ∉ rest := hnodup.2.2 (List.mem_append_right _ List.mem_cons_self)
  refine ⟨h.toRoaming.advance hnext, ?_, ?_, .after hproper fun _ => ⟨passed ++ skipped, rfl⟩,
    ?_, ?_, ?_⟩
  · exact Edit.AddsNoKey.listed (e := .next a control) trivial h.wellFormed ha rfl h.listed
  · rw [order_next, hsplit]
  · intro visit hvisit hahead
    rcases List.mem_append.mp hvisit with hold | hnew
    · exact h.fresh visit hold (List.mem_append_right _ (List.mem_cons_of_mem _ hahead))
    · rw [List.mem_singleton.mp hnew] at hahead
      exact hrest hahead
  · intro k hk hpresent
    rw [get?_next_snd] at hpresent
    simp only [List.mem_append, List.mem_singleton] at hk
    rcases hk with (hk | hk) | rfl
    · obtain ⟨visit, hvisit, hkey⟩ := h.returned k hk hpresent
      exact ⟨visit, List.mem_append_left _ hvisit, hkey⟩
    · rw [hskipped k hk] at hpresent
      cases hpresent
    · exact ⟨_, List.mem_append_right _ (List.mem_singleton.mpr rfl), rfl⟩
  · refine List.pairwise_append.mpr ⟨h.distinct, List.pairwise_singleton _ _, ?_⟩
    intro visit hvisit last hlast hsame
    rw [List.mem_singleton.mp hlast] at hsame
    exact h.fresh visit hvisit (hsame ▸ List.mem_append_right _ List.mem_cons_self)

/-- Changes take keys out of what was passed and out of what is ahead. -/
theorem shrink (h : Passing a start t key.toValue false visits (before ++ [key]) ahead)
    (hproper : key.Proper) (hleaves : Leaves key t u lost) (hlisted : u.Listed a)
    (horder : (u.order a).toList.Sublist (t.order a).toList) :
    ∃ passed ahead', Passing a start u key.toValue lost visits passed ahead' := by
  have hnodup := (h.wellFormed.isOrder_order a).nodup
  rw [h.split, List.nodup_append', List.nodup_append'] at hnodup
  obtain ⟨⟨-, -, hbefore⟩, -, hapart⟩ := hnodup
  rw [h.split, List.append_assoc, List.sublist_append_iff] at horder
  obtain ⟨first, others, hsplit, hfirst, hothers⟩ := horder
  obtain ⟨last, ahead', rfl, hlast, hahead⟩ := List.sublist_append_iff.mp hothers
  refine ⟨first ++ last, ahead', h.toRoaming.shrink hproper hleaves, hlisted,
    by rw [hsplit, List.append_assoc], .after hproper ?_,
    fun visit hvisit hmem => h.fresh visit hvisit (hahead.subset hmem), ?_, h.distinct⟩
  · -- The key is in the order, but neither before its place nor after it.
    intro hmem
    rw [← Array.mem_toList_iff, hsplit, List.mem_append, List.mem_append] at hmem
    rcases List.sublist_singleton.mp hlast with rfl | rfl
    · rcases hmem with hmem | hmem | hmem
      · exact absurd List.mem_cons_self (hbefore (hfirst.subset hmem))
      · cases hmem
      · exact absurd (hahead.subset hmem) (hapart (List.mem_append_right _ List.mem_cons_self))
    · exact ⟨first, rfl⟩
  · intro k hk hpresent
    exact h.returned k ((hfirst.append hlast).subset hk) (hleaves.keys k hpresent)

theorem step {allowed : Arrangement → Prop}
    (h : Passing a start t control lost visits passed ahead) (ha : a.Steady)
    (hone : ∀ b, allowed b → b = a) (hnext : t.next a control = (.ok (some (key, v)), u))
    (hchanges : Changes allowed key u lost' w) :
    ∃ passed' ahead',
      Passing a start w key.toValue lost' (visits ++ [⟨t, key, v⟩]) passed' ahead' := by
  obtain ⟨hproper, hplace, hleaves⟩ := h.toRoaming.leaves hnext hchanges
  obtain rfl : (t.next a control).2 = u := by rw [hnext]
  have hfst : (t.next a control).1 = .ok (some (key, v)) := by rw [hnext]
  rcases h.next_cases hfst with ⟨hnone, -⟩ | ⟨skipped, k, x, rest, hsome, rfl, -, hskipped⟩
  · cases hnone
  · cases hsome
    have hadvanced := h.advance ha hfst hskipped
    obtain ⟨hlisted, horder⟩ :=
      hchanges.listed ha hone hadvanced.wellFormed hplace hadvanced.listed
    exact hadvanced.shrink hproper hleaves hlisted horder

/-- At the end of a walk every key that has a value was returned. -/
theorem returned_of_end (h : Passing a start t control lost visits passed ahead)
    (hend : (t.next a control).1 = .ok none) {k : Key} (hk : (t.get? k).isSome = true) :
    ∃ visit ∈ visits, visit.key = k := by
  have hahead : ∀ k ∈ ahead, t.get? k = none := by
    rcases h.next_cases hend with ⟨-, hnone⟩ | ⟨_, _, _, _, hsome, -⟩
    · exact hnone
    · cases hsome
  have hmem := (h.wellFormed.isOrder_order a).complete k hk
  rw [← Array.mem_toList_iff, h.split, List.mem_append] at hmem
  rcases hmem with hmem | hmem
  · exact h.returned k hmem hk
  · rw [hahead k hmem] at hk
    cases hk

end Passing

theorem Passage.passing {allowed : Arrangement → Prop} {start t : Table} {control : Value}
    {lost : Bool} {visits : List Visit} (h : Passage allowed start t control lost visits)
    (ha : a.Steady) (hone : ∀ b, allowed b → b = a) (hwf : start.WellFormed)
    (hlisted : start.Listed a) :
    ∃ passed ahead, Passing a start t control lost visits passed ahead := by
  induction h with
  | begin =>
    have hbegin : Passage allowed start start .nil false [] := .begin
    exact ⟨[], (start.order a).toList, hbegin.roaming hwf, hlisted, rfl, .start, by simp, by simp,
      .nil⟩
  | step b _ hb hnext hchanges ih =>
    obtain ⟨passed, ahead, hpassing⟩ := ih
    obtain rfl := hone b hb
    exact hpassing.step ha hone hnext hchanges

/-! ## When a walk fails -/

/-- A walk goes over a reachable table, and between its steps the table changes by edits that add
no key, some of which drop the order of the walk.

* However the keys are arranged, the next step fails if and only if the order is lost and the key
  that the walk returned last has no value any more, and it gives a result otherwise.  Each key was
  returned with the value that the table had for it at that moment.
* Suppose that all steps find the keys in one steady arrangement, by which the table lists the keys
  at the start.  Then no two keys that the walk has returned are raw equal, a walk that comes to its
  end has returned every key that has a value still, and so every key that had one throughout, and
  it returns no more keys than had a value at its start. -/
theorem walk_fails_iff_lost {allowed : Arrangement → Prop} {start : Table} (h : Reachable start)
    (metatable : Option TableId) (hint : Nat) {t : Table} {control : Value} {lost : Bool}
    {visits : List Visit}
    (hpassage : Passage allowed { start with metatable, hint } t control lost visits) :
    (∀ a, ((t.next a control).1 = .error .unknownKey ↔ lost = true ∧ t.rawGet control = .nil) ∧
        (¬ (lost = true ∧ t.rawGet control = .nil) → ∃ found, (t.next a control).1 = .ok found)) ∧
      (∀ visit ∈ visits, visit.value ≠ .nil ∧
        visit.table.rawGet visit.key.toValue = visit.value) ∧
      ∀ a, a.Steady → (∀ b, allowed b → b = a) → start.Listed a →
        (visits.Pairwise fun a b => a.key.toValue.rawEqual b.key.toValue = false) ∧
          ((t.next a control).1 = .ok none →
            ∀ v, t.rawGet v ≠ .nil → ∃ visit ∈ visits, visit.key.toValue.rawEqual v = true) ∧
          visits.length ≤ start.size := by
  have hwf := h.wellFormed.withHint metatable hint
  have hroaming := hpassage.roaming hwf
  refine ⟨fun a => ?_, ?_, fun a ha hone hlisted => ?_⟩
  · rcases hroaming.knows.next_cases hroaming.wellFormed a with ⟨hlost, herror⟩ | ⟨hknown, hok⟩
    · exact ⟨⟨fun _ => hlost, fun _ => herror⟩, fun hknown => absurd hlost hknown⟩
    · obtain ⟨found, hfound⟩ := hok
      refine ⟨⟨fun herror => ?_, fun hlost => absurd hlost hknown⟩, fun _ => ⟨found, hfound⟩⟩
      rw [hfound] at herror
      cases herror
  · intro visit hvisit
    obtain ⟨hproper, hne, hget, -⟩ := hroaming.current visit hvisit
    refine ⟨hne, ?_⟩
    rw [rawGet_of_key (Key.ofValue?_toValue hproper), get, hget, Option.getD_some]
  · obtain ⟨passed, ahead, hpassing⟩ := hpassage.passing ha hone hwf hlisted
    refine ⟨?_, ?_, ?_⟩
    · refine hpassing.distinct.imp_of_mem fun {x y} hx hy hxy => ?_
      exact (Key.rawEqual_toValue_eq_false_iff (hroaming.current x hx).1
        (hroaming.current y hy).1).mpr hxy
    · intro hend v hv
      obtain ⟨k, hk, hsome⟩ := hroaming.wellFormed.key_of_rawGet hv
      obtain ⟨visit, hvisit, rfl⟩ := hpassing.returned_of_end hend hsome
      refine ⟨visit, hvisit, ?_⟩
      rwa [← Key.ofValue?_eq_some_iff_rawEqual
        (Key.ofValue?_toValue (hroaming.current visit hvisit).1)]
    · exact length_le_size hwf hpassing.distinct fun visit hvisit =>
        (hroaming.current visit hvisit).2.2.2

theorem reachable_answers : Reachable answers :=
  (Reachable.empty.edit (.set (.boolean false) (.string "no")) trivial).edit
    (.set (.boolean true) (.string "yes")) trivial

/-- The first step of a walk over the two answers returns the one at false. -/
theorem next_answers :
    ∃ u, answers.next .ascending .nil = (.ok (some (.boolean false, .string "no")), u) ∧
      ∀ k, u.get? k = answers.get? k := by
  have horder : answers.order .ascending = #[.boolean false, .boolean true] := by decide +kernel
  have hfirst : (answers.next .ascending .nil).1 = .ok (some (.boolean false, .string "no")) := by
    rw [next_fst (by rfl : _ = some 0), horder, seek]
    rfl
  exact ⟨_, Prod.ext hfirst rfl, get?_next_snd _ _ _⟩

theorem get?_boolean_remove (t : Table) (position : Nat) (b : Bool) :
    ((Edit.remove position).apply t).get? (.boolean b) = t.get? (.boolean b) := by
  rw [Edit.apply]
  split <;> rfl

/-- A removal drops the order, but the walk goes on, because the key that it returned last has its
value still. -/
theorem answers_walk_goes_on :
    Reachable answers ∧ ∃ t visits,
      Passage (· = .ascending) answers t (.boolean false) true visits ∧ visits.length = 1 ∧
        visits.length ≤ answers.size ∧
        ∃ found, (t.next .ascending (.boolean false)).1 = .ok found := by
  obtain ⟨u, hnext, hget⟩ := next_answers
  have hstart : Changes (· = .ascending) (.boolean false) u false u := .refl
  have hbegin : Passage (· = .ascending) answers answers .nil false [] := .begin
  have hpassage := hbegin.step .ascending rfl hnext (hstart.drop (.remove 1) trivial)
  have hthere : ((Edit.remove 1).apply u).rawGet (Key.boolean false).toValue = .string "no" := by
    show (((Edit.remove 1).apply u).get? (.boolean false)).getD .nil = _
    rw [get?_boolean_remove, hget]
    rfl
  obtain ⟨hsteps, -, hsteady⟩ := walk_fails_iff_lost reachable_answers none 0 hpassage
  have hlisted := listed_of_traversal_eq_none (t := answers) rfl .ascending
  obtain ⟨-, -, hlength⟩ := hsteady .ascending Arrangement.steady_ascending (fun _ hb => hb) hlisted
  refine ⟨reachable_answers, _, _, hpassage, rfl, hlength, (hsteps .ascending).2 ?_⟩
  rintro ⟨-, hgone⟩
  rw [hthere] at hgone
  cases hgone

/-- The entry at false is returned and cleared, and a removal finds nothing to remove.  No key was
added, but the walk fails before it comes to the entry at true, however the keys are arranged. -/
theorem answers_walk_is_lost :
    ∃ t visits, Passage (· = .ascending) answers t (.boolean false) true visits ∧
      visits.map Visit.key = [.boolean false] ∧ t.rawGet (.boolean true) = .string "yes" ∧
      ∀ a, (t.next a (.boolean false)).1 = .error .unknownKey := by
  obtain ⟨u, hnext, hget⟩ := next_answers
  have hstart : Changes (· = .ascending) (.boolean false) u false u := .refl
  have hcleared := hstart.keep (.set (.boolean false) .nil) (Or.inl rfl) fun _ _ heq => by cases heq
  have hbegin : Passage (· = .ascending) answers answers .nil false [] := .begin
  have hpassage := hbegin.step .ascending rfl hnext (hcleared.drop (.remove 1) trivial)
  have hroaming := hpassage.roaming reachable_answers.wellFormed
  refine ⟨_, _, hpassage, rfl, ?_, fun a => ?_⟩
  · show (Table.get? _ (.boolean true)).getD .nil = _
    rw [get?_boolean_remove]
    show (u.get? (.boolean true)).getD .nil = _
    rw [hget]
    rfl
  · rcases hroaming.knows.next_cases hroaming.wellFormed a with ⟨-, herror⟩ | ⟨hknown, -⟩
    · exact herror
    · refine absurd ⟨rfl, ?_⟩ hknown
      show (Table.get? _ (.boolean false)).getD .nil = _
      rw [get?_boolean_remove]
      rfl

/-- Both maps list their keys in descending order. -/
def descending : Arrangement :=
  ⟨List.reverse, List.reverse, List.reverse_perm, List.reverse_perm⟩

/-- The key of the least number. -/
def leastKey : Key := .number (Double.infinity true).rank

/-- The key of the greatest number. -/
def lastKey : Key := .number (Double.infinity false).rank

/-- A table with a value at the least number and one at the greatest. -/
def bounds : Table :=
  Edit.apply (.set (.number (.infinity false)) (.string "greatest")) <|
    Edit.apply (.set (.number (.infinity true)) (.string "least")) {}

/-- A write at no number. -/
def refused : Edit := .set (.number (.nan false)) (.boolean true)

theorem dropsOrder_refused (t : Table) : refused.DropsOrder t := ⟨nofun, by decide⟩

theorem apply_refused (t : Table) :
    refused.apply t = { t with border := none, traversal := none } := by
  have hkey : Key.ofValue? (.number (.nan false)) = none := by decide
  rw [refused, Edit.apply, rawSet, rawGet, hkey]
  rfl

/-- The least number is returned, and a write is refused.  The next step finds the numbers in
descending order, and ends the walk before it comes to the greatest one. -/
theorem bounds_walk_skips :
    ∃ t visits, Passage (fun _ => True) bounds t (.number (.infinity true)) true visits ∧
      visits.map Visit.key = [leastKey] ∧
      t.rawGet (.number (.infinity false)) = .string "greatest" ∧
      (t.next descending (.number (.infinity true))).1 = .ok none := by
  have hreach : Reachable bounds :=
    (Reachable.empty.edit (.set (.number (.infinity true)) (.string "least")) trivial).edit
      (.set (.number (.infinity false)) (.string "greatest")) trivial
  have horder : bounds.order .ascending = #[leastKey, lastKey] := by decide +kernel
  have hfirst : (bounds.next .ascending .nil).1 = .ok (some (leastKey, .string "least")) := by
    rw [next_fst (by rfl : _ = some 0), horder, seek]
    rfl
  have hbegin : Passage (fun _ => True) bounds bounds .nil false [] := .begin
  have hstart : ∀ u, Changes (fun _ => True) leastKey u false u := fun _ => .refl
  obtain ⟨hint, hsnd⟩ := next_snd bounds .ascending .nil
  have hpassage := hbegin.step .ascending trivial (Prod.ext hfirst hsnd)
    ((hstart _).drop refused (dropsOrder_refused _))
  have hwf := (hpassage.roaming hreach.wellFormed).wellFormed
  have hleast : leastKey.toValue = .number (.infinity true) := by decide
  rw [hleast] at hpassage
  refine ⟨_, _, hpassage, rfl, ?_, ?_⟩
  · rw [apply_refused]
    rfl
  · have hsplit : ((refused.apply { bounds with
        traversal := some (bounds.order .ascending), hint := hint }).order descending).toList =
        ([lastKey] ++ [leastKey]) ++ [] := by
      rw [order_eq_keys (dropsOrder_refused _).traversal_apply, apply_refused]
      show bounds.keys descending = _
      decide +kernel
    have hstands := stands_of_split hsplit
    rw [hleast] at hstands
    rcases hwf.next_of_split hsplit hstands with ⟨hnone, -⟩ | ⟨_, _, _, _, -, hahead, -⟩
    · exact hnone
    · simp at hahead

end Table

end LuaRuntime
