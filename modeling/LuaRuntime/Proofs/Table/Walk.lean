import LuaRuntime.Proofs.Table.FiniteMap

/-!
# Walking a table while it changes

A walk asks for the entry after nil and then, again and again, for the entry after the key that it
got last.  Between its steps the table may change, as long as no key is added (`Quiet`): entries
are cleared or overwritten, the layout changes, the length is asked for, and other walks go their
own way and leave the hint wherever they please.

The order of the keys is fixed by the first step, and no quiet change forgets it.  So a walk goes
once from left to right over one list of keys, in which none stands twice.  `Progress` is the
invariant: the walk stands at a place of the order, what it has returned lies before that place,
and whatever else lies before it has no value any more.
-/

namespace LuaRuntime

namespace Table

/-! ## One step -/

theorem place?_of_getElem? {order : Array Key} (hnd : order.toList.Nodup) (hint : Nat) {key : Key}
    {i : Nat} (h : order[i]? = some key) : place? order hint key = some i := by
  have hunique : ∀ j, order[j]? = some key → j = i := by
    intro j hj
    obtain ⟨hsize, -⟩ := Array.getElem?_eq_some_iff.mp hj
    refine (List.getElem?_inj (l := order.toList) hsize hnd).mp ?_
    rw [Array.getElem?_toList, Array.getElem?_toList, hj, h]
  rw [place?]
  split
  · next hhint => rw [hunique hint hhint]
  · obtain ⟨hsize, hkey⟩ := Array.getElem?_eq_some_iff.mp h
    rw [Array.findIdx?_eq_some_iff_getElem]
    refine ⟨hsize, decide_eq_true hkey, fun j hj hjkey => ?_⟩
    have := hunique j (Array.getElem?_eq_some_iff.mpr ⟨by omega, of_decide_eq_true hjkey⟩)
    omega

theorem seek_none {t : Table} {order : Array Key} {position : Nat}
    (h : t.seek order position = none) :
    ∀ i k, position ≤ i → order[i]? = some k → t.get? k = none := by
  fun_induction seek t order position with
  | case1 position hlt v hv => cases h
  | case2 position hlt hnone ih =>
    intro i k hi hk
    by_cases hpos : i = position
    · subst hpos
      rw [Array.getElem?_eq_getElem hlt] at hk
      cases hk
      exact hnone
    · exact ih h i k (by omega) hk
  | case3 position hge =>
    intro i k hi hk
    obtain ⟨hsize, -⟩ := Array.getElem?_eq_some_iff.mp hk
    omega

theorem seek_some {t : Table} {order : Array Key} {position place : Nat} {key : Key} {v : Value}
    (h : t.seek order position = some (place, key, v)) :
    position ≤ place ∧ order[place]? = some key ∧ t.get? key = some v ∧
      ∀ i k, position ≤ i → i < place → order[i]? = some k → t.get? k = none := by
  fun_induction seek t order position with
  | case1 position hlt v hv =>
    cases h
    refine ⟨Nat.le_refl _, Array.getElem?_eq_getElem hlt, hv, fun i k h1 h2 => ?_⟩
    omega
  | case2 position hlt hnone ih =>
    obtain ⟨hle, hkey, hv, hbetween⟩ := ih h
    refine ⟨by omega, hkey, hv, fun i k h1 h2 hk => ?_⟩
    by_cases hpos : i = position
    · subst hpos
      rw [Array.getElem?_eq_getElem hlt] at hk
      cases hk
      exact hnone
    · exact hbetween i k (by omega) h2 hk
  | case3 position hge => cases h

/-- The place at which a walk goes on in an order after a value: at the start after nil, and else
right after the key. -/
inductive Stands (order : Array Key) : Value → Nat → Prop where
  | start : Stands order .nil 0
  | after {i : Nat} {key : Key} : order[i]? = some key → Stands order key.toValue (i + 1)

theorem IsOrder.resume?_eq {t : Table} {order : Array Key} (h : t.IsOrder order)
    {control : Value} {place : Nat} (hstands : Stands order control place) :
    t.resume? order control = some place := by
  cases hstands with
  | start => rfl
  | @after i key hkey =>
    have hproper := h.proper key (Array.mem_of_getElem? hkey)
    have hvalue := Key.ofValue?_toValue hproper
    have hnil : key.toValue.isNil = false := by
      cases hk : key.toValue <;> first | rfl | (rw [hk] at hvalue; cases hvalue)
    rw [resume?, hnil, hvalue]
    simp [place?_of_getElem? h.nodup t.hint hkey]

theorem next_fst {t : Table} {a : Arrangement} {control : Value} {place : Nat}
    (h : t.resume? (t.order a) control = some place) :
    (t.next a control).1 = .ok ((t.seek (t.order a) place).map fun found => found.2) := by
  rw [next, h]
  simp only []
  cases t.seek (t.order a) place <;> rfl

/-- A step of a walk gives the first entry from its place on, or ends the walk. -/
theorem WellFormed.next_cases {t : Table} (h : t.WellFormed) {a : Arrangement} {control : Value}
    {place : Nat} (hstands : Stands (t.order a) control place) :
    ((t.next a control).1 = .ok none ∧
        ∀ i k, place ≤ i → (t.order a)[i]? = some k → t.get? k = none) ∨
      ∃ i key v, (t.next a control).1 = .ok (some (key, v)) ∧ place ≤ i ∧
        (t.order a)[i]? = some key ∧ t.get? key = some v ∧
        ∀ j k, place ≤ j → j < i → (t.order a)[j]? = some k → t.get? k = none := by
  rw [next_fst ((h.isOrder_order a).resume?_eq hstands)]
  cases hseek : t.seek (t.order a) place with
  | none => exact Or.inl ⟨rfl, seek_none hseek⟩
  | some found =>
    obtain ⟨i, key, v⟩ := found
    exact Or.inr ⟨i, key, v, rfl, seek_some hseek⟩

/-! ## Quiet changes -/

/-- Whether an edit may stand between two steps of a walk: it adds no key, and it is none of the
operations on items. -/
def Edit.AddsNoKey : Edit → Table → Prop
  | .set key v, t => v = .nil ∨ t.rawGet key ≠ .nil
  | .setString s v, t => v = .nil ∨ t.getString s ≠ .nil
  | .toArray, _ | .toSparse, _ | .measure, _ | .items, _ | .next _ _, _ => True
  | .insert _ _, _ | .remove _, _ | .replace _, _ => False

/-- What may happen to a table between two steps of a walk. -/
inductive Quiet (t : Table) : Table → Prop where
  | refl : Quiet t t
  | edit {u : Table} (e : Edit) : Quiet t u → e.AddsNoKey u → Quiet t (e.apply u)
  | hint {u : Table} (n : Nat) : Quiet t u → Quiet t { u with hint := n }

theorem traversal_rawSet {t : Table} {key v : Value} (h : v = .nil ∨ t.rawGet key ≠ .nil) :
    (t.rawSet key v).traversal = t.traversal := by
  have hadds : (!v.isNil && (t.rawGet key).isNil) = false := by
    rcases h with rfl | hne
    · rfl
    · rw [Bool.and_eq_false_iff, ← Bool.not_eq_true (t.rawGet key).isNil, isNil_eq_true_iff]
      exact Or.inr hne
  rw [rawSet, hadds]
  cases Key.ofValue? key with
  | none => rfl
  | some k => exact traversal_put _ k v

/-- A write that adds no key leaves no key that was not there. -/
theorem WellFormed.isSome_of_rawSet {t : Table} (h : t.WellFormed) {key v : Value}
    (hquiet : v = .nil ∨ t.rawGet key ≠ .nil) {k : Key}
    (hk : ((t.rawSet key v).get? k).isSome = true) : (t.get? k).isSome = true := by
  rw [Table.rawSet] at hk
  cases hkey : Key.ofValue? key with
  | none =>
    rw [hkey] at hk
    rwa [get?_forget] at hk
  | some l =>
    simp only [hkey, (h.toContents.forget _).get?_put, get?_forget] at hk
    split at hk
    · next hlk =>
      subst hlk
      rcases hquiet with rfl | hne
      · cases hk
      · rw [rawGet_of_key hkey, ne_eq, h.get_eq_nil_iff] at hne
        exact Option.isSome_iff_ne_none.mpr hne
    · exact hk

theorem Edit.AddsNoKey.inRange {e : Edit} {t : Table} (h : e.AddsNoKey t) : e.InRange t := by
  cases e with
  | insert position v => exact h.elim
  | replace values => exact h.elim
  | _ => trivial

theorem Edit.AddsNoKey.traversal_apply {e : Edit} {t : Table} (h : e.AddsNoKey t)
    (hwf : t.WellFormed) {order : Array Key} (ho : t.traversal = some order) :
    (e.apply t).traversal = some order := by
  cases e with
  | set key v => exact (traversal_rawSet h).trans ho
  | setString s v =>
    rw [Edit.apply, hwf.setString_eq]
    have hquiet : v = .nil ∨ t.rawGet (.string s) ≠ .nil := h
    exact (traversal_rawSet hquiet).trans ho
  | toArray => exact ho
  | toSparse =>
    rw [Edit.apply, Table.toSparse]
    split <;> exact ho
  | measure => exact ho
  | items => exact ho
  | next a v =>
    obtain ⟨hint, hn⟩ := next_snd t a v
    rw [Edit.apply, hn, Table.order, ho]
    rfl
  | insert position v => exact h.elim
  | remove position => exact h.elim
  | replace values => exact h.elim

theorem Edit.AddsNoKey.isSome_of_apply {e : Edit} {t : Table} (h : e.AddsNoKey t)
    (hwf : t.WellFormed) {k : Key} (hk : ((e.apply t).get? k).isSome = true) :
    (t.get? k).isSome = true := by
  cases e with
  | set key v => exact hwf.isSome_of_rawSet h hk
  | setString s v =>
    rw [Edit.apply, hwf.setString_eq] at hk
    have hquiet : v = .nil ∨ t.rawGet (.string s) ≠ .nil := h
    exact hwf.isSome_of_rawSet hquiet hk
  | toArray => rwa [Edit.apply, get?_toArray] at hk
  | toSparse => rwa [Edit.apply, hwf.get?_toSparse] at hk
  | measure => rwa [Edit.apply, get?_measured] at hk
  | items => rwa [Edit.apply, get?_toArray] at hk
  | next a v => rwa [Edit.apply, get?_next_snd] at hk
  | insert position v => exact h.elim
  | remove position => exact h.elim
  | replace values => exact h.elim

/-- The rules of a table say nothing of its metatable and its hint. -/
theorem WellFormed.withHint {t : Table} (h : t.WellFormed) (metatable : Option TableId)
    (hint : Nat) : WellFormed { t with metatable, hint } where
  toContents := { h.toContents with }
  border := h.border
  traversal order ho := (h.traversal order ho).mono fun k hk => by cases k <;> exact hk

/-- Quiet changes keep the order of a walk under way, and add no key. -/
theorem Quiet.keeps {t u : Table} (h : Quiet t u) (hwf : t.WellFormed) {order : Array Key}
    (ho : t.traversal = some order) :
    u.WellFormed ∧ u.traversal = some order ∧
      ∀ k, (u.get? k).isSome = true → (t.get? k).isSome = true := by
  induction h with
  | refl => exact ⟨hwf, ho, fun _ hk => hk⟩
  | edit e _ he ih =>
    obtain ⟨huwf, huo, hsub⟩ := ih
    exact ⟨huwf.apply e he.inRange, he.traversal_apply huwf huo,
      fun k hk => hsub k (he.isSome_of_apply huwf hk)⟩
  | hint n _ ih =>
    obtain ⟨huwf, huo, hsub⟩ := ih
    exact ⟨huwf.withHint _ n, huo, fun k hk => hsub k (by cases k <;> exact hk)⟩

/-! ## Walks -/

/-- An entry that a walk returned, and the table at that moment. -/
structure Visit where
  table : Table
  key : Key
  value : Value

/-- A walk that started on a table and has returned some entries.  The table as it is now and the
value to go on after are those of the next step.  The keys may be arranged in any way at each
step. -/
inductive Walk (start : Table) : Table → Value → List Visit → Prop where
  | begin : Walk start start .nil []
  | step {t u w : Table} {control : Value} {visits : List Visit} {key : Key} {v : Value}
      (a : Arrangement) :
      Walk start t control visits →
      t.next a control = (.ok (some (key, v)), u) →
      Quiet u w →
      Walk start w key.toValue (visits ++ [⟨t, key, v⟩])

/-- How far a walk has come, if its next step finds the keys arranged in a certain way. -/
structure Progress (start t : Table) (a : Arrangement) (control : Value) (visits : List Visit)
    (place : Nat) : Prop where
  wellFormed : t.WellFormed
  /-- No key has been added. -/
  shrinks : ∀ k, (t.get? k).isSome = true → (start.get? k).isSome = true
  stands : Stands (t.order a) control place
  /-- What was returned lies before the place. -/
  before : ∀ visit ∈ visits, ∃ i, i < place ∧ (t.order a)[i]? = some visit.key
  /-- What lies before the place was returned, or is gone. -/
  passed : ∀ i k, i < place → (t.order a)[i]? = some k → (t.get? k).isSome = true →
    ∃ visit ∈ visits, visit.key = k
  distinct : visits.Pairwise fun a b => a.key ≠ b.key
  current : ∀ visit ∈ visits, visit.key.Proper ∧ visit.value ≠ .nil ∧
    visit.table.get? visit.key = some visit.value ∧ (start.get? visit.key).isSome = true

theorem WellFormed.progress_begin {t : Table} (h : t.WellFormed) (a : Arrangement) :
    Progress t t a .nil [] 0 where
  wellFormed := h
  shrinks _ hk := hk
  stands := .start
  before := by simp
  passed i k hi := absurd hi (Nat.not_lt_zero i)
  distinct := .nil
  current := by simp

/-- A step fixes the order, so the arrangement does not matter any more. -/
theorem Progress.step {start t u w : Table} {a : Arrangement} {control : Value}
    {visits : List Visit} {place : Nat} {key : Key} {v : Value}
    (h : Progress start t a control visits place)
    (hnext : t.next a control = (.ok (some (key, v)), u)) (hquiet : Quiet u w) :
    ∃ place', ∀ b, Progress start w b key.toValue (visits ++ [⟨t, key, v⟩]) place' := by
  have hsnd : u = (t.next a control).2 := by rw [hnext]
  have huwf : u.WellFormed := hsnd ▸ h.wellFormed.next a control
  have huo : u.traversal = some (t.order a) := by
    obtain ⟨hint, hu⟩ := next_snd t a control
    rw [hsnd, hu]
  obtain ⟨hwwf, hwo, hsub⟩ := hquiet.keeps huwf huo
  have horder : ∀ b, w.order b = t.order a := fun b => by rw [order, hwo, Option.getD_some]
  have hget : ∀ k, (w.get? k).isSome = true → (t.get? k).isSome = true := by
    intro k hk
    have := hsub k hk
    rwa [hsnd, get?_next_snd] at this
  rcases h.wellFormed.next_cases h.stands with ⟨hnone, -⟩ | ⟨i, k, x, hsome, hle, hi, hx, hgap⟩
  · rw [hnext] at hnone
    cases hnone
  rw [hnext] at hsome
  cases hsome
  refine ⟨i + 1, fun b => ⟨hwwf, fun k hk => h.shrinks k (hget k hk), ?_, ?_, ?_, ?_, ?_⟩⟩
  · rw [horder]
    exact .after hi
  · intro visit hvisit
    rw [horder]
    rcases List.mem_append.mp hvisit with hold | hnew
    · obtain ⟨j, hj, hkey⟩ := h.before visit hold
      exact ⟨j, by omega, hkey⟩
    · rw [List.mem_singleton.mp hnew]
      exact ⟨i, Nat.lt_succ_self i, hi⟩
  · intro j k hj hk hpresent
    rw [horder] at hk
    rcases Nat.lt_or_ge j place with hbefore | hafter
    · obtain ⟨visit, hvisit, hkey⟩ := h.passed j k hbefore hk (hget k hpresent)
      exact ⟨visit, List.mem_append_left _ hvisit, hkey⟩
    · by_cases hji : j = i
      · subst hji
        rw [hi] at hk
        cases hk
        exact ⟨_, List.mem_append_right _ (List.mem_singleton.mpr rfl), rfl⟩
      · -- The step passed over this key, which had no value already.
        have hgone := hgap j k hafter (by omega) hk
        have := hget k hpresent
        rw [hgone] at this
        cases this
  · refine List.pairwise_append.mpr ⟨h.distinct, List.pairwise_singleton _ _, ?_⟩
    intro visit hvisit last hlast hsame
    rw [List.mem_singleton.mp hlast] at hsame
    obtain ⟨j, hj, hkey⟩ := h.before visit hvisit
    have hnodup := (h.wellFormed.isOrder_order a).nodup
    have hplace := place?_of_getElem? hnodup 0 hkey
    rw [hsame, place?_of_getElem? hnodup 0 hi] at hplace
    cases hplace
    omega
  · intro visit hvisit
    rcases List.mem_append.mp hvisit with hold | hnew
    · exact h.current visit hold
    · rw [List.mem_singleton.mp hnew]
      obtain ⟨hne, hproper⟩ := h.wellFormed.proper hx
      exact ⟨hproper, hne, hx, h.shrinks key (by rw [hx]; rfl)⟩

theorem Walk.progress {start t : Table} {control : Value} {visits : List Visit}
    (h : Walk start t control visits) (hwf : start.WellFormed) :
    ∃ place, ∀ a, Progress start t a control visits place := by
  induction h with
  | begin => exact ⟨0, hwf.progress_begin⟩
  | step a _ hnext hquiet ih =>
    obtain ⟨place, hprogress⟩ := ih
    exact (hprogress a).step hnext hquiet

/-- A table with the keys of some visits, no two of which are of one key, has no fewer keys. -/
theorem length_le_size {start : Table} (hwf : start.WellFormed) {visits : List Visit}
    (hdistinct : visits.Pairwise fun a b => a.key ≠ b.key)
    (hpresent : ∀ visit ∈ visits, (start.get? visit.key).isSome = true) :
    visits.length ≤ start.size := by
  have hnodup : (visits.map Visit.key).Nodup := List.pairwise_map.mpr hdistinct
  have hsub : visits.map Visit.key ⊆ start.keys .ascending := by
    intro k hk
    obtain ⟨visit, hvisit, rfl⟩ := List.mem_map.mp hk
    exact (hwf.mem_keys .ascending _).mpr (hpresent visit hvisit)
  have hlen := (List.subperm_of_subset hnodup hsub).length_le
  rwa [List.length_map, length_keys] at hlen

/-- A walk returns no more keys than there were at its start. -/
theorem Walk.length_le {start t : Table} {control : Value} {visits : List Visit}
    (h : Walk start t control visits) (hwf : start.WellFormed) : visits.length ≤ start.size := by
  obtain ⟨place, hprogress⟩ := h.progress hwf
  have hnow := hprogress .ascending
  exact length_le_size hwf hnow.distinct fun visit hvisit => (hnow.current visit hvisit).2.2.2

/-- A walk goes over a reachable table, whatever its metatable is and wherever its hint points, and
only quiet changes are made between its steps.  Then its next step does not fail, however the keys
are arranged.  No two keys
that it has returned are raw equal, and each came with the value that the table had for it at that
moment.  When the walk ends it has returned every key that has a value still, and so every key
that had one throughout.  It returns no more keys than had a value at its start, and ends after
that many at the latest. -/
theorem walk_survives_quiet_changes {start : Table} (h : Reachable start)
    (metatable : Option TableId) (hint : Nat) {t : Table} {control : Value} {visits : List Visit}
    (hwalk : Walk { start with metatable, hint } t control visits) (a : Arrangement) :
    (∃ found, (t.next a control).1 = .ok found) ∧
      (visits.Pairwise fun a b => a.key.toValue.rawEqual b.key.toValue = false) ∧
      (∀ visit ∈ visits, visit.value ≠ .nil ∧
        visit.table.rawGet visit.key.toValue = visit.value) ∧
      ((t.next a control).1 = .ok none →
        ∀ v, t.rawGet v ≠ .nil → ∃ visit ∈ visits, visit.key.toValue.rawEqual v = true) ∧
      visits.length ≤ start.size ∧
      (visits.length = start.size → (t.next a control).1 = .ok none) := by
  have hwf := h.wellFormed.withHint metatable hint
  obtain ⟨place, hall⟩ := hwalk.progress hwf
  have hprogress := hall a
  have hcases := hprogress.wellFormed.next_cases hprogress.stands
  have hlen : visits.length ≤ start.size := hwalk.length_le hwf
  refine ⟨?_, ?_, ?_, ?_, hlen, ?_⟩
  · rcases hcases with ⟨hnone, -⟩ | ⟨_, key, v, hsome, -⟩
    · exact ⟨_, hnone⟩
    · exact ⟨_, hsome⟩
  · refine List.Pairwise.imp_of_mem (fun {a b} ha hb hab => ?_) hprogress.distinct
    exact (Key.rawEqual_toValue_eq_false_iff (hprogress.current a ha).1
      (hprogress.current b hb).1).mpr hab
  · intro visit hvisit
    obtain ⟨hproper, hne, hget, -⟩ := hprogress.current visit hvisit
    refine ⟨hne, ?_⟩
    rw [rawGet_of_key (Key.ofValue?_toValue hproper), get, hget, Option.getD_some]
  · intro hend v hv
    obtain ⟨k, hk, hsome⟩ := hprogress.wellFormed.key_of_rawGet hv
    obtain ⟨i, hi⟩ := Array.mem_iff_getElem?.mp
      ((hprogress.wellFormed.isOrder_order a).complete k hsome)
    have hbefore : i < place := by
      rcases hcases with ⟨-, hgone⟩ | ⟨_, _, _, hnext, -⟩
      · by_contra hge
        rw [hgone i k (Nat.not_lt.mp hge) hi] at hsome
        cases hsome
      · rw [hend] at hnext
        cases hnext
    obtain ⟨visit, hvisit, rfl⟩ := hprogress.passed i k hbefore hi hsome
    refine ⟨visit, hvisit, ?_⟩
    rwa [← Key.ofValue?_eq_some_iff_rawEqual
      (Key.ofValue?_toValue (hprogress.current visit hvisit).1)]
  · intro hfull
    rcases hcases with ⟨hnone, -⟩ | ⟨_, key, v, hsome, -⟩
    · exact hnone
    · -- One more step would return one more key than there were.
      have hnext : t.next a control = (.ok (some (key, v)), (t.next a control).2) := by
        rw [← hsome]
      have hmore := (hwalk.step a hnext .refl).length_le hwf
      have hsize : Table.size { start with metatable, hint } = start.size := rfl
      rw [List.length_append, List.length_singleton, hsize] at hmore
      omega

/-- A table with a value at false and one at true. -/
def answers : Table :=
  Edit.apply (.set (.boolean true) (.string "yes")) <|
    Edit.apply (.set (.boolean false) (.string "no")) {}

/-- The same table with a metatable, and with a hint that points nowhere. -/
def answersElsewhere : Table := { answers with metatable := some ⟨3⟩, hint := 7 }

theorem answers_walk_survives_quiet_changes :
    Reachable answers ∧ ∃ t visits, Walk answersElsewhere t (.boolean false) visits ∧
      visits.length = 1 ∧ t.rawGet (.boolean false) = .nil ∧
      t.rawGet (.boolean true) = .string "si" ∧
      ∃ found, (t.next .ascending (.boolean false)).1 = .ok found := by
  have hreach : Reachable answers :=
    (Reachable.empty.edit (.set (.boolean false) (.string "no")) trivial).edit
      (.set (.boolean true) (.string "yes")) trivial
  have horder : answersElsewhere.order .ascending = #[.boolean false, .boolean true] := by
    decide +kernel
  have hfirst : (answersElsewhere.next .ascending .nil).1 =
      .ok (some (.boolean false, .string "no")) := by
    rw [next_fst (by rfl : _ = some 0), horder, seek]
    rfl
  obtain ⟨hint, hsnd⟩ := next_snd answersElsewhere .ascending .nil
  -- The current key is cleared, the other one is overwritten, and another walk starts.
  have hcleared := Quiet.refl.edit (.set (.boolean false) .nil) (u := { answersElsewhere with
    traversal := some (answersElsewhere.order .ascending), hint := hint }) (Or.inl rfl)
  have hwritten := hcleared.edit (.set (.boolean true) (.string "si")) (Or.inr nofun)
  have hwalk := Walk.begin.step .ascending (Prod.ext hfirst hsnd)
    (hwritten.edit (.next .ascending .nil) trivial)
  refine ⟨hreach, _, _, hwalk, rfl, ?_, ?_,
    (walk_survives_quiet_changes hreach _ _ hwalk .ascending).1⟩
  · exact (rawGet_congr (get?_next_snd _ _ _) _).trans rfl
  · exact (rawGet_congr (get?_next_snd _ _ _) _).trans rfl

end Table

end LuaRuntime
