import LuaRuntime.Library.Module
import LuaRuntime.Proofs.State.Fields
import LuaRuntime.Proofs.Text.Split

/-!
# Paths of modules

The name of a module writes a path through the fields of tables, from the globals on.  `PathTo` says
that a path leads to a table, and `Blocked` that it meets something other than a table before its
last part.

Linking a module fails exactly on a blocked path, and then it has changed nothing: below a table
that it made itself there is nothing in the way (`linkBelow_cases`).  It writes only fields that are
parts of the path, and linking a module again where the path already leads to it changes no field.
-/

namespace LuaRuntime

/-! ## Parts of a path -/

theorem Path.parts_ne_nil (path : String) : Path.parts path ≠ [] := by
  rw [Path.parts, ne_eq, List.map_eq_nil_iff]
  exact splitAtChar_ne_nil '.' path.toList

/-- A path that is one of its own parts has no dot. -/
theorem Path.parts_eq_singleton {path : String} (h : path ∈ Path.parts path) :
    Path.parts path = [path] := by
  obtain ⟨part, hpart, rfl⟩ := List.mem_map.mp h
  have hdot : '.' ∉ (String.ofList part).toList := by
    rw [String.toList_ofList]
    exact not_mem_of_mem_splitAtChar hpart
  rw [Path.parts, splitAtChar_of_not_mem hdot, List.map_singleton, String.ofList_toList]

/-! ## Paths through a state -/

/-- Parts lead from a table to a table, each through the field of its name. -/
inductive PathTo (s : State) : TableId → List String → TableId → Prop where
  | here {id : TableId} : PathTo s id [] id
  | step {parent next id : TableId} {part : String} {rest : List String} :
      s.field parent part = .table next →
      PathTo s next rest id →
      PathTo s parent (part :: rest) id

/-- Parts lead from a table to a field that is neither nil nor a table, and go on. -/
inductive Blocked (s : State) : TableId → List String → Prop where
  | here {parent : TableId} {part : String} {rest : List String} :
      rest ≠ [] →
      s.field parent part ≠ .nil →
      (∀ id, s.field parent part ≠ .table id) →
      Blocked s parent (part :: rest)
  | deeper {parent next : TableId} {part : String} {rest : List String} :
      s.field parent part = .table next →
      Blocked s next rest →
      Blocked s parent (part :: rest)

theorem PathTo.congr {s t : State} {parent id : TableId} {parts : List String}
    (h : PathTo s parent parts id) (hfields : ∀ id n, t.field id n = s.field id n) :
    PathTo t parent parts id := by
  induction h with
  | here => exact .here
  | step hfield _ ih => exact .step (by rw [hfields, hfield]) ih

/-- A path through a table with no fields but those that lead back to it is not blocked. -/
theorem not_blocked_of_self {s : State} {id : TableId}
    (h : ∀ n, s.field id n = .nil ∨ s.field id n = .table id) (parts : List String) :
    ¬ Blocked s id parts := by
  intro hblocked
  induction parts with
  | nil => cases hblocked
  | cons part rest ih =>
    cases hblocked with
    | here _ hnil htable =>
      rcases h part with hfield | hfield
      · exact hnil hfield
      · exact htable id hfield
    | deeper hfield hbelow =>
      rcases h part with hpart | hpart <;> rw [hpart] at hfield <;> cases hfield
      exact ih hbelow

/-! ## Linking -/

section

variable (module : TableId) (name : String)

/-- The state with a new table in a field. -/
def State.withFieldTable (s : State) (parent : TableId) (part : String) : State :=
  (s.withTable {}).withField parent part (.table ⟨s.tables.size⟩)

theorem linkBelow_cons {rest : List String} (hrest : rest ≠ []) (part : String)
    (parent : TableId) (s : State) :
    linkBelow module name (part :: rest) parent s =
      match s.field parent part with
      | .table next => linkBelow module name rest next s
      | .nil => linkBelow module name rest ⟨s.tables.size⟩ (s.withFieldTable parent part)
      | _ => (.error (.moduleConflict name), s) := by
  obtain ⟨next, more, rfl⟩ := List.exists_cons_of_ne_nil hrest
  have hstart : linkBelow module name (part :: next :: more) parent s =
    (getField parent part >>= fun found => match found with
      | .table next' => linkBelow module name (next :: more) next'
      | .nil => do
          let next' ← newTable {}
          setField parent part (.table next')
          linkBelow module name (next :: more) next'
      | _ => throw (.moduleConflict name) : Action Unit) s := rfl
  rw [hstart, bind_run, gives_getField]
  dsimp only
  cases s.field parent part <;> rfl

/-- Linking along a blocked path fails, and changes nothing. -/
theorem Blocked.linkBelow_eq {s : State} {parent : TableId} {parts : List String}
    (h : Blocked s parent parts) :
    linkBelow module name parts parent s = (.error (.moduleConflict name), s) := by
  induction h with
  | @here parent part rest hrest hnil htable =>
    rw [linkBelow_cons module name hrest]
    generalize s.field parent part = v at hnil htable
    cases v with
    | nil => exact absurd rfl hnil
    | table id => exact absurd rfl (htable id)
    | _ => rfl
  | @deeper parent next part rest hfield hdeeper ih =>
    have hrest : rest ≠ [] := by
      rintro rfl
      cases hdeeper
    rw [linkBelow_cons module name hrest, hfield]
    exact ih

/-- The new table in a field has no fields but one that leads back to it. -/
theorem State.field_withFieldTable_self (s : State) (parent : TableId) (part n : String) :
    (s.withFieldTable parent part).field ⟨s.tables.size⟩ n = .nil ∨
      (s.withFieldTable parent part).field ⟨s.tables.size⟩ n = .table ⟨s.tables.size⟩ := by
  rcases field_withField_cases (s.withTable {}) parent part (.table ⟨s.tables.size⟩)
    ⟨s.tables.size⟩ n with h | h
  · exact Or.inr h
  · refine Or.inl (h.trans ?_)
    rw [field_withTable]
    exact field_of_le (Nat.le_refl _)

theorem exists_linkBelow_of_not_blocked (parts : List String) {s : State} {parent : TableId}
    (h : ¬ Blocked s parent parts) : ∃ t, linkBelow module name parts parent s = (.ok (), t) := by
  induction parts generalizing s parent with
  | nil => exact ⟨s, rfl⟩
  | cons part rest ih =>
    by_cases hrest : rest = []
    · subst hrest
      exact ⟨_, rfl⟩
    · rw [linkBelow_cons module name hrest]
      cases hfield : s.field parent part with
      | table next => exact ih fun hdeeper => h (.deeper hfield hdeeper)
      | nil => exact ih (not_blocked_of_self (s.field_withFieldTable_self parent part) rest)
      | _ => exact absurd (.here hrest (by rw [hfield]; nofun) (by rw [hfield]; nofun)) h

/-- Linking fails on a blocked path and changes nothing, and on any other path it succeeds. -/
theorem linkBelow_cases (parts : List String) (parent : TableId) (s : State) :
    (Blocked s parent parts ∧
        linkBelow module name parts parent s = (.error (.moduleConflict name), s)) ∨
      ¬ Blocked s parent parts ∧ ∃ t, linkBelow module name parts parent s = (.ok (), t) := by
  by_cases h : Blocked s parent parts
  · exact Or.inl ⟨h, h.linkBelow_eq module name⟩
  · exact Or.inr ⟨h, exists_linkBelow_of_not_blocked module name parts h⟩

/-! ## What linking changes -/

/-- A state differs from another in its tables only, and none is gone. -/
def State.SameButTables (s t : State) : Prop :=
  s.tables.size ≤ t.tables.size ∧ t = { s with tables := t.tables }

theorem State.SameButTables.trans {s t u : State} (hst : s.SameButTables t)
    (htu : t.SameButTables u) : s.SameButTables u := by
  refine ⟨hst.1.trans htu.1, ?_⟩
  rw [htu.2, hst.2]

theorem State.SameButTables.modules_eq {s t : State} (h : s.SameButTables t) :
    t.modules = s.modules := by
  rw [h.2]

theorem State.SameButTables.globals_eq {s t : State} (h : s.SameButTables t) :
    t.globals = s.globals := by
  rw [h.2]

/-- Linking changes only fields that are parts of the path. -/
theorem linkBelow_frame (parts : List String) (parent : TableId) (s : State) :
    s.SameButTables (linkBelow module name parts parent s).2 ∧
      ∀ id n, n ∉ parts → (linkBelow module name parts parent s).2.field id n = s.field id n := by
  induction parts generalizing s parent with
  | nil => exact ⟨⟨Nat.le_refl _, rfl⟩, fun _ _ _ => rfl⟩
  | cons part rest ih =>
    by_cases hrest : rest = []
    · subst hrest
      refine ⟨⟨Nat.le_of_eq (State.size_withField s parent part _).symm, rfl⟩, fun id n hn => ?_⟩
      exact State.field_withField_of_ne (Or.inr fun h => hn (List.mem_singleton.mpr h))
    · rw [linkBelow_cons module name hrest]
      cases hfield : s.field parent part with
      | table next =>
        obtain ⟨hsame, hfields⟩ := ih next s
        exact ⟨hsame, fun id n hn => hfields id n fun h => hn (List.mem_cons_of_mem part h)⟩
      | nil =>
        obtain ⟨hsame, hfields⟩ := ih ⟨s.tables.size⟩ (s.withFieldTable parent part)
        have hstart : s.SameButTables (s.withFieldTable parent part) :=
          ⟨by simp [State.withFieldTable], rfl⟩
        refine ⟨hstart.trans hsame, fun id n hn => ?_⟩
        rw [List.mem_cons, not_or] at hn
        rw [hfields id n hn.2, State.withFieldTable, State.field_withField_of_ne (Or.inr hn.1),
          State.field_withTable]
      | _ => exact ⟨⟨Nat.le_refl _, rfl⟩, fun _ _ _ => rfl⟩

/-- Linking a module where the path leads to it already changes no field. -/
theorem PathTo.linkBelow_eq {s : State} {parent : TableId} {parts : List String}
    (h : PathTo s parent parts module) (hparts : parts ≠ []) :
    ∃ t, linkBelow module name parts parent s = (.ok (), t) ∧
      ∀ id n, t.field id n = s.field id n := by
  induction h with
  | here => exact absurd rfl hparts
  | @step parent next id part rest hfield hpath ih =>
    by_cases hrest : rest = []
    · subst hrest
      cases hpath
      exact ⟨_, rfl, fun _ _ => State.field_withField_same hfield⟩
    · rw [linkBelow_cons id name hrest, hfield]
      exact ih hrest

end

end LuaRuntime
