import LuaRuntime.Proofs.Library.ModulePath

/-!
# Linking a module

Linking a module either fails and changes nothing, or writes one of the tables that there are, at
one string: the table where its path leaves the fields that there are already, or the last one on
the path.  Whatever else it writes is in tables that it made itself (`linkBelow_of_nil`).

`State.Writes` says what such a write changes, and `linkBelow_writes` finds it by induction on the
path.  The write is no change if the path led to the module before.  Otherwise the path leads to it
afterwards, if it meets no table twice: a later part of the path could undo an earlier one.
-/

namespace LuaRuntime

/-! ## Heaps -/

/-- The globals and the tables in all fields are tables of the state. -/
structure State.Closed (s : State) : Prop where
  globals : s.globals.index < s.tables.size
  field {id next : TableId} {name : String} :
    s.field id name = .table next → next.index < s.tables.size

namespace State.Closed

variable {s : State}

theorem initial (limits : Limits) (sink : Sink) (now : ℤ) :
    (State.initial limits sink now).Closed where
  globals := Nat.one_pos
  field {id next name} h := by
    have hone : (State.initial limits sink now).tables.size = 1 := rfl
    rcases Nat.lt_or_ge id.index 1 with hid | hid
    · obtain rfl : id = ⟨0⟩ := congrArg TableId.mk (Nat.lt_one_iff.mp hid)
      have hfield : (State.initial limits sink now).field ⟨0⟩ name =
          if "_G" = name then .table ⟨0⟩ else .nil := Table.getString_setString {} "_G" _ name
      rw [hfield] at h
      split at h
      · cases h
        exact Nat.one_pos
      · cases h
    · rw [State.field_of_le (by rw [hone]; exact hid)] at h
      cases h

theorem withTable (h : s.Closed) : (s.withTable {}).Closed where
  globals := by
    rw [State.size_withTable]
    exact Nat.lt_succ_of_lt h.globals
  field hfield := by
    rw [State.field_withTable] at hfield
    rw [State.size_withTable]
    exact Nat.lt_succ_of_lt (h.field hfield)

theorem withField (h : s.Closed) (id : TableId) (name : String) {v : Value}
    (hv : ∀ next, v = .table next → next.index < s.tables.size) :
    (s.withField id name v).Closed where
  globals := by
    rw [State.size_withField]
    exact h.globals
  field {other next n} hfield := by
    rw [State.size_withField]
    rcases State.field_withField_cases s id name v other n with hcase | hcase
    · exact hv next (hcase.symm.trans hfield)
    · exact h.field (hcase.symm.trans hfield)

end State.Closed

/-- Of the tables of a state one is written, with a table at a string, and nothing else changes but
that there may be new tables. -/
structure State.Writes (s : State) (owner : TableId) (key : String) (value : TableId) (t : State) :
    Prop where
  owner_lt : owner.index < s.tables.size
  owner_eq : t.table owner = (s.table owner).setString key (.table value)
  other_eq : ∀ id, id.index < s.tables.size → id ≠ owner → t.table id = s.table id
  rest : s.SameButTables t

namespace State.Writes

variable {s t : State} {owner value : TableId} {key : String}

/-- A write changes only the entry that is written. -/
theorem get_eq (h : s.Writes owner key value t) {id : TableId} (hid : id.index < s.tables.size)
    {k : Key} (hne : id ≠ owner ∨ k ≠ .string key) : (t.table id).get k = (s.table id).get k := by
  by_cases howner : id = owner
  · subst howner
    rw [h.owner_eq, Table.get_setString_of_ne (hne.resolve_left (absurd rfl))]
  · rw [h.other_eq id hid howner]

theorem metatable_eq (h : s.Writes owner key value t) {id : TableId}
    (hid : id.index < s.tables.size) : (t.table id).metatable = (s.table id).metatable := by
  by_cases howner : id = owner
  · subst howner
    rw [h.owner_eq]
    rfl
  · rw [h.other_eq id hid howner]

theorem field_eq (h : s.Writes owner key value t) : t.field owner key = .table value := by
  rw [State.field, h.owner_eq, Table.getString_setString, if_pos rfl]

end State.Writes

theorem State.writes_withField {s : State} {owner : TableId} (h : owner.index < s.tables.size)
    (key : String) (value : TableId) :
    s.Writes owner key value (s.withField owner key (.table value)) where
  owner_lt := h
  owner_eq := State.table_modifyTable h _
  other_eq _ _ hid := State.table_modifyTable_of_ne hid _
  rest := ⟨by rw [State.size_withField], rfl⟩

/-- The tables that a path goes through from a table on. -/
def State.walked (s : State) : TableId → List String → List TableId
  | _, [] => []
  | parent, part :: rest =>
      parent :: match s.field parent part with
        | .table next => s.walked next rest
        | _ => []

/-! ## Paths -/

section

variable (module : TableId) (name : String) {s : State} {parent : TableId} {part : String}

theorem linkBelow_last (s : State) (parent : TableId) (part : String) :
    linkBelow module name [part] parent s = (.ok (), s.withField parent part (.table module)) :=
  rfl

/-- Where a field is missing it gets a table, and whatever else is written is new. -/
theorem linkBelow_of_nil (rest : List String) (hparent : parent.index < s.tables.size)
    (hfield : s.field parent part = .nil) :
    ∃ t value, linkBelow module name (part :: rest) parent s = (.ok (), t) ∧
      s.Writes parent part value t ∧ PathTo t parent (part :: rest) module := by
  induction rest generalizing s parent part with
  | nil =>
    exact ⟨_, module, linkBelow_last module name s parent part, s.writes_withField hparent part _,
      .step (State.field_withField_self hparent) .here⟩
  | cons next more ih =>
    have hsize : (s.withFieldTable parent part).tables.size = s.tables.size + 1 := by
      simp [State.withFieldTable]
    have hold {id : TableId} (hid : id.index < s.tables.size) : id ≠ ⟨s.tables.size⟩ := by
      rintro rfl
      exact absurd hid (Nat.lt_irrefl _)
    have hnil : (s.withFieldTable parent part).field ⟨s.tables.size⟩ next = .nil := by
      rw [State.withFieldTable, State.field_withField_of_ne (Or.inl (hold hparent).symm),
        State.field_withTable]
      exact State.field_of_le (Nat.le_refl _)
    have hnew : (⟨s.tables.size⟩ : TableId).index < (s.withFieldTable parent part).tables.size := by
      rw [hsize]
      exact Nat.lt_succ_self _
    obtain ⟨t, value, hrun, hwrites, hpath⟩ := ih hnew hnil
    have hkept {id : TableId} (hid : id.index < s.tables.size) :
        t.table id = (s.withFieldTable parent part).table id :=
      hwrites.other_eq id (by omega) (hold hid)
    have howner : t.table parent = (s.table parent).setString part (.table ⟨s.tables.size⟩) := by
      rw [hkept hparent, State.withFieldTable, State.withField,
        State.table_modifyTable (by rw [State.size_withTable]; omega), State.table_withTable]
    have hwritten : s.Writes parent part ⟨s.tables.size⟩ t := by
      refine ⟨hparent, howner, fun id hid hne => ?_, .trans ⟨by omega, rfl⟩ hwrites.rest⟩
      rw [hkept hid, State.withFieldTable, State.withField, State.table_modifyTable_of_ne hne,
        State.table_withTable]
    refine ⟨t, ⟨s.tables.size⟩, ?_, hwritten, .step hwritten.field_eq hpath⟩
    rw [linkBelow_cons module name (List.cons_ne_nil next more), hfield]
    exact hrun

/-- What linking has done once it has ended. -/
theorem linkBelow_writes (hs : s.Closed) {parts : List String} (hparts : parts ≠ [])
    (hparent : parent.index < s.tables.size) {t : State}
    (h : linkBelow module name parts parent s = (.ok (), t)) :
    ∃ owner key value, s.Writes owner key value t ∧ owner ∈ s.walked parent parts ∧
      (s.field owner key = .table value ↔ PathTo s parent parts module) ∧
      ((s.walked parent parts).Nodup → PathTo t parent parts module) := by
  induction parts generalizing parent with
  | nil => exact absurd rfl hparts
  | cons part rest ih =>
    by_cases hrest : rest = []
    · subst hrest
      rw [linkBelow_last] at h
      cases h
      refine ⟨parent, part, module, s.writes_withField hparent part module, List.mem_cons_self,
        ⟨fun hfield => .step hfield .here, ?_⟩, fun _ => ?_⟩
      · rintro (_ | ⟨hfield, hpath⟩)
        cases hpath
        exact hfield
      · exact .step (State.field_withField_self hparent) .here
    cases hfield : s.field parent part with
    | table next =>
      rw [linkBelow_cons module name hrest, hfield] at h
      obtain ⟨owner, key, value, hwrites, howner, hbefore, hafter⟩ := ih hrest (hs.field hfield) h
      have hwalked : s.walked parent (part :: rest) = parent :: s.walked next rest := by
        rw [State.walked, hfield]
      refine ⟨owner, key, value, hwrites, ?_, hbefore.trans ⟨.step hfield, ?_⟩, fun hnodup => ?_⟩
      · rw [hwalked]
        exact List.mem_cons_of_mem _ howner
      · rintro (_ | ⟨hnext, hpath⟩)
        rw [hfield] at hnext
        cases hnext
        exact hpath
      · rw [hwalked, List.nodup_cons] at hnodup
        refine .step ?_ (hafter hnodup.2)
        -- The table that is written comes later on the path.
        have hne : parent ≠ owner := by
          rintro rfl
          exact hnodup.1 howner
        rw [State.field, hwrites.other_eq parent hparent hne]
        exact hfield
    | nil =>
      obtain ⟨u, value, hrun, hwrites, hpath⟩ := linkBelow_of_nil module name rest hparent hfield
      rw [h] at hrun
      cases hrun
      refine ⟨parent, part, value, hwrites, List.mem_cons_self, ⟨fun hvalue => ?_, ?_⟩,
        fun _ => hpath⟩
      · rw [hfield] at hvalue
        cases hvalue
      · rintro (_ | ⟨hnext, -⟩)
        rw [hfield] at hnext
        cases hnext
    | _ =>
      rw [linkBelow_cons module name hrest, hfield] at h
      cases h

end

/-! ## Linking -/

/-- Linking a module fails only if its name is in conflict, and has changed nothing then, so nothing
more can be reached.

If it succeeds, one of the tables that there were has been written, with a table at a string.  Their
other entries and their metatables are as before.  The entry that was written has changed, too,
unless the path led to the module already.  If the path meets no table twice it leads to the module
afterwards. -/
theorem link_is_all_or_nothing (name : String) (module : TableId) {s : State} (hs : s.Closed) :
    (∀ e t, linkModule name module s = (.error e, t) → e = .moduleConflict name ∧ t = s) ∧
    ∀ t, Gives (linkModule name module) s () t →
      (∃ owner key value, s.Writes owner key value t ∧
        (∀ id k, id.index < s.tables.size →
          ((t.table id).get k ≠ (s.table id).get k ↔
            id = owner ∧ k = .string key ∧ ¬ PathTo s s.globals (Path.parts name) module)) ∧
        ∀ id, id.index < s.tables.size → (t.table id).metatable = (s.table id).metatable) ∧
      ((s.walked s.globals (Path.parts name)).Nodup →
        PathTo t t.globals (Path.parts name) module) := by
  have hstart : linkModule name module s =
      linkBelow module name (Path.parts name) s.globals s := rfl
  refine ⟨fun e t h => ?_, fun t h => ?_⟩
  · rw [hstart] at h
    obtain ⟨-, hrun⟩ | ⟨-, u, hrun⟩ := linkBelow_cases module name (Path.parts name) s.globals s
    · rw [hrun] at h
      cases h
      exact ⟨rfl, rfl⟩
    · rw [hrun] at h
      cases h
  · obtain ⟨owner, key, value, hwrites, -, hbefore, hafter⟩ :=
      linkBelow_writes module name hs (Path.parts_ne_nil name) hs.globals h
    refine ⟨⟨owner, key, value, hwrites, fun id k hid => ?_, fun id => hwrites.metatable_eq⟩,
      fun hnodup => ?_⟩
    · rw [← hbefore]
      constructor
      · intro hchanged
        obtain ⟨rfl, rfl⟩ : id = owner ∧ k = .string key := by
          by_contra hne
          exact hchanged (hwrites.get_eq hid (not_and_or.mp hne))
        exact ⟨rfl, rfl, fun hsame => hchanged (hwrites.field_eq.trans hsame.symm)⟩
      · rintro ⟨rfl, rfl, hother⟩ hsame
        exact hother (hsame.symm.trans hwrites.field_eq)
    · rw [hwrites.rest.globals_eq]
      exact hafter hnodup

/-- A state with a table `game`, a number `taken`, and a table that is linked nowhere. -/
def withGame : State :=
  State.initial {} .keep 0
    |>.withTable {}
    |>.withTable {}
    |>.withField ⟨0⟩ "game" (.table ⟨1⟩)
    |>.withField ⟨0⟩ "taken" (.ofNat 1)

theorem closed_withGame : withGame.Closed := by
  have htables := ((State.Closed.initial {} .keep 0).withTable).withTable
  have hgame := htables.withField ⟨0⟩ "game" (v := .table ⟨1⟩) (by rintro _ ⟨⟩; decide)
  exact hgame.withField ⟨0⟩ "taken" nofun

/-- The table `game` gets a new table in its field `util`, which has the module in its field `vec`.
Below a number nothing is linked. -/
theorem withGame_is_linked :
    withGame.Closed ∧
      linkModule "taken.inner" ⟨2⟩ withGame =
        (.error (.moduleConflict "taken.inner"), withGame) ∧
      ∃ t value, Gives (linkModule "game.util.vec" ⟨2⟩) withGame () t ∧
        withGame.Writes ⟨1⟩ "util" value t ∧
        (withGame.walked withGame.globals (Path.parts "game.util.vec")).Nodup ∧
        PathTo t t.globals (Path.parts "game.util.vec") ⟨2⟩ := by
  obtain ⟨hfails, -⟩ := link_is_all_or_nothing "taken.inner" ⟨2⟩ closed_withGame
  obtain ⟨-, hsucceeds⟩ := link_is_all_or_nothing "game.util.vec" ⟨2⟩ closed_withGame
  have herror : (linkModule "taken.inner" ⟨2⟩ withGame).1 =
      .error (.moduleConflict "taken.inner") := rfl
  have hends : (linkModule "game.util.vec" ⟨2⟩ withGame).1.toBool = true := by decide +kernel
  have hrun : Gives (linkModule "game.util.vec" ⟨2⟩) withGame ()
      (linkModule "game.util.vec" ⟨2⟩ withGame).2 := by
    refine gives_of_fst_eq ?_
    cases hresult : (linkModule "game.util.vec" ⟨2⟩ withGame).1 with
    | error e =>
      rw [hresult] at hends
      cases hends
    | ok => rfl
  have hnodup : (withGame.walked withGame.globals (Path.parts "game.util.vec")).Nodup := by
    decide +kernel
  obtain ⟨⟨owner, key, value, hwrites, hchanged, -⟩, hpath⟩ := hsucceeds _ hrun
  have hutil : ((linkModule "game.util.vec" ⟨2⟩ withGame).2.table ⟨1⟩).get (.string "util") ≠
      (withGame.table ⟨1⟩).get (.string "util") := by decide +kernel
  obtain ⟨rfl, hkey, -⟩ := (hchanged ⟨1⟩ (.string "util") (by decide)).mp hutil
  cases hkey
  exact ⟨closed_withGame, Prod.ext herror (hfails _ _ (Prod.ext herror rfl)).2, _, value, hrun,
    hwrites, hnodup, hpath hnodup⟩

/-- A state where a module is linked. -/
def withLinked : State :=
  State.initial {} .keep 0
    |>.withTable {}
    |>.withField ⟨0⟩ "m" (.table ⟨1⟩)

/-- Linking it again succeeds, and changes no table at all. -/
theorem withLinked_is_unchanged :
    withLinked.Closed ∧
      Gives (linkModule "m" ⟨1⟩) withLinked () withLinked ∧
      ¬ ∀ (name : String) (module : TableId) (s t : State), s.Closed →
        Gives (linkModule name module) s () t →
        ∃ id, id.index < s.tables.size ∧ t.table id ≠ s.table id := by
  have hclosed : withLinked.Closed :=
    (State.Closed.initial {} .keep 0).withTable.withField ⟨0⟩ "m" (by rintro _ ⟨⟩; decide)
  have hrun : Gives (linkModule "m" ⟨1⟩) withLinked () withLinked := rfl
  refine ⟨hclosed, hrun, fun hchanges => ?_⟩
  obtain ⟨id, -, hchanged⟩ := hchanges "m" ⟨1⟩ withLinked withLinked hclosed hrun
  exact hchanged rfl

end LuaRuntime
