import LuaRuntime.Proofs.Library.Require

/-!
# Name conflicts of modules

A module is entered before it is linked: its table gets its names, it is registered, and it is
listed in `package.loaded`.  If its path is blocked then, nothing is linked, but what was entered
stays, and no initializer is called.  What a loader returns is entered in the same way before it is
linked.

`State.SameBut` says at which entries two states may differ.  `conflict_links_nothing` gives them
for each way to meet a conflict.  A name that is registered meets it again.  A name that is not is
found in `package.loaded` the next time, and requiring it succeeds though it is not linked.
-/

namespace LuaRuntime

/-! ## Changes at some entries -/

/-- Two states differ at most in the registry of modules, and in their tables at some keys. -/
structure State.SameBut (s : State) (changed : TableId → Key → Prop) (t : State) : Prop where
  rest : t = { s with tables := t.tables, modules := t.modules }
  metatables : ∀ id, (t.table id).metatable = (s.table id).metatable
  entries : ∀ id key, ¬ changed id key → (t.table id).get key = (s.table id).get key

namespace State

section

variable {changed : TableId → Key → Prop} {s t u : State}

theorem SameBut.refl (changed : TableId → Key → Prop) (s : State) : s.SameBut changed s :=
  ⟨rfl, fun _ => rfl, fun _ _ _ => rfl⟩

theorem SameBut.trans (hst : s.SameBut changed t) (htu : t.SameBut changed u) :
    s.SameBut changed u where
  rest := by rw [htu.rest, hst.rest]
  metatables id := (htu.metatables id).trans (hst.metatables id)
  entries id key h := (htu.entries id key h).trans (hst.entries id key h)

/-- A write to a field that may change. -/
theorem SameBut.withField (h : s.SameBut changed t) {id : TableId} {name : String}
    (hname : changed id (.string name)) (v : Value) :
    s.SameBut changed (t.withField id name v) := by
  apply h.trans
  rcases Nat.lt_or_ge id.index t.tables.size with hlt | hge
  · refine ⟨rfl, fun other => ?_, fun other key hkey => ?_⟩
    · by_cases hid : other = id
      · rw [hid, State.withField, table_modifyTable hlt]
        rfl
      · rw [State.withField, table_modifyTable_of_ne hid]
    · by_cases hid : other = id
      · have hne : key ≠ .string name := by
          rintro rfl
          exact hkey (hid ▸ hname)
        rw [hid, State.withField, table_modifyTable hlt, Table.get_setString_of_ne hne]
      · rw [State.withField, table_modifyTable_of_ne hid]
  · rw [State.withField, modifyTable_of_le hge]
    exact .refl changed t

theorem SameBut.withTable (h : s.SameBut changed t) : s.SameBut changed (t.withTable {}) :=
  h.trans ⟨rfl, fun id => by rw [table_withTable], fun id key _ => by rw [table_withTable]⟩

/-- The state with a module registered. -/
def withModule (s : State) (name : String) (module : TableId) : State :=
  { s with modules := s.modules.insert name module }

theorem SameBut.withModule (h : s.SameBut changed t) (name : String) (module : TableId) :
    s.SameBut changed (t.withModule name module) :=
  h.trans ⟨rfl, fun _ => rfl, fun _ _ _ => rfl⟩

end

/-! ## Entering a module -/

section

variable (s : State) (name : String)

/-- The table that a name has, registered or in `package.loaded`. -/
def existingModule? : Option TableId :=
  match s.modules[name]? with
  | some module => some module
  | none =>
      match s.fieldIn (s.packageTable? "loaded") name with
      | .table module => some module
      | _ => none

/-- The table that a module of a name gets: the one that the name has, or a new one. -/
def moduleTable : TableId := (s.existingModule? name).getD ⟨s.tables.size⟩

/-- The state where that table is there. -/
def withModuleTable : State :=
  match s.existingModule? name with
  | some _ => s
  | none => s.withTable {}

/-- The state where the table of a module has its names. -/
def withNames (module : TableId) : State :=
  s.withField module "_NAME" (.string name)
    |>.withField module "_M" (.table module)
    |>.withField module "_PACKAGE" (.string (Path.parent name))

/-- The state where a module is entered: all is done that is done before it is linked. -/
def entered : State :=
  let module := s.moduleTable name
  let t := ((s.withModuleTable name).withNames name module).withModule name module
  match s.packageTable? "loaded" with
  | some loaded => t.withField loaded name (.table module)
  | none => t

/-- Where entering a module changes tables: at the names of the module, and at its name in
`package.loaded`. -/
def EntersAt (id : TableId) (key : Key) : Prop :=
  (id = s.moduleTable name ∧ key ∈ [.string "_NAME", .string "_M", .string "_PACKAGE"]) ∨
    (s.packageTable? "loaded" = some id ∧ key = .string name)

theorem sameBut_entered : s.SameBut (s.EntersAt name) (s.entered name) := by
  have htable : s.SameBut (s.EntersAt name) (s.withModuleTable name) := by
    rw [withModuleTable]
    split
    · exact .refl _ s
    · exact (SameBut.refl _ s).withTable
  have hnames : s.SameBut (s.EntersAt name)
      ((s.withModuleTable name).withNames name (s.moduleTable name)) := by
    have hat (field : String)
        (h : Key.string field ∈ [Key.string "_NAME", .string "_M", .string "_PACKAGE"]) :
        s.EntersAt name (s.moduleTable name) (.string field) := Or.inl ⟨rfl, h⟩
    exact ((htable.withField (hat _ (by simp)) _).withField (hat _ (by simp)) _).withField
      (hat _ (by simp)) _
  have hmodule := hnames.withModule name (s.moduleTable name)
  rw [entered]
  split
  · next loaded hloaded => exact hmodule.withField (Or.inr ⟨hloaded, rfl⟩) _
  · exact hmodule

theorem modules_entered :
    (s.entered name).modules = s.modules.insert name (s.moduleTable name) := by
  have htable : (s.withModuleTable name).modules = s.modules := by
    rw [withModuleTable]
    split <;> rfl
  rw [entered]
  split <;> rw [← htable] <;> rfl

end

end State

/-! ## Creating a module -/

section

variable (call : Invoke) (name : String) (initializers : List Value) (s : State)

theorem gives_existingModule? :
    Gives (existingModule? name (s.packageTable? "loaded")) s (s.existingModule? name) s := by
  rw [Gives, existingModule?.eq_def, bind_run, gives_get, State.existingModule?]
  dsimp only
  cases s.modules[name]? with
  | some module => rfl
  | none =>
    cases s.packageTable? "loaded" with
    | none => rfl
    | some loaded =>
      dsimp only [State.fieldIn]
      rw [bind_run, gives_getField]
      dsimp only
      cases s.field loaded name <;> rfl

theorem createModule_run :
    createModule call name initializers s =
      (linkBelow (s.moduleTable name) name (Path.parts name) (s.entered name).globals >>= fun _ =>
        callEach call (.table (s.moduleTable name)) initializers >>= fun _ =>
          pure (s.moduleTable name)) (s.entered name) := by
  rw [createModule, bind_run, gives_packageTable?]
  dsimp only
  rw [bind_run, gives_existingModule?]
  dsimp only
  rw [State.entered, State.moduleTable, State.withModuleTable]
  cases s.existingModule? name <;> cases s.packageTable? "loaded" <;> rfl

end

/-! ## Conflicts -/

section

variable {name : String} {s t : State}

/-- A call that may not go deeper fails, and not by a conflict. -/
theorem callOutcome_zero (callee : Value) (args : List Value) (s : State) (name : String) :
    ∃ e, callOutcome (invoke 0) callee args s = (.error e, s) ∧ e ≠ .moduleConflict name := by
  rw [callOutcome.eq_def]
  split
  · exact ⟨.stackOverflow, rfl, nofun⟩
  · have hhandler : Gives (handler? callee .call) s (s.handler? callee .call) s := rfl
    rw [bind_run, hhandler]
    dsimp only
    cases s.handler? callee .call with
    | none => exact ⟨.call callee.kind, rfl, nofun⟩
    | some handler =>
      cases handler with
      | function f => exact ⟨.stackOverflow, rfl, nofun⟩
      | _ => exact ⟨.call callee.kind, rfl, nofun⟩

/-- Initializers that may not be called fail otherwise than by a conflict. -/
theorem callEach_zero (v : Value) (fs : List Value) (s : State) (name : String) :
    (callEach (invoke 0) v fs s).1 ≠ .error (.moduleConflict name) := by
  cases fs with
  | nil => exact nofun
  | cons f rest =>
    obtain ⟨e, herror, he⟩ := callOutcome_zero f [v] s name
    rw [callEach, bind_run, call_run, herror]
    intro h
    exact he (Except.error.inj h)

/-- A module is not linked along a blocked path, and no initializer is called. -/
theorem createModule_of_blocked (h : Blocked (s.entered name) (s.entered name).globals
    (Path.parts name)) (call : Invoke) (initializers : List Value) :
    createModule call name initializers s = (.error (.moduleConflict name), s.entered name) := by
  rw [createModule_run, bind_run, h.linkBelow_eq]

/-- If creating a module meets a conflict whatever calls do, then its path is blocked once it is
entered. -/
theorem blocked_of_createModule {initializers : List Value}
    (h : createModule (invoke 0) name initializers s = (.error (.moduleConflict name), t)) :
    Blocked (s.entered name) (s.entered name).globals (Path.parts name) := by
  rcases linkBelow_cases (s.moduleTable name) name (Path.parts name) (s.entered name).globals
    (s.entered name) with ⟨hblocked, -⟩ | ⟨-, u, hlink⟩
  · exact hblocked
  · -- Linking succeeded, so the error would be one of an initializer.
    rw [createModule_run, bind_run, hlink] at h
    dsimp only at h
    rw [bind_run] at h
    have hcalls := callEach_zero (.table (s.moduleTable name)) initializers u name
    generalize callEach (invoke 0) (.table (s.moduleTable name)) initializers u = run at h hcalls
    obtain ⟨result, v⟩ := run
    cases result with
    | ok _ => cases h
    | error e =>
      cases h
      exact absurd rfl hcalls

/-- A registered name whose path is blocked meets the conflict again, and nothing changes. -/
theorem requireModule_of_blocked {module : TableId} (hregistry : s.modules[name]? = some module)
    (hblocked : Blocked s s.globals (Path.parts name)) (call : Invoke) :
    requireModule call name s = (.error (.moduleConflict name), s) := by
  rw [requireModule_of_registered hregistry, linkResult_table, bind_run, hblocked.linkBelow_eq]

/-- Linking a value fails only for a table and on a blocked path. -/
theorem blocked_of_linkResult {result : Value}
    (h : linkResult name result s = (.error (.moduleConflict name), t)) :
    Blocked s s.globals (Path.parts name) ∧ (∃ module, result = .table module) ∧ t = s := by
  rcases linkResult_cases name result s with ⟨hblocked, htable, heq⟩ | ⟨u, heq, -⟩
  · cases heq.symm.trans h
    exact ⟨hblocked, htable, rfl⟩
  · cases heq.symm.trans h

/-- The state where what a loader returned is entered in `package.loaded`, if that is a table. -/
def State.withLoaded (s : State) (loaded : Option TableId) (name : String) (result : Value) :
    State :=
  match loaded with
  | some id => s.withField id name (s.loadedResult id name result)
  | none => s

theorem State.sameBut_withLoaded (s : State) (loaded : Option TableId) (name : String)
    (result : Value) :
    s.SameBut (fun id key => loaded = some id ∧ key = .string name)
      (s.withLoaded loaded name result) := by
  cases loaded with
  | none => exact .refl _ s
  | some id => exact (SameBut.refl _ s).withField ⟨rfl, rfl⟩ _

theorem State.modules_withLoaded (s : State) (loaded : Option TableId) (name : String)
    (result : Value) : (s.withLoaded loaded name result).modules = s.modules := by
  cases loaded <;> rfl

/-- Requiring a name that is not registered meets a conflict by its loader, or by linking what the
loader returned. -/
theorem requireModule_conflict_cases {call : Invoke} (hregistry : s.modules[name]? = none)
    (h : requireModule call name s = (.error (.moduleConflict name), t)) :
    callFirst call (s.loaderOf name) [.string name] s = (.error (.moduleConflict name), t) ∨
      ∃ v u, callFirst call (s.loaderOf name) [.string name] s = (.ok v, u) ∧
        t = u.withLoaded (s.packageTable? "loaded") name v ∧
        Blocked t t.globals (Path.parts name) ∧
        ∀ loaded, s.packageTable? "loaded" = some loaded →
          ∃ module, u.loadedResult loaded name v = .table module := by
  rw [requireModule_run, hregistry] at h
  dsimp only at h
  split at h
  · rw [preload_run] at h
    split at h
    · cases h
    · generalize callFirst call (s.loaderOf name) [.string name] s = run at h ⊢
      obtain ⟨result, u⟩ := run
      cases result with
      | error e =>
        cases h
        exact Or.inl rfl
      | ok v =>
        refine Or.inr ⟨v, u, rfl, ?_⟩
        cases hloaded : s.packageTable? "loaded" with
        | none =>
          rw [hloaded] at h
          obtain ⟨hblocked, -, rfl⟩ := blocked_of_linkResult h
          exact ⟨rfl, hblocked, fun loaded heq => by cases heq⟩
        | some loaded =>
          rw [hloaded] at h
          obtain ⟨hblocked, htable, rfl⟩ := blocked_of_linkResult h
          exact ⟨rfl, hblocked, fun other heq => Option.some.inj heq ▸ htable⟩
  · cases h

/-- What a loader returned for a name that it did not register is found in `package.loaded`, if
that is the same table still, and the name is not linked. -/
theorem requireModule_of_entered {loaded module : TableId} {v : Value}
    (hregistry : s.modules[name]? = none) (hresult : s.loadedResult loaded name v = .table module)
    (hexists : loaded.index < s.tables.size)
    (hkept : (s.withLoaded (some loaded) name v).packageTable? "loaded" = some loaded)
    (call : Invoke) :
    requireModule call name (s.withLoaded (some loaded) name v) =
      (.ok (.table module), s.withLoaded (some loaded) name v) := by
  have hfield : (s.withLoaded (some loaded) name v).field loaded name = .table module := by
    rw [← hresult]
    exact State.field_withField_self hexists
  rw [← s.modules_withLoaded (some loaded) name v] at hregistry
  exact requireModule_of_loaded hregistry hkept hfield nofun call

/-- A name conflict links nothing.  Creating a module leaves it entered: at most its names, its
entry in `package.loaded` and its registration are new, and requiring it meets the conflict again.
Requiring a registered name changes nothing.  Requiring another one leaves what its loader did, and
at most its entry in `package.loaded` is new.  If the loader registered the name, the conflict is
met again.  If it did not, and has not replaced `package.loaded`, then requiring the name again
gives that entry and changes nothing, and the path of the name is as blocked as before. -/
theorem conflict_links_nothing (s : State) (name : String) :
    (∀ initializers t,
      (∀ call, createModule call name initializers s = (.error (.moduleConflict name), t)) →
        s.SameBut (s.EntersAt name) t ∧
        t.modules[name]? = some (s.moduleTable name) ∧
        (∀ other, other ≠ name → t.modules[other]? = s.modules[other]?) ∧
        ∀ again, requireModule again name t = (.error (.moduleConflict name), t)) ∧
      ∀ call t, requireModule call name s = (.error (.moduleConflict name), t) →
        (∀ module, s.modules[name]? = some module →
          t = s ∧ ∀ again, requireModule again name t = (.error (.moduleConflict name), t)) ∧
        (s.modules[name]? = none →
          callFirst call (s.loaderOf name) [.string name] s = (.error (.moduleConflict name), t) ∨
          ∃ v u, callFirst call (s.loaderOf name) [.string name] s = (.ok v, u) ∧
            u.SameBut (fun id key => s.packageTable? "loaded" = some id ∧ key = .string name) t ∧
            t.modules = u.modules ∧
            (∀ module, u.modules[name]? = some module →
              ∀ again, requireModule again name t = (.error (.moduleConflict name), t)) ∧
            ∀ loaded, s.packageTable? "loaded" = some loaded →
              t.packageTable? "loaded" = some loaded → loaded.index < u.tables.size →
              u.modules[name]? = none →
              Blocked t t.globals (Path.parts name) ∧ ∃ module, ∀ again,
                requireModule again name t = (.ok (.table module), t)) := by
  constructor
  · intro initializers t hrun
    have hblocked := blocked_of_createModule (hrun (invoke 0))
    cases (createModule_of_blocked hblocked (invoke 0) initializers).symm.trans (hrun (invoke 0))
    have hregistered : (s.entered name).modules[name]? = some (s.moduleTable name) := by
      rw [s.modules_entered, Std.TreeMap.getElem?_insert_self]
    refine ⟨s.sameBut_entered name, hregistered, ?_, requireModule_of_blocked hregistered hblocked⟩
    intro other hother
    rw [s.modules_entered, Std.TreeMap.getElem?_insert, if_neg]
    intro hcompare
    exact hother (Std.LawfulEqCmp.eq_of_compare hcompare).symm
  · intro call t hrun
    constructor
    · intro module hregistry
      rw [requireModule_of_registered hregistry] at hrun
      obtain ⟨hblocked, -, rfl⟩ := blocked_of_linkResult hrun
      exact ⟨rfl, requireModule_of_blocked hregistry hblocked⟩
    · intro hregistry
      rcases requireModule_conflict_cases hregistry hrun with
        hloader | ⟨v, u, hloader, rfl, hblocked, htable⟩
      · exact Or.inl hloader
      · have hmodules := u.modules_withLoaded (s.packageTable? "loaded") name v
        refine Or.inr ⟨v, u, hloader, u.sameBut_withLoaded _ name v, hmodules, ?_, ?_⟩
        · intro module hmodule
          exact requireModule_of_blocked (hmodules.symm ▸ hmodule) hblocked
        · intro loaded hloaded hkept hexists hunregistered
          obtain ⟨module, hmodule⟩ := htable loaded hloaded
          refine ⟨hblocked, module, fun again => ?_⟩
          rw [hloaded] at hkept ⊢
          exact requireModule_of_entered hunregistered hmodule hexists hkept again

end

/-- A state with a number in the way of a module, which has a loader. -/
def numberInTheWay : State :=
  { State.initial {} .keep 0 with
    tables := #[
      ({} : Table) |>.setString "package" (.table ⟨1⟩) |>.setString "taken" (.ofNat 1),
      ({} : Table) |>.setString "loaded" (.table ⟨2⟩) |>.setString "preload" (.table ⟨3⟩),
      {},
      ({} : Table) |>.setString "taken.inner" (.function ⟨0⟩)],
    functions := #[⟨"loader", .script false [.table none []]⟩] }

theorem numberInTheWay_links_nothing :
    numberInTheWay.SameBut (numberInTheWay.EntersAt "taken.inner")
        (createModule (invoke 1) "taken.inner" [.nil] numberInTheWay).2 ∧
      ∃ v u, callFirst (invoke 1) (.function ⟨0⟩) [.string "taken.inner"] numberInTheWay =
          (.ok v, u) ∧
        u.SameBut (fun id key => numberInTheWay.packageTable? "loaded" = some id ∧
          key = .string "taken.inner") (requireModule (invoke 1) "taken.inner" numberInTheWay).2 ∧
        ∃ module, ∀ again,
          requireModule again "taken.inner"
              (requireModule (invoke 1) "taken.inner" numberInTheWay).2 =
            (.ok (.table module), (requireModule (invoke 1) "taken.inner" numberInTheWay).2) := by
  have hparts : Path.parts "taken.inner" = ["taken", "inner"] := by decide +kernel
  have hnumber : (numberInTheWay.entered "taken.inner").field
      (numberInTheWay.entered "taken.inner").globals "taken" = .ofNat 1 := by decide +kernel
  have hblocked : Blocked (numberInTheWay.entered "taken.inner")
      (numberInTheWay.entered "taken.inner").globals (Path.parts "taken.inner") := by
    rw [hparts]
    apply Blocked.here
    · exact List.cons_ne_nil _ _
    · rw [hnumber]
      exact nofun
    · rw [hnumber]
      exact nofun
  have hcreate := fun call => createModule_of_blocked hblocked call [.nil]
  have hrequire : requireModule (invoke 1) "taken.inner" numberInTheWay =
      (.error (.moduleConflict "taken.inner"),
        (requireModule (invoke 1) "taken.inner" numberInTheWay).2) :=
    Prod.ext (by decide +kernel) rfl
  have hlinks := conflict_links_nothing numberInTheWay "taken.inner"
  constructor
  · rw [hcreate]
    exact (hlinks.1 _ _ hcreate).1
  · rcases (hlinks.2 _ _ hrequire).2 (by decide +kernel) with
      hloader | ⟨v, u, hloader, hsame, -, -, hagain⟩
    · have hok : (callFirst (invoke 1) (numberInTheWay.loaderOf "taken.inner")
          [.string "taken.inner"] numberInTheWay).1 = .ok (.table ⟨4⟩) := by decide +kernel
      rw [hloader] at hok
      cases hok
    · have hu : u = (callFirst (invoke 1) (numberInTheWay.loaderOf "taken.inner")
          [.string "taken.inner"] numberInTheWay).2 := by rw [hloader]
      obtain ⟨-, module, hmodule⟩ := hagain ⟨2⟩ (by decide +kernel) (by decide +kernel)
        (by rw [hu]; decide +kernel) (by rw [hu]; decide +kernel)
      exact ⟨v, u, hloader, hsame, module, hmodule⟩

/-- A module in conflict stays registered and in `package.loaded`.  What a loader returned stays in
`package.loaded` too, and there it is found again, though nothing was linked. -/
theorem numberInTheWay_changes :
    numberInTheWay.modules["taken.inner"]? = none ∧
      numberInTheWay.packageTable? "loaded" = some ⟨2⟩ ∧
      numberInTheWay.field ⟨2⟩ "taken.inner" = .nil ∧
      (createModule (invoke 1) "taken.inner" [] numberInTheWay).1 =
        .error (.moduleConflict "taken.inner") ∧
      (createModule (invoke 1) "taken.inner" [] numberInTheWay).2.modules["taken.inner"]? =
        some ⟨4⟩ ∧
      (createModule (invoke 1) "taken.inner" [] numberInTheWay).2.field ⟨2⟩ "taken.inner" =
        .table ⟨4⟩ ∧
      (callFirst (invoke 1) (.function ⟨0⟩) [.string "taken.inner"] numberInTheWay).2.field ⟨2⟩
        "taken.inner" = .nil ∧
      (requireModule (invoke 1) "taken.inner" numberInTheWay).2.field ⟨2⟩ "taken.inner" =
        .table ⟨4⟩ ∧
      (requireTimes (invoke 1) "taken.inner" 2 numberInTheWay).1 =
        [.error (.moduleConflict "taken.inner"), .ok (.table ⟨4⟩)] ∧
      (requireTimes (invoke 1) "taken.inner" 2 numberInTheWay).2.field ⟨0⟩ "taken" = .ofNat 1 := by
  decide +kernel

end LuaRuntime
