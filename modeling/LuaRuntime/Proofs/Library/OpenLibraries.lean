import LuaRuntime.Library.Catalogue
import LuaRuntime.Proofs.Library.Require
import Mathlib.Logic.Function.Basic

/-!
# Open libraries

A library that is opened gets a new table, which becomes the global of its name and is listed in
`package.loaded`.  `Shows` is the view that a state gives of the libraries: the values of their
globals, the values that `package.loaded` has for them, and the index of strings.  Installing a
library changes that view at its own name (`Shows.install`).

The exception is `package`, which brings a new `package.loaded` with nothing in it but itself.  So a
library is listed as long as `package` is not opened alone after it (`open_libraries_are_listed`).
-/

namespace LuaRuntime

/-! ## Entries -/

/-- A state has at least the tables of another, and the same globals, modules and string
metatable. -/
structure State.Extends (s t : State) : Prop where
  size_le : s.tables.size ≤ t.tables.size
  globals_eq : t.globals = s.globals
  modules_eq : t.modules = s.modules
  metatable_eq : t.stringMetatable = s.stringMetatable

namespace State.Extends

variable {s t u : State}

theorem trans (hst : s.Extends t) (htu : t.Extends u) : s.Extends u where
  size_le := hst.size_le.trans htu.size_le
  globals_eq := htu.globals_eq.trans hst.globals_eq
  modules_eq := htu.modules_eq.trans hst.modules_eq
  metatable_eq := htu.metatable_eq.trans hst.metatable_eq

theorem withTable (s : State) (t : Table) : s.Extends (s.withTable t) :=
  ⟨by simp, rfl, rfl, rfl⟩

theorem withField (s : State) (id : TableId) (name : String) (v : Value) :
    s.Extends (s.withField id name v) :=
  ⟨by simp, rfl, rfl, rfl⟩

end State.Extends

/-- Making an entry changes no field. -/
theorem gives_entryMake (name : String) (entry : Entry) (s : State) :
    ∃ v t, Gives (entry.make name) s v t ∧ s.Extends t ∧ (∀ id n, t.field id n = s.field id n) ∧
      (entry = .table → v = .table ⟨s.tables.size⟩ ∧ s.tables.size < t.tables.size) := by
  cases entry with
  | function f => exact ⟨_, _, rfl, ⟨Nat.le_refl _, rfl, rfl, rfl⟩, fun _ _ => rfl, nofun⟩
  | constant v => exact ⟨v, s, rfl, ⟨Nat.le_refl _, rfl, rfl, rfl⟩, fun _ _ => rfl, nofun⟩
  | table => exact ⟨_, _, rfl, .withTable s {}, s.field_withTable, fun _ => ⟨rfl, by simp⟩⟩

/-- Installing entries changes no fields but those of the entries, and an entry that is a table gets
a new one. -/
theorem gives_installEntries (id : TableId) (entries : List (String × Entry)) (s : State) :
    ∃ t, Gives (installEntries id entries) s ⟨⟩ t ∧ s.Extends t ∧
      (∀ other n, other ≠ id ∨ n ∉ entries.map Prod.fst → t.field other n = s.field other n) ∧
      (id.index < s.tables.size → (entries.map Prod.fst).Nodup → ∀ n, (n, Entry.table) ∈ entries →
        ∃ table : TableId, s.tables.size ≤ table.index ∧ table.index < t.tables.size ∧
          t.field id n = .table table) := by
  induction entries generalizing s with
  | nil =>
    exact ⟨s, rfl, ⟨Nat.le_refl _, rfl, rfl, rfl⟩, fun _ _ _ => rfl, fun _ _ _ h => nomatch h⟩
  | cons entry rest ih =>
    obtain ⟨name, entry⟩ := entry
    obtain ⟨v, u, hmake, hsu, hfields, htable⟩ := gives_entryMake name entry s
    obtain ⟨t, hrest, hut, hkept, htables⟩ := ih (u.withField id name v)
    have hst := hsu.trans ((State.Extends.withField u id name v).trans hut)
    refine ⟨t, hmake.bind ((gives_setField u id name v).bind hrest), hst, ?_, ?_⟩
    · intro other n h
      rw [List.map_cons, List.mem_cons, not_or] at h
      rw [hkept other n (h.imp_right And.right),
        State.field_withField_of_ne (h.imp_right And.left), hfields]
    · intro hid hnodup n hn
      rw [List.map_cons, List.nodup_cons] at hnodup
      have hidu : id.index < u.tables.size := hid.trans_le hsu.size_le
      rcases List.mem_cons.mp hn with hhead | hn
      · -- The later entries have other names, so this one stays as it was made.
        cases hhead
        obtain ⟨rfl, hsize⟩ := htable rfl
        refine ⟨⟨s.tables.size⟩, Nat.le_refl _, ?_, ?_⟩
        · have hsize' := hut.size_le
          rw [State.size_withField] at hsize'
          exact hsize.trans_le hsize'
        · rw [hkept id name (Or.inr hnodup.1), State.field_withField_self hidu]
      · obtain ⟨table, hle, hlt, hfield⟩ := htables (by simpa using hidu) hnodup.2 n hn
        rw [State.size_withField] at hle
        exact ⟨table, hsu.size_le.trans hle, hlt, hfield⟩

/-! ## Names of libraries -/

namespace LibraryName

theorem eq_of_name_eq {x y : LibraryName} (h : x.library.name = y.library.name) : x = y := by
  cases x <;> cases y <;> first | rfl | exact absurd h (by decide)

theorem name_ne_loaded (x : LibraryName) : x.library.name ≠ "loaded" := by
  cases x <;> decide

theorem name_ne_index (x : LibraryName) : x.library.name ≠ Event.index.field := by
  cases x <;> decide

theorem name_ne_globals {x : LibraryName} (h : x ≠ .base) : x.library.name ≠ "_G" :=
  fun hname => h (eq_of_name_eq hname)

/-- No library but `package` has its name. -/
theorem name_ne_package {x : LibraryName} (h : x ≠ .package) : x.library.name ≠ "package" :=
  fun hname => h (eq_of_name_eq hname)

/-- The base library has no entry with the name of another library. -/
theorem name_not_mem_base {x : LibraryName} (h : x ≠ .base) :
    x.library.name ∉ baseLibrary.entries.map Prod.fst := by
  cases x with
  | base => exact absurd rfl h
  | _ => decide

end LibraryName

theorem State.field_withField_library {s : State} {id : TableId} (hid : id.index < s.tables.size)
    (x y : LibraryName) (v : Value) :
    (s.withField id x.library.name v).field id y.library.name =
      if y = x then v else s.field id y.library.name := by
  rw [State.field_withField hid]
  by_cases hyx : y = x
  · rw [if_pos hyx, hyx, if_pos ⟨rfl, rfl⟩]
  · rw [if_neg hyx, if_neg fun hname => hyx (LibraryName.eq_of_name_eq hname.2)]

/-! ## The view of the libraries -/

/-- The tables of the global `package` and of its field `loaded`. -/
structure State.Packages (s : State) (package loaded : TableId) : Prop where
  package_lt : package.index < s.tables.size
  loaded_lt : loaded.index < s.tables.size
  loaded_ne : loaded ≠ s.globals
  isPackage : s.field s.globals "package" = .table package
  isLoaded : s.field package "loaded" = .table loaded

theorem State.Packages.packageTable?_eq {s : State} {package loaded : TableId}
    (h : s.Packages package loaded) : s.packageTable? "loaded" = some loaded := by
  rw [State.packageTable?, h.isPackage]
  dsimp only
  rw [h.isLoaded]

/-- The index that the string metatable has. -/
def State.stringIndex (s : State) : Value :=
  match s.stringMetatable with
  | some mt => s.field mt Event.index.field
  | none => .nil

/-- The libraries have some values as globals and some in `package.loaded`, and strings have an
index.  The base library counts for nothing. -/
structure Shows (s : State) (globals loaded : LibraryName → Value) (index : Value) : Prop where
  unregistered : ∀ name : String, s.modules[name]? = none
  globals_lt : s.globals.index < s.tables.size
  metatable_lt : ∀ mt, s.stringMetatable = some mt → mt.index < s.tables.size
  global : ∀ x : LibraryName, x ≠ .base → s.field s.globals x.library.name = globals x
  packages : globals .package ≠ .nil → ∃ package table, s.Packages package table ∧
    ∀ x : LibraryName, x ≠ .base → s.field table x.library.name = loaded x
  stringIndex_eq : s.stringIndex = index

theorem listLoaded_run (name : String) (id : TableId) (s : State) :
    listLoaded name id s =
      match s.packageTable? "loaded" with
      | some table => (.ok (), s.withField table name (.table id))
      | none => (.ok (), s) := by
  rw [listLoaded, bind_run, gives_getGlobal, State.packageTable?]
  dsimp only
  cases s.field s.globals "package" with
  | table package =>
    dsimp only
    rw [bind_run, gives_getField]
    dsimp only
    cases s.field package "loaded" <;> rfl
  | _ => rfl

/-- A library is installed in steps: its table and entries, its global, the index of strings if it
is the string library, and its place in `package.loaded`. -/
theorem gives_installLibrary {library : Library} (hname : library.name ≠ "_G") {s t u v : State}
    (hentries : Gives (installEntries ⟨s.tables.size⟩ library.entries) (s.withTable {}) ⟨⟩ u)
    (hindex : Gives (if library.name = "string" then setStringIndex ⟨s.tables.size⟩ else pure ())
      (u.withField u.globals library.name (.table ⟨s.tables.size⟩)) ⟨⟩ v)
    (hlisted : Gives (listLoaded library.name ⟨s.tables.size⟩) v ⟨⟩ t) :
    Gives (installLibrary library) s ⟨⟩ t := by
  rw [installLibrary, if_neg hname]
  refine (gives_newTable s {}).bind (hentries.bind ((gives_setGlobal u library.name _).bind ?_))
  by_cases hstring : library.name = "string"
  · rw [if_pos hstring] at hindex
    rw [if_pos hstring]
    exact hindex.bind hlisted
  · rw [if_neg hstring] at hindex
    cases hindex
    rw [if_neg hstring]
    exact hlisted

theorem shows_initial (limits : Limits) (sink : Sink) (now : Int) :
    Shows (State.initial limits sink now) (fun _ => .nil) (fun _ => .nil) .nil where
  unregistered _ := Std.TreeMap.getElem?_emptyc
  globals_lt := Nat.zero_lt_one
  metatable_lt _ h := nomatch h
  global x hx := by
    cases x with
    | base => exact absurd rfl hx
    | _ => rfl
  packages h := absurd rfl h
  stringIndex_eq := rfl

namespace Shows

variable {s t : State} {globals loaded : LibraryName → Value} {index : Value}

/-- The view stays as it is if the fields do that are not entries of the base library. -/
theorem congr (h : Shows s globals loaded index) (hst : s.Extends t)
    (hfields : ∀ (id : TableId) n, id.index < s.tables.size →
      n ∉ baseLibrary.entries.map Prod.fst → t.field id n = s.field id n) :
    Shows t globals loaded index where
  unregistered name := by rw [hst.modules_eq, h.unregistered]
  globals_lt := by
    rw [hst.globals_eq]
    exact h.globals_lt.trans_le hst.size_le
  metatable_lt mt hmt := by
    rw [hst.metatable_eq] at hmt
    exact (h.metatable_lt mt hmt).trans_le hst.size_le
  global x hx := by
    rw [hst.globals_eq, hfields _ _ h.globals_lt (LibraryName.name_not_mem_base hx), h.global x hx]
  packages hpackage := by
    obtain ⟨package, table, htables, hvalues⟩ := h.packages hpackage
    refine ⟨package, table, ⟨htables.package_lt.trans_le hst.size_le,
      htables.loaded_lt.trans_le hst.size_le, ?_, ?_, ?_⟩, fun x hx => ?_⟩
    · rw [hst.globals_eq]
      exact htables.loaded_ne
    · rw [hst.globals_eq, hfields _ _ h.globals_lt (by decide), htables.isPackage]
    · rw [hfields _ _ htables.package_lt (by decide), htables.isLoaded]
    · rw [hfields _ _ htables.loaded_lt (LibraryName.name_not_mem_base hx), hvalues x hx]
  stringIndex_eq := by
    rw [← h.stringIndex_eq, State.stringIndex, State.stringIndex, hst.metatable_eq]
    cases hmt : s.stringMetatable with
    | none => rfl
    | some mt => exact hfields mt _ (h.metatable_lt mt hmt) (by decide)

theorem of_eq (h : Shows s globals loaded index) {globals' loaded' : LibraryName → Value}
    (hglobals : ∀ x, x ≠ .base → globals' x = globals x)
    (hloaded : ∀ x, x ≠ .base → loaded' x = loaded x) : Shows s globals' loaded' index where
  unregistered := h.unregistered
  globals_lt := h.globals_lt
  metatable_lt := h.metatable_lt
  global x hx := (h.global x hx).trans (hglobals x hx).symm
  packages hpackage := by
    rw [hglobals .package nofun] at hpackage
    obtain ⟨package, table, htables, hvalues⟩ := h.packages hpackage
    exact ⟨package, table, htables, fun x hx => (hvalues x hx).trans (hloaded x hx).symm⟩
  stringIndex_eq := h.stringIndex_eq

/-- Writing at the name of a library keeps the index of strings. -/
theorem stringIndex_withField (s : State) (id : TableId) (x : LibraryName) (v : Value) :
    (s.withField id x.library.name v).stringIndex = s.stringIndex := by
  rw [State.stringIndex, State.stringIndex]
  show (match s.stringMetatable with | some mt => _ | none => _) = _
  cases s.stringMetatable with
  | none => rfl
  | some mt => exact State.field_withField_of_ne (Or.inr x.name_ne_index.symm)

/-- Writing the global of a library changes the global of no other one. -/
theorem global_withField (h : Shows s globals loaded index) (x : LibraryName) (v : Value)
    {y : LibraryName} (hy : y ≠ .base) :
    (s.withField s.globals x.library.name v).field s.globals y.library.name =
      Function.update globals x v y := by
  rw [State.field_withField_library h.globals_lt, Function.update_apply, h.global y hy]

/-- Setting the global of a library. -/
theorem withGlobal (h : Shows s globals loaded index) {x : LibraryName} (hx : x ≠ .package)
    (v : Value) :
    Shows (s.withField s.globals x.library.name v) (Function.update globals x v) loaded index where
  unregistered := h.unregistered
  globals_lt := by simpa using h.globals_lt
  metatable_lt mt hmt := by simpa using h.metatable_lt mt hmt
  global y hy := h.global_withField x v hy
  packages hpackage := by
    rw [Function.update_of_ne hx.symm] at hpackage
    obtain ⟨package, table, htables, hvalues⟩ := h.packages hpackage
    refine ⟨package, table, ⟨by simpa using htables.package_lt, by simpa using htables.loaded_lt,
      htables.loaded_ne, ?_, ?_⟩, fun y hy => ?_⟩
    · exact (State.field_withField_of_ne (Or.inr (LibraryName.name_ne_package hx).symm)).trans
        htables.isPackage
    · exact (State.field_withField_of_ne (Or.inr x.name_ne_loaded.symm)).trans htables.isLoaded
    · -- The write goes to the globals, and `package.loaded` is another table.
      exact (State.field_withField_of_ne (Or.inl htables.loaded_ne)).trans (hvalues y hy)
  stringIndex_eq := (stringIndex_withField s s.globals x v).trans h.stringIndex_eq

/-- Setting the global `package`, with a table that nothing is listed in yet. -/
theorem withPackage (h : Shows s globals loaded index) {package table : TableId}
    (hpackage : package.index < s.tables.size) (htable : table.index < s.tables.size)
    (hne : table ≠ s.globals) (hloaded : s.field package "loaded" = .table table)
    (hempty : ∀ n, s.field table n = .nil) :
    Shows (s.withField s.globals "package" (.table package))
      (Function.update globals .package (.table package)) (fun _ => .nil) index where
  unregistered := h.unregistered
  globals_lt := by simpa using h.globals_lt
  metatable_lt mt hmt := by simpa using h.metatable_lt mt hmt
  global y hy := h.global_withField .package _ hy
  packages _ := by
    refine ⟨package, table, ⟨by simpa using hpackage, by simpa using htable, hne, ?_, ?_⟩,
      fun y _ => ?_⟩
    · exact State.field_withField_self h.globals_lt
    · exact (State.field_withField_of_ne (Or.inr (by decide))).trans hloaded
    · exact (State.field_withField_of_ne (Or.inl hne)).trans (hempty _)
  stringIndex_eq := (stringIndex_withField s s.globals .package _).trans h.stringIndex_eq

/-- Making the index of strings. -/
theorem withIndex (h : Shows s globals loaded index) (id : TableId) :
    ∃ t, Gives (setStringIndex id) s ⟨⟩ t ∧ Shows t globals loaded (.table id) := by
  let mt : TableId := ⟨s.tables.size⟩
  let u := (s.withTable {}).withField mt Event.index.field (.table id)
  have hsu : s.Extends u := (State.Extends.withTable s {}).trans (.withField _ mt _ _)
  have hmt : mt.index < (s.withTable {}).tables.size := by simp [mt]
  have hu : Shows u globals loaded index := by
    apply h.congr hsu
    intro other n hother _
    have hne : other ≠ mt := by
      rintro rfl
      exact Nat.lt_irrefl _ hother
    rw [State.field_withField_of_ne (Or.inl hne), State.field_withTable]
  refine ⟨{ u with stringMetatable := some mt }, rfl, ?_⟩
  exact {
    unregistered := hu.unregistered
    globals_lt := hu.globals_lt
    metatable_lt := by
      intro mt' hmt'
      cases hmt'
      simpa [u] using hmt
    global := hu.global
    packages := by
      intro hpackage
      obtain ⟨package, table, htables, hvalues⟩ := hu.packages hpackage
      exact ⟨package, table, ⟨htables.package_lt, htables.loaded_lt, htables.loaded_ne,
        htables.isPackage, htables.isLoaded⟩, hvalues⟩
    stringIndex_eq := State.field_withField_self hmt }

/-- Listing a library in `package.loaded`. -/
theorem withListed (h : Shows s globals loaded index) (hpackage : globals .package ≠ .nil)
    (x : LibraryName) (id : TableId) :
    ∃ t, Gives (listLoaded x.library.name id) s ⟨⟩ t ∧
      Shows t globals (Function.update loaded x (.table id)) index := by
  obtain ⟨package, table, htables, hvalues⟩ := h.packages hpackage
  refine ⟨s.withField table x.library.name (.table id), ?_, ?_⟩
  · rw [Gives, listLoaded_run, htables.packageTable?_eq]
  · exact {
      unregistered := h.unregistered
      globals_lt := by simpa using h.globals_lt
      metatable_lt := fun mt hmt => by simpa using h.metatable_lt mt hmt
      global := fun y hy =>
        (State.field_withField_of_ne (Or.inl htables.loaded_ne.symm)).trans (h.global y hy)
      packages := by
        intro _
        refine ⟨package, table, ⟨by simpa using htables.package_lt,
          by simpa using htables.loaded_lt, htables.loaded_ne, ?_, ?_⟩, fun y hy => ?_⟩
        · exact (State.field_withField_of_ne (Or.inl htables.loaded_ne.symm)).trans
            htables.isPackage
        · exact (State.field_withField_of_ne (Or.inr x.name_ne_loaded.symm)).trans htables.isLoaded
        · rw [State.field_withField_library htables.loaded_lt, Function.update_apply, hvalues y hy]
      stringIndex_eq := (stringIndex_withField s table x _).trans h.stringIndex_eq }

/-- Making the index of strings if the string library is installed. -/
theorem withStringIndex (h : Shows s globals loaded index) (x : LibraryName) (id : TableId) :
    ∃ t, Gives (if x.library.name = "string" then setStringIndex id else pure ()) s ⟨⟩ t ∧
      Shows t globals loaded (if x = .string then .table id else index) := by
  by_cases hx : x = .string
  · have hname : x.library.name = "string" := by rw [hx]; rfl
    rw [if_pos hname, if_pos hx]
    exact h.withIndex id
  · have hname : x.library.name ≠ "string" := fun heq => hx (LibraryName.eq_of_name_eq heq)
    rw [if_neg hname, if_neg hx]
    exact ⟨s, rfl, h⟩

/-- The base library leaves the view as it is. -/
theorem install_base (h : Shows s globals loaded index) :
    ∃ t, Gives (installLibrary baseLibrary) s ⟨⟩ t ∧ Shows t globals loaded index := by
  obtain ⟨t, hrun, hst, hfields, -⟩ := gives_installEntries s.globals baseLibrary.entries s
  refine ⟨t, (gives_get s).bind hrun, h.congr hst ?_⟩
  intro id n _ hn
  exact hfields id n (Or.inr hn)

/-- The new table of a library and its entries leave the view as it is. -/
theorem congr_of_new (h : Shows s globals loaded index) (hst : (s.withTable {}).Extends t)
    (hfields : ∀ other n, other ≠ ⟨s.tables.size⟩ →
      t.field other n = (s.withTable {}).field other n) :
    Shows t globals loaded index := by
  apply h.congr ((State.Extends.withTable s {}).trans hst)
  intro other n hother _
  rw [hfields other n, State.field_withTable]
  rintro rfl
  exact Nat.lt_irrefl _ hother

/-- A library other than `package` gets a new table everywhere. -/
theorem install_other (h : Shows s globals loaded index) (hpackage : globals .package ≠ .nil)
    {x : LibraryName} (hbase : x ≠ .base) (hx : x ≠ .package) :
    ∃ id t, Gives (installLibrary x.library) s ⟨⟩ t ∧
      Shows t (Function.update globals x (.table id)) (Function.update loaded x (.table id))
        (if x = .string then .table id else index) := by
  let id : TableId := ⟨s.tables.size⟩
  obtain ⟨u, hrun, hsu, hfields, -⟩ := gives_installEntries id x.library.entries (s.withTable {})
  have hu := h.congr_of_new hsu fun other n hother => hfields other n (Or.inl hother)
  have hglobal := hu.withGlobal hx (.table id)
  have hpackage' : Function.update globals x (.table id) .package ≠ .nil := by
    rw [Function.update_of_ne hx.symm]
    exact hpackage
  obtain ⟨v, hindex, hv⟩ := hglobal.withStringIndex x id
  obtain ⟨t, hlisted, ht⟩ := hv.withListed hpackage' x id
  exact ⟨id, t, gives_installLibrary (LibraryName.name_ne_globals hbase) hrun hindex hlisted, ht⟩

/-- The library `package` gets a new table everywhere, and is alone in `package.loaded`. -/
theorem install_package (h : Shows s globals loaded index) :
    ∃ id t, Gives (installLibrary packageLibrary) s ⟨⟩ t ∧
      Shows t (Function.update globals .package (.table id))
        (Function.update (fun _ => .nil) .package (.table id)) index := by
  let id : TableId := ⟨s.tables.size⟩
  have hid : id.index < (s.withTable {}).tables.size := by simp [id]
  obtain ⟨u, hrun, hsu, hfields, htables⟩ :=
    gives_installEntries id packageLibrary.entries (s.withTable {})
  have hu := h.congr_of_new hsu fun other n hother => hfields other n (Or.inl hother)
  obtain ⟨table, hnew, htable, hloaded⟩ := htables hid (by decide) "loaded"
    (List.mem_append_right _ List.mem_cons_self)
  have hid_lt : id.index < table.index := hid.trans_le hnew
  have hempty : ∀ n, u.field table n = .nil := by
    intro n
    rw [hfields table n (Or.inl fun heq => Nat.ne_of_gt hid_lt (congrArg TableId.index heq)),
      State.field_of_le hnew]
  have hne : table ≠ u.globals := by
    intro heq
    have hglobals := h.globals_lt.trans hid_lt
    rw [heq, hsu.globals_eq] at hglobals
    exact Nat.lt_irrefl _ hglobals
  have hpackage := hu.withPackage (hid_lt.trans htable) htable hne hloaded hempty
  obtain ⟨t, hlisted, ht⟩ := hpackage.withListed (by simp) .package id
  exact ⟨id, t, gives_installLibrary (by decide) hrun (gives_pure _ _) hlisted, ht⟩

/-- A library that is installed gets a new table as its global and in `package.loaded`, and if it is
`package` then nothing else is listed any more.  The string library becomes the index of strings. -/
theorem install (h : Shows s globals loaded index) (x : LibraryName)
    (hpackage : x = .package ∨ globals .package ≠ .nil) :
    ∃ id t, Gives (installLibrary x.library) s ⟨⟩ t ∧
      Shows t (Function.update globals x (.table id))
        (Function.update (if x = .package then fun _ => .nil else loaded) x (.table id))
        (if x = .string then .table id else index) := by
  by_cases hbase : x = .base
  · subst hbase
    obtain ⟨t, hrun, ht⟩ := h.install_base
    have hupdate (f : LibraryName → Value) (v : Value) (y : LibraryName) (hy : y ≠ .base) :
        Function.update f .base v y = f y := Function.update_of_ne hy v f
    exact ⟨⟨0⟩, t, hrun, ht.of_eq (hupdate globals _) (hupdate loaded _)⟩
  by_cases hx : x = .package
  · subst hx
    exact h.install_package
  · rw [if_neg hx]
    exact h.install_other (hpackage.resolve_left hx) hbase hx

end Shows

/-! ## Open and listed libraries -/

/-- A state where some libraries are open, and some of them are listed: the global of an open one is
a table, `package.loaded` has the global of a listed one and nothing else, and the index of strings
is the string library. -/
structure Tracks (s : State) (opened listed : LibraryName → Prop) : Prop where
  exists_view : ∃ globals loaded index, Shows s globals loaded index ∧
    (∀ x, opened x → ∃ id, globals x = .table id) ∧ (∀ x, ¬ opened x → globals x = .nil) ∧
    (∀ x, listed x → loaded x = globals x) ∧ (∀ x, ¬ listed x → loaded x = .nil) ∧
    (opened .string → index = globals .string)

namespace Tracks

variable {s : State} {opened listed : LibraryName → Prop}

theorem of_iff (h : Tracks s opened listed) {opened' listed' : LibraryName → Prop}
    (hopened : ∀ x, opened' x ↔ opened x) (hlisted : ∀ x, listed' x ↔ listed x) :
    Tracks s opened' listed' := by
  have hopened' : opened' = opened := funext fun x => propext (hopened x)
  have hlisted' : listed' = listed := funext fun x => propext (hlisted x)
  rw [hopened', hlisted']
  exact h

/-- Installing a library opens and lists it.  After `package` nothing else is listed. -/
theorem install (h : Tracks s opened listed) (x : LibraryName)
    (hpackage : x = .package ∨ opened .package) :
    ∃ t, Gives (installLibrary x.library) s ⟨⟩ t ∧
      Tracks t (fun y => y = x ∨ opened y) (fun y => y = x ∨ x ≠ .package ∧ listed y) := by
  obtain ⟨globals, loaded, index, hshows, hopen, hclosed, hlisted, hunlisted, hindex⟩ :=
    h.exists_view
  have hpresent : x = .package ∨ globals .package ≠ .nil := by
    apply hpackage.imp_right
    intro hp
    obtain ⟨id, hid⟩ := hopen _ hp
    rw [hid]
    exact nofun
  obtain ⟨id, t, hrun, ht⟩ := hshows.install x hpresent
  refine ⟨t, hrun, ⟨_, _, _, ht, ?_, ?_, ?_, ?_, ?_⟩⟩
  · intro y hy
    by_cases hyx : y = x
    · exact ⟨id, by rw [hyx, Function.update_self]⟩
    · rw [Function.update_of_ne hyx]
      exact hopen y (hy.resolve_left hyx)
  · intro y hy
    rw [not_or] at hy
    rw [Function.update_of_ne hy.1, hclosed y hy.2]
  · intro y hy
    by_cases hyx : y = x
    · rw [hyx, Function.update_self, Function.update_self]
    · obtain ⟨hx, hy⟩ := hy.resolve_left hyx
      rw [Function.update_of_ne hyx, Function.update_of_ne hyx, if_neg hx, hlisted y hy]
  · intro y hy
    rw [not_or, not_and] at hy
    rw [Function.update_of_ne hy.1]
    split
    · rfl
    · next hx => exact hunlisted y (hy.2 hx)
  · intro hstring
    by_cases hx : x = .string
    · rw [hx, Function.update_self, if_pos rfl]
    · rw [Function.update_of_ne (Ne.symm hx), if_neg hx]
      exact hindex (hstring.resolve_left (Ne.symm hx))

theorem installEach (h : Tracks s opened listed) (hpackage : opened .package)
    {xs : List LibraryName} (hxs : .package ∉ xs) :
    ∃ t, Gives (xs.forM fun x => installLibrary x.library) s ⟨⟩ t ∧
      Tracks t (fun y => y ∈ xs ∨ opened y) (fun y => y ∈ xs ∨ listed y) := by
  induction xs generalizing s opened listed with
  | nil => exact ⟨s, rfl, h.of_iff (by simp) (by simp)⟩
  | cons x xs ih =>
    rw [List.mem_cons, not_or] at hxs
    obtain ⟨u, hinstall, hu⟩ := h.install x (Or.inr hpackage)
    obtain ⟨t, hrest, ht⟩ := ih hu (Or.inr hpackage) hxs.2
    refine ⟨t, hinstall.bind hrest, ht.of_iff (fun y => ?_) fun y => ?_⟩
    · rw [List.mem_cons, or_assoc, or_left_comm]
    · have hx : x ≠ .package := Ne.symm hxs.1
      simp only [List.mem_cons, hx, ne_eq, not_false_eq_true, true_and]
      rw [or_assoc, or_left_comm]

theorem isNil_package (h : Tracks s opened listed) :
    (s.field s.globals "package").isNil = true ↔ ¬ opened .package := by
  obtain ⟨globals, _, _, hshows, hopen, hclosed, -⟩ := h.exists_view
  have hglobal : s.field s.globals "package" = globals .package := hshows.global .package nofun
  rw [hglobal]
  constructor
  · intro hnil hp
    obtain ⟨id, hid⟩ := hopen _ hp
    rw [hid] at hnil
    cases hnil
  · intro hp
    rw [hclosed _ hp]
    rfl

/-- Opening a library opens `package` first, unless it is there. -/
theorem openLibrary (h : Tracks s opened listed) (hpackage : opened .package → listed .package)
    (hlisted : ∀ y, listed y → opened .package) (x : LibraryName) :
    ∃ t, Gives (openLibrary x) s ⟨⟩ t ∧
      Tracks t (fun y => y = .package ∨ y = x ∨ opened y)
        (fun y => y = .package ∨ y = x ∨ x ≠ .package ∧ listed y) := by
  by_cases hx : x = .package
  · subst hx
    obtain ⟨t, hrun, ht⟩ := h.install .package (Or.inl rfl)
    exact ⟨t, hrun, ht.of_iff (fun y => by simp) fun y => by simp⟩
  · have hstart : Gives (getGlobal "package") s (s.field s.globals "package") s :=
      gives_getGlobal s "package"
    rw [LuaRuntime.openLibrary, if_pos hx]
    by_cases hp : opened .package
    · obtain ⟨t, hrun, ht⟩ := h.install x (Or.inr hp)
      have hpresent : (s.field s.globals "package").isNil ≠ true := fun hnil =>
        h.isNil_package.mp hnil hp
      refine ⟨t, hstart.bind ?_, ht.of_iff (fun y => ?_) fun y => ?_⟩
      · rw [if_neg hpresent]
        exact hrun
      · constructor
        · rintro (rfl | hy)
          · exact Or.inr hp
          · exact hy
        · exact Or.inr
      · constructor
        · rintro (rfl | hy)
          · exact Or.inr ⟨hx, hpackage hp⟩
          · exact hy
        · exact Or.inr
    · obtain ⟨u, hfirst, hu⟩ := h.install .package (Or.inl rfl)
      obtain ⟨t, hrun, ht⟩ := hu.install x (Or.inr (Or.inl rfl))
      refine ⟨t, hstart.bind ?_, ht.of_iff (fun y => ?_) fun y => ?_⟩
      · rw [if_pos (h.isNil_package.mpr hp)]
        exact hfirst.bind hrun
      · exact or_left_comm
      · have hnone : ¬ listed y := fun hy => hp (hlisted y hy)
        simp only [hx, hnone, ne_eq, not_false_eq_true, not_true_eq_false, and_false, or_false,
          true_and]
        exact or_comm

/-- Opening all libraries opens and lists every one. -/
theorem openAll (h : Tracks s opened listed) :
    ∃ t, Gives openAll s ⟨⟩ t ∧ Tracks t (fun _ => True) (fun _ => True) := by
  obtain ⟨u, hfirst, hu⟩ := h.install .package (Or.inl rfl)
  have htail : LibraryName.package ∉ allLibraries.tail := by decide
  obtain ⟨t, hrest, ht⟩ := hu.installEach (Or.inl rfl) htail
  have hall : ∀ y, y ∈ allLibraries.tail ∨ y = .package := by
    intro y
    cases y <;> decide
  refine ⟨t, hfirst.bind hrest, ht.of_iff (fun y => ?_) fun y => ?_⟩
  · rw [true_iff]
    exact (hall y).imp_right Or.inl
  · rw [true_iff]
    exact (hall y).imp_right Or.inl

end Tracks

/-! ## Sequences of openings -/

/-- A sequence of openings opens a library: alone, with all others, or as `package`, which comes
before any other one. -/
def OpenedBy (opens : List (Option LibraryName)) (x : LibraryName) : Prop :=
  (x = .package ∧ opens ≠ []) ∨ none ∈ opens ∨ some x ∈ opens

/-- A sequence of openings opens a library, and `package` is not opened alone after it. -/
def ListedBy (opens : List (Option LibraryName)) (x : LibraryName) : Prop :=
  (x = .package ∧ opens ≠ []) ∨
    ∃ before after, opens = before ++ after ∧ (none ∈ after ∨ some x ∈ after) ∧
      some .package ∉ after

section

variable {opens : List (Option LibraryName)} {o : Option LibraryName} {x : LibraryName}

theorem OpenedBy.ne_nil (h : OpenedBy opens x) : opens ≠ [] := by
  rintro rfl
  simp [OpenedBy] at h

theorem ListedBy.ne_nil (h : ListedBy opens x) : opens ≠ [] := by
  rintro rfl
  rcases h with ⟨-, hne⟩ | ⟨before, after, heq, hopens, -⟩
  · exact hne rfl
  · obtain ⟨rfl, rfl⟩ := List.append_eq_nil_iff.mp heq.symm
    simp at hopens

theorem openedBy_append_singleton :
    OpenedBy (opens ++ [o]) x ↔ x = .package ∨ (o = none ∨ o = some x) ∨ OpenedBy opens x := by
  simp only [OpenedBy, ne_eq, List.append_eq_nil_iff, List.cons_ne_nil, and_false,
    not_false_eq_true, and_true, List.mem_append, List.mem_singleton]
  grind

theorem listedBy_append_singleton :
    ListedBy (opens ++ [o]) x ↔
      x = .package ∨ (o = none ∨ o = some x) ∨ o ≠ some .package ∧ ListedBy opens x := by
  constructor
  · rintro (⟨hx, -⟩ | ⟨before, after, heq, hopens, hpackage⟩)
    · exact Or.inl hx
    · -- The last opening is part of those after the split, which are not empty.
      rcases List.eq_nil_or_concat after with rfl | ⟨after, last, rfl⟩
      · simp at hopens
      · rw [List.concat_eq_append] at heq hopens hpackage
        rw [← List.append_assoc] at heq
        obtain ⟨rfl, hlast⟩ := List.append_inj' heq rfl
        cases hlast
        rw [List.mem_append, List.mem_singleton, not_or] at hpackage
        rw [List.mem_append, List.mem_append, List.mem_singleton, List.mem_singleton] at hopens
        have hbefore (h : none ∈ after ∨ some x ∈ after) : ListedBy (before ++ after) x :=
          Or.inr ⟨before, after, rfl, h, hpackage.1⟩
        rcases hopens with (h | h) | (h | h)
        · exact Or.inr (Or.inr ⟨Ne.symm hpackage.2, hbefore (Or.inl h)⟩)
        · exact Or.inr (Or.inl (Or.inl h.symm))
        · exact Or.inr (Or.inr ⟨Ne.symm hpackage.2, hbefore (Or.inr h)⟩)
        · exact Or.inr (Or.inl (Or.inr h.symm))
  · have hfirst (hx : x = .package) : ListedBy (opens ++ [o]) x := Or.inl ⟨hx, by simp⟩
    rintro (hx | ho | ⟨ho, hx | ⟨before, after, rfl, hopens, hpackage⟩⟩)
    · exact hfirst hx
    · by_cases hx : x = .package
      · exact hfirst hx
      · refine Or.inr ⟨opens, [o], rfl, ?_, ?_⟩
        · simpa [eq_comm] using ho
        · rintro hmem
          cases List.mem_singleton.mp hmem
          rcases ho with ho | ho
          · cases ho
          · exact hx (Option.some.inj ho).symm
    · exact hfirst hx.1
    · refine Or.inr ⟨before, after ++ [o], by simp, ?_, ?_⟩
      · exact hopens.imp (List.mem_append_left _) (List.mem_append_left _)
      · rw [List.mem_append, List.mem_singleton, not_or]
        exact ⟨hpackage, Ne.symm ho⟩

end

/-- What is open and listed after one more opening. -/
theorem Tracks.openChosen {s : State} {opens : List (Option LibraryName)}
    (h : Tracks s (OpenedBy opens) (ListedBy opens)) (o : Option LibraryName) :
    ∃ t, Gives (openChosen o) s ⟨⟩ t ∧
      Tracks t (OpenedBy (opens ++ [o])) (ListedBy (opens ++ [o])) := by
  cases o with
  | none =>
    obtain ⟨t, hrun, ht⟩ := h.openAll
    refine ⟨t, hrun, ht.of_iff (fun x => ?_) fun x => ?_⟩
    · simp [openedBy_append_singleton]
    · simp [listedBy_append_singleton]
  | some x =>
    obtain ⟨t, hrun, ht⟩ := h.openLibrary (fun hp => Or.inl ⟨rfl, hp.ne_nil⟩)
      (fun y hy => Or.inl ⟨rfl, hy.ne_nil⟩) x
    refine ⟨t, hrun, ht.of_iff (fun y => ?_) fun y => ?_⟩
    · rw [openedBy_append_singleton]
      simp [eq_comm]
    · rw [listedBy_append_singleton]
      simp [eq_comm]

/-- What is open and listed after a sequence of openings, whatever was opened before. -/
theorem tracks_opens {s : State} {before : List (Option LibraryName)}
    (h : Tracks s (OpenedBy before) (ListedBy before)) (opens : List (Option LibraryName)) :
    ∃ t, Gives (opens.forM openChosen) s ⟨⟩ t ∧
      Tracks t (OpenedBy (before ++ opens)) (ListedBy (before ++ opens)) := by
  induction opens generalizing s before with
  | nil => exact ⟨s, rfl, by rwa [List.append_nil]⟩
  | cons o opens ih =>
    obtain ⟨u, hfirst, hu⟩ := h.openChosen o
    obtain ⟨t, hrest, ht⟩ := ih hu
    refine ⟨t, hfirst.bind hrest, ?_⟩
    rwa [List.append_assoc, List.singleton_append] at ht

/-- After any sequence of openings, the global of each library that was opened is a table, and the
index of strings is that of the string library.  If `package` was not opened alone after it, then
`package.loaded` has the same table and `require` returns it; else `package.loaded` has nothing. -/
theorem open_libraries_are_listed (limits : Limits) (sink : Sink) (now : Int)
    (opens : List (Option LibraryName)) :
    ∃ t, Gives (opens.forM openChosen) (State.initial limits sink now) ⟨⟩ t ∧
      (∀ x : LibraryName, x ≠ .base → OpenedBy opens x →
        ∃ id loaded, t.field t.globals x.library.name = .table id ∧
          t.packageTable? "loaded" = some loaded ∧
          (ListedBy opens x → t.field loaded x.library.name = .table id ∧
            ∀ call, requireModule call x.library.name t = (.ok (.table id), t)) ∧
          (¬ ListedBy opens x → t.field loaded x.library.name = .nil)) ∧
      (OpenedBy opens .string → ∃ mt id, t.stringMetatable = some mt ∧
        t.field mt "__index" = .table id ∧ t.field t.globals "string" = .table id) := by
  have hinitial : Tracks (State.initial limits sink now) (OpenedBy []) (ListedBy []) :=
    ⟨_, _, _, shows_initial limits sink now, fun _ h => absurd rfl h.ne_nil, fun _ _ => rfl,
      fun _ _ => rfl, fun _ _ => rfl, fun h => absurd rfl h.ne_nil⟩
  obtain ⟨t, hrun, ht⟩ := tracks_opens hinitial opens
  obtain ⟨globals, loaded, index, hshows, hopen, -, hlisted, hunlisted, hindex⟩ := ht.exists_view
  refine ⟨t, hrun, ?_, ?_⟩
  · intro x hbase hx
    obtain ⟨id, hid⟩ := hopen x hx
    have hpackage : globals .package ≠ .nil := by
      obtain ⟨package, hp⟩ := hopen .package (Or.inl ⟨rfl, hx.ne_nil⟩)
      rw [hp]
      exact nofun
    obtain ⟨package, table, htables, hvalues⟩ := hshows.packages hpackage
    refine ⟨id, table, (hshows.global x hbase).trans hid, htables.packageTable?_eq, ?_, ?_⟩
    · intro hx
      have hentry : t.field table x.library.name = .table id := by
        rw [hvalues x hbase, hlisted x hx, hid]
      exact ⟨hentry, requireModule_of_loaded (hshows.unregistered _) htables.packageTable?_eq hentry
        nofun⟩
    · intro hx
      rw [hvalues x hbase, hunlisted x hx]
  · intro hstring
    obtain ⟨id, hid⟩ := hopen .string hstring
    have hvalue := hshows.stringIndex_eq.trans ((hindex hstring).trans hid)
    rw [State.stringIndex] at hvalue
    split at hvalue
    · next mt hmt => exact ⟨mt, id, hmt, hvalue, (hshows.global .string nofun).trans hid⟩
    · cases hvalue

/-- A library that was opened before `package` is not listed any more, and cannot be required. -/
theorem math_is_lost :
    OpenedBy [some .math, some .package] .math ∧
      ∃ t, Gives ([some LibraryName.math, some .package].forM openChosen)
          (State.initial {} .keep 0) ⟨⟩ t ∧
        t.field t.globals "math" = .table ⟨4⟩ ∧ t.packageTable? "loaded" = some ⟨6⟩ ∧
        t.field ⟨6⟩ "math" = .nil ∧
        (requireModule (invoke 1) "math" t).1 = .error (.moduleMissing "math") := by
  have hrun : (([some LibraryName.math, some .package].forM openChosen : Action Unit)
      (State.initial {} .keep 0)).1 = .ok () := by decide +kernel
  refine ⟨Or.inr (Or.inr List.mem_cons_self), _, gives_of_fst_eq hrun, ?_⟩
  decide +kernel

end LuaRuntime
