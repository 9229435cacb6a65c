import LuaRuntime.Proofs.Library.ModulePath
import LuaRuntime.Proofs.Machine.CallDepth

/-!
# Requiring a module

A name is looked up among the registered modules, then in `package.loaded`, and at last its loader
is run.  What the loader returns is entered in `package.loaded` before it is linked.

So a name that was required once needs its loader no more, as long as `package.loaded` is the same
table afterwards: the entry is there, or a registered module is found before it.  The values agree
unless the loader registered a module of that name and returned something else
(`require_again_gives_the_same`).
-/

namespace LuaRuntime

/-! ## The steps of `require` -/

namespace State

/-- The table in a field of the global `package`, if it is one. -/
def packageTable? (s : State) (field : String) : Option TableId :=
  match s.field s.globals "package" with
  | .table package =>
      match s.field package field with
      | .table id => some id
      | _ => none
  | _ => none

/-- The value in a table that may be absent. -/
def fieldIn (s : State) (table : Option TableId) (name : String) : Value :=
  match table with
  | some id => s.field id name
  | none => .nil

/-- The loader that `package.preload` has for a name. -/
def loaderOf (s : State) (name : String) : Value := s.fieldIn (s.packageTable? "preload") name

/-- What is entered in `package.loaded` for what a loader returned. -/
def loadedResult (s : State) (loaded : TableId) (name : String) (result : Value) : Value :=
  if !result.isNil then result
  else if (s.field loaded name).isNil then .boolean true
  else s.field loaded name

theorem loadedResult_ne_nil (s : State) (loaded : TableId) (name : String) (result : Value) :
    s.loadedResult loaded name result ≠ .nil := by
  rw [loadedResult]
  cases result with
  | nil =>
    cases hfield : s.field loaded name <;> simp [Value.isNil]
  | _ => simp [Value.isNil]

end State

/-- Links a value if it is a table, and returns it. -/
def linkResult (name : String) (result : Value) : Action Value := do
  if let .table module := result then linkModule name module
  return result

theorem linkResult_table (name : String) (module : TableId) (s : State) :
    linkResult name (.table module) s =
      (linkBelow module name (Path.parts name) s.globals >>= fun _ => pure (.table module)) s := rfl

theorem gives_packageTable? (s : State) (field : String) :
    Gives (packageTable? field) s (s.packageTable? field) s := by
  refine (gives_getGlobal s "package").bind ?_
  rw [State.packageTable?]
  cases s.field s.globals "package" with
  | table package =>
    refine (gives_getField s package field).bind ?_
    dsimp only
    cases s.field package field <;> rfl
  | _ => rfl

/-- Linking a value fails on a blocked path and changes nothing.  Else it changes tables only, and
keeps every entry of the value under the whole name. -/
theorem linkResult_cases (name : String) (result : Value) (s : State) :
    (Blocked s s.globals (Path.parts name) ∧ (∃ module, result = .table module) ∧
        linkResult name result s = (.error (.moduleConflict name), s)) ∨
      ∃ t, linkResult name result s = (.ok result, t) ∧ s.SameButTables t ∧
        ∀ id, s.field id name = result → t.field id name = result := by
  cases result with
  | table module =>
    obtain ⟨hsame, hfields⟩ := linkBelow_frame module name (Path.parts name) s.globals s
    rw [linkResult_table, bind_run]
    rcases linkBelow_cases module name (Path.parts name) s.globals s with
      ⟨hblocked, heq⟩ | ⟨-, t, heq⟩
    · exact Or.inl ⟨hblocked, ⟨module, rfl⟩, by rw [heq]⟩
    · rw [heq] at hsame hfields
      refine Or.inr ⟨t, by rw [heq]; rfl, hsame, fun id hid => ?_⟩
      by_cases hmem : name ∈ Path.parts name
      · -- A name without a dot is linked under that very name.
        rw [Path.parts_eq_singleton hmem] at heq
        cases heq
        rcases State.field_withField_cases s s.globals name (.table module) id name with h | h
        · exact h
        · exact h.trans hid
      · exact (hfields id name hmem).trans hid
  | _ => exact Or.inr ⟨s, rfl, ⟨Nat.le_refl _, rfl⟩, fun _ h => h⟩

/-- What is done once the loader is known. -/
theorem runLoader_run (call : Invoke) (name : String) (loaded : Option TableId) (loader : Value)
    (s : State) :
    (do
      if loader.isNil then throw (.moduleMissing name)
      else
        let result ← callFirst call loader [.string name]
        let result ←
          match loaded with
          | some loaded => registerLoaded name loaded result
          | none => pure result
        if let .table module := result then linkModule name module
        return result : Action Value) s =
      if loader.isNil then (.error (.moduleMissing name), s)
      else
        match callFirst call loader [.string name] s, loaded with
        | (.error e, u), _ => (.error e, u)
        | (.ok result, u), none => linkResult name result u
        | (.ok result, u), some loaded =>
            linkResult name (u.loadedResult loaded name result)
              (u.withField loaded name (u.loadedResult loaded name result)) := by
  split
  · rfl
  · rw [bind_run]
    rcases callFirst call loader [.string name] s with ⟨result, u⟩
    cases result with
    | error e => rfl
    | ok result => cases loaded <;> rfl

theorem preload_run (call : Invoke) (name : String) (loaded : Option TableId) (s : State) :
    preload call name loaded s =
      if (s.loaderOf name).isNil then (.error (.moduleMissing name), s)
      else
        match callFirst call (s.loaderOf name) [.string name] s, loaded with
        | (.error e, u), _ => (.error e, u)
        | (.ok result, u), none => linkResult name result u
        | (.ok result, u), some loaded =>
            linkResult name (u.loadedResult loaded name result)
              (u.withField loaded name (u.loadedResult loaded name result)) := by
  rw [← runLoader_run, preload, bind_run, gives_packageTable?, State.loaderOf]
  dsimp only
  cases s.packageTable? "preload" <;> rfl

theorem requireModule_run (call : Invoke) (name : String) (s : State) :
    requireModule call name s =
      match s.modules[name]? with
      | some module => linkResult name (.table module) s
      | none =>
          if (s.fieldIn (s.packageTable? "loaded") name).isNil then
            preload call name (s.packageTable? "loaded") s
          else (.ok (s.fieldIn (s.packageTable? "loaded") name), s) := by
  rw [requireModule, bind_run, gives_get]
  dsimp only
  cases s.modules[name]? with
  | some module => rfl
  | none =>
    dsimp only
    rw [bind_run, gives_packageTable?]
    dsimp only
    cases s.packageTable? "loaded" with
    | none => rfl
    | some loaded =>
      have hfield : s.fieldIn (some loaded) name = s.field loaded name := rfl
      dsimp only
      rw [bind_run, gives_getField, hfield]
      dsimp only
      split <;> rfl

/-! ## Requiring again -/

/-- Requires a module a number of times in a row, and gathers the results. -/
def requireTimes (call : Invoke) (name : String) :
    Nat → State → List (Except Error Value) × State
  | 0, s => ([], s)
  | count + 1, s =>
      let (result, t) := requireModule call name s
      let (results, u) := requireTimes call name count t
      (result :: results, u)

/-- A name is neither registered nor in `package.loaded`, which is a table. -/
structure State.Unloaded (s : State) (name : String) (loaded : TableId) : Prop where
  unregistered : s.modules[name]? = none
  isLoaded : s.packageTable? "loaded" = some loaded
  exists_loaded : loaded.index < s.tables.size
  absent : s.field loaded name = .nil

section

variable {name : String} {s t : State}

/-- If requiring calls no function in any state of a kind, and leaves such a state, then requiring
any number of times calls none. -/
theorem requireTimes_of_step {P : State → Prop} {Q : Except Error Value → Prop}
    (hstep : ∀ s, P s → ∃ result t, (∀ call, requireModule call name s = (result, t)) ∧
      Q result ∧ P t) (hs : P s) (count : Nat) :
    ∃ results t, (∀ call, requireTimes call name count s = (results, t)) ∧
      results.length = count ∧ ∀ result ∈ results, Q result := by
  induction count generalizing s with
  | zero => exact ⟨[], s, fun _ => rfl, rfl, fun _ h => absurd h List.not_mem_nil⟩
  | succ count ih =>
    obtain ⟨result, t, hrun, hresult, ht⟩ := hstep s hs
    obtain ⟨results, u, hruns, hlength, hresults⟩ := ih ht
    refine ⟨result :: results, u, fun call => ?_, by rw [List.length_cons, hlength],
      List.forall_mem_cons.mpr ⟨hresult, hresults⟩⟩
    rw [requireTimes, hrun call]
    dsimp only
    rw [hruns call]

/-- A registered module is linked again, and no function is called. -/
theorem requireModule_of_registered {module : TableId} (h : s.modules[name]? = some module)
    (call : Invoke) : requireModule call name s = linkResult name (.table module) s := by
  rw [requireModule_run, h]

/-- What `package.loaded` has for a name that is not registered is the answer. -/
theorem requireModule_of_loaded {loaded : TableId} {r : Value} (hregistry : s.modules[name]? = none)
    (hloaded : s.packageTable? "loaded" = some loaded) (hfield : s.field loaded name = r)
    (hr : r ≠ .nil) (call : Invoke) : requireModule call name s = (.ok r, s) := by
  have hnil : r.isNil = false := by cases r <;> first | rfl | exact absurd rfl hr
  have hfound : s.fieldIn (some loaded) name = r := hfield
  rw [requireModule_run, hregistry, hloaded]
  dsimp only
  rw [hfound, hnil, if_neg Bool.false_ne_true]

/-- What the first `require` of a name returns is no nil, and stands in `package.loaded`. -/
theorem field_of_requireModule {call : Invoke}
    (hcall : ∀ f args (u : State), u.tables.size ≤ (call f args u).2.tables.size)
    {loaded : TableId} {r : Value} (hs : s.Unloaded name loaded)
    (hrun : requireModule call name s = (.ok r, t)) :
    r ≠ .nil ∧ t.field loaded name = r := by
  have hnil : (s.fieldIn (some loaded) name).isNil = true := by
    show (s.field loaded name).isNil = true
    rw [hs.absent]
    rfl
  rw [requireModule_run, hs.unregistered, hs.isLoaded] at hrun
  dsimp only at hrun
  rw [if_pos hnil, preload_run] at hrun
  split at hrun
  · cases hrun
  · have hsize :
        s.tables.size ≤ (callFirst call (s.loaderOf name) [.string name] s).2.tables.size :=
      frame_tables.programmed (programmed_callFirst (s.loaderOf name) [.string name]) hcall s
    generalize callFirst call (s.loaderOf name) [.string name] s = run at hrun hsize
    obtain ⟨result, u⟩ := run
    cases result with
    | error e => cases hrun
    | ok result =>
      dsimp only at hrun hsize
      rcases linkResult_cases name (u.loadedResult loaded name result)
        (u.withField loaded name (u.loadedResult loaded name result)) with
        ⟨-, -, heq⟩ | ⟨t', heq, -, hkeeps⟩
      · cases heq.symm.trans hrun
      · cases heq.symm.trans hrun
        exact ⟨u.loadedResult_ne_nil loaded name result,
          hkeeps loaded (State.field_withField_self (hs.exists_loaded.trans_le hsize))⟩

/-- A registered module that its path leads to is the answer, and its path still leads to it. -/
theorem requireModule_of_pathTo {module : TableId} (hregistry : s.modules[name]? = some module)
    (hpath : PathTo s s.globals (Path.parts name) module) :
    ∃ t, (∀ call, requireModule call name s = (.ok (.table module), t)) ∧
      t.modules[name]? = some module ∧ PathTo t t.globals (Path.parts name) module := by
  obtain ⟨t, hlink, hfields⟩ := hpath.linkBelow_eq module name (Path.parts_ne_nil name)
  have hsame : s.SameButTables t := by
    have h := (linkBelow_frame module name (Path.parts name) s.globals s).1
    rwa [hlink] at h
  refine ⟨t, fun call => ?_, ?_, ?_⟩
  · rw [requireModule_of_registered hregistry, linkResult_table, bind_run, hlink]
    rfl
  · rw [hsame.modules_eq, hregistry]
  · rw [hsame.globals_eq]
    exact hpath.congr hfields

/-- What `package.loaded` has for a name that is not registered is the answer each time. -/
theorem requireTimes_of_loaded {loaded : TableId} {r : Value} (hregistry : s.modules[name]? = none)
    (hloaded : s.packageTable? "loaded" = some loaded) (hfield : s.field loaded name = r)
    (hr : r ≠ .nil) (count : Nat) :
    ∃ results t, (∀ call, requireTimes call name count s = (results, t)) ∧
      results.length = count ∧ ∀ result ∈ results, result = .ok r := by
  refine requireTimes_of_step (P := fun u => u = s) ?_ rfl count
  rintro u rfl
  exact ⟨.ok r, u, requireModule_of_loaded hregistry hloaded hfield hr, rfl, rfl⟩

/-- The answers for a registered name are its module and conflicts of its path. -/
theorem requireTimes_of_registered {module : TableId} (h : s.modules[name]? = some module)
    (count : Nat) :
    ∃ results t, (∀ call, requireTimes call name count s = (results, t)) ∧
      results.length = count ∧ ∀ result ∈ results,
        result = .ok (.table module) ∨ result = .error (.moduleConflict name) := by
  refine requireTimes_of_step (P := fun u => u.modules[name]? = some module) ?_ h count
  intro u hu
  rcases linkResult_cases name (.table module) u with ⟨-, -, heq⟩ | ⟨v, heq, hsame, -⟩
  · exact ⟨_, u, fun call => (requireModule_of_registered hu call).trans heq, Or.inr rfl, hu⟩
  · refine ⟨_, v, fun call => (requireModule_of_registered hu call).trans heq, Or.inl rfl, ?_⟩
    rw [hsame.modules_eq, hu]

/-- A registered module that its path leads to is the answer each time. -/
theorem requireTimes_of_pathTo {module : TableId} (hregistry : s.modules[name]? = some module)
    (hpath : PathTo s s.globals (Path.parts name) module) (count : Nat) :
    ∃ results t, (∀ call, requireTimes call name count s = (results, t)) ∧
      results.length = count ∧ ∀ result ∈ results, result = .ok (.table module) := by
  refine requireTimes_of_step (P := fun u => u.modules[name]? = some module ∧
    PathTo u u.globals (Path.parts name) module) ?_ ⟨hregistry, hpath⟩ count
  rintro u ⟨hu, hpath⟩
  obtain ⟨v, hruns, hv⟩ := requireModule_of_pathTo hu hpath
  exact ⟨_, v, hruns, rfl, hv⟩

/-- After a `require` that succeeded with `package.loaded` in place, requiring the name again calls
no function, however often.  An unregistered name gives the same value again.  A registered one
gives its module, which is the same value if the module is, and its path leads to it. -/
theorem require_again_gives_the_same {remaining : Nat} {loaded : TableId} {r : Value}
    (hs : s.Unloaded name loaded)
    (hrun : requireModule (invoke remaining) name s = (.ok r, t))
    (hkept : t.packageTable? "loaded" = some loaded) :
    (∀ count, ∃ results u, (∀ call, requireTimes call name count t = (results, u)) ∧
        results.length = count ∧ ∀ result ∈ results,
          match t.modules[name]? with
          | none => result = .ok r
          | some module => result = .ok (.table module) ∨ result = .error (.moduleConflict name)) ∧
      ((∀ module, t.modules[name]? = some module →
          r = .table module ∧ PathTo t t.globals (Path.parts name) module) →
        ∀ count, ∃ u, ∀ call,
          requireTimes call name count t = (List.replicate count (.ok r), u)) ∧
      ((∀ x, r = .number x → x.isNaN = false) → r.rawEqual r = true) := by
  obtain ⟨hr, hentry⟩ := field_of_requireModule (tables_invoke remaining) hs hrun
  refine ⟨fun count => ?_, fun hmodule count => ?_, Key.rawEqual_self⟩
  · cases h : t.modules[name]? with
    | none => exact requireTimes_of_loaded h hkept hentry hr count
    | some module => exact requireTimes_of_registered h count
  · have hsame : ∃ results u, (∀ call, requireTimes call name count t = (results, u)) ∧
        results.length = count ∧ ∀ result ∈ results, result = .ok r := by
      cases h : t.modules[name]? with
      | none => exact requireTimes_of_loaded h hkept hentry hr count
      | some module =>
        obtain ⟨rfl, hpath⟩ := hmodule module h
        exact requireTimes_of_pathTo h hpath count
    obtain ⟨results, u, hruns, hlength, hresults⟩ := hsame
    refine ⟨u, fun call => ?_⟩
    rw [hruns call, List.eq_replicate_iff.mpr ⟨hlength, hresults⟩]

end

/-- A state with a loader for each of some names. -/
def preloading : State :=
  { State.initial {} .keep 0 with
    tables := #[
      ({} : Table) |>.setString "_G" (.table ⟨0⟩) |>.setString "_NAME" (.table ⟨0⟩)
        |>.setString "package" (.table ⟨1⟩),
      ({} : Table) |>.setString "loaded" (.table ⟨2⟩) |>.setString "preload" (.table ⟨3⟩),
      {},
      ({} : Table) |>.setString "own" (.function ⟨0⟩) |>.setString "other" (.function ⟨1⟩)
        |>.setString "unequal" (.function ⟨2⟩) |>.setString "package.loaded" (.function ⟨3⟩)
        |>.setString "_G._NAME._G" (.function ⟨4⟩)],
    functions := #[
      ⟨"own", .script false [.apply (.createModule "own") []]⟩,
      ⟨"other", .script false [.apply (.createModule "other") [], .boolean false]⟩,
      ⟨"unequal", .script false [.number ⟨0x7ff8000000000000⟩]⟩,
      ⟨"replacing", .script false [.table none []]⟩,
      ⟨"turning", .script false [
        .assign "globals" (.apply (.global "_G") []),
        .assign "module" (.apply (.createModule "_G._NAME._G") []),
        .apply (.setString "_G") [.read "globals", .read "globals"],
        .read "module"]⟩] }

/-- A loader that registers a module and returns it is not run again. -/
theorem preloading_gives_the_same :
    ∃ t, requireModule (invoke 1) "own" preloading = (.ok (.table ⟨4⟩), t) ∧
      ∀ count, ∃ u, ∀ call, requireTimes call "own" count t =
        (List.replicate count (.ok (.table ⟨4⟩)), u) := by
  have hstart : preloading.Unloaded "own" ⟨2⟩ :=
    ⟨by decide +kernel, by decide +kernel, by decide, by decide +kernel⟩
  let t := (requireModule (invoke 1) "own" preloading).2
  have hrun : requireModule (invoke 1) "own" preloading = (.ok (.table ⟨4⟩), t) :=
    gives_of_fst_eq (by decide +kernel)
  have hregistry : t.modules["own"]? = some ⟨4⟩ := by decide +kernel
  have hparts : Path.parts "own" = ["own"] := by decide +kernel
  have hpath : PathTo t t.globals (Path.parts "own") ⟨4⟩ := by
    rw [hparts]
    exact .step (by decide +kernel) .here
  refine ⟨t, hrun, (require_again_gives_the_same hstart hrun (by decide +kernel)).2.1 ?_⟩
  intro module hmodule
  cases hregistry.symm.trans hmodule
  exact ⟨rfl, hpath⟩

/-- A loader may register a module and return something else, or return what is not equal to
itself.  Linking may replace `package.loaded`, and it may turn the path of the module. -/
theorem preloading_gives_another :
    (∀ name ∈ ["other", "unequal", "package.loaded", "_G._NAME._G"],
      preloading.Unloaded name ⟨2⟩ ∧ preloading.packageTable? "preload" = some ⟨3⟩ ∧
        (callFirst (invoke 1) (preloading.loaderOf name) [.string name] preloading).2.packageTable?
          "loaded" = some ⟨2⟩) ∧
      (requireTimes (invoke 1) "other" 2 preloading).1 =
        [.ok (.boolean false), .ok (.table ⟨4⟩)] ∧
      (requireTimes (invoke 1) "unequal" 2 preloading).1 =
        [.ok (.number ⟨0x7ff8000000000000⟩), .ok (.number ⟨0x7ff8000000000000⟩)] ∧
      (Value.number ⟨0x7ff8000000000000⟩).rawEqual (.number ⟨0x7ff8000000000000⟩) = false ∧
      (requireTimes (invoke 1) "package.loaded" 2 preloading).1 =
        [.ok (.table ⟨4⟩), .ok (.table ⟨5⟩)] ∧
      (requireTimes (invoke 1) "_G._NAME._G" 2 preloading).1 =
        [.ok (.table ⟨4⟩), .error (.moduleConflict "_G._NAME._G")] := by
  refine ⟨fun name hname => ⟨⟨?_, ?_, by decide, ?_⟩, ?_, ?_⟩, ?_, ?_, ?_, ?_, ?_⟩
  · revert name; decide +kernel
  · decide +kernel
  · revert name; decide +kernel
  · decide +kernel
  · revert name; decide +kernel
  all_goals decide +kernel

end LuaRuntime
