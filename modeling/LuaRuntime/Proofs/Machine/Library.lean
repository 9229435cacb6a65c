import LuaRuntime.Library.Catalogue
import LuaRuntime.Library.Environment
import LuaRuntime.Library.String
import LuaRuntime.Library.Table
import LuaRuntime.Proofs.Machine.Operators

/-!
# The library as programs

Every function of the library is a program.  Comparisons, replacements, initializers, loaders and
handlers are calls in it like any other.
-/

namespace LuaRuntime

/-! ## Tables -/

theorem programmed_concatItems (args : List Value) : Programmed fun _ => concatItems args := by
  refine .bind (.lift _) fun id => .bind (.lift _) fun separator => ?_
  refine .bind (programmed_tableItemCount id) fun count => ?_
  refine .bind (.lift _) fun first => .bind (.lift _) fun last => ?_
  exact .bind (programmed_getTable id) fun t => .bind (.lift _) fun _ => .pure _

theorem programmed_insertAt (args : List Value) : Programmed fun _ => insertAt args := by
  refine .bind (.lift _) fun id => .bind (programmed_tableItemCount id) fun count => ?_
  split
  · exact programmed_insertItem _ _ _
  · exact .bind (.lift _) fun position => .ite (.throw _) (programmed_insertItem _ _ _)
  · exact .throw _

theorem programmed_removeAt (args : List Value) : Programmed fun _ => removeAt args := by
  refine .bind (.lift _) fun id => .bind (programmed_tableItemCount id) fun count => ?_
  refine .ite (.pure _) (.bind (.lift _) fun position => .ite (.pure _) ?_)
  exact .bind (programmed_removeItem _ _) fun _ => .pure _

theorem programmed_sortLess (comparison a b : Value) :
    Programmed fun invoke => sortLess invoke comparison a b :=
  .ite (programmed_lessThan a b) (.bind (programmed_callFirst comparison [a, b]) fun _ => .pure _)

section

variable {α : Type} {less : Invoke → α → α → Action Bool}

theorem programmed_merge (hless : ∀ a b, Programmed fun invoke => less invoke a b)
    (left right : List α) : Programmed fun invoke => MergeSort.merge (less invoke) left right := by
  induction left generalizing right with
  | nil =>
    simp only [MergeSort.merge]
    exact .pure right
  | cons x left ihleft =>
    induction right with
    | nil =>
      simp only [MergeSort.merge]
      exact .pure _
    | cons y right ihright =>
      simp only [MergeSort.merge]
      refine .bind (hless y x) fun answer => .ite ?_ ?_
      · exact .bind ihright fun _ => .pure _
      · exact .bind (ihleft (y :: right)) fun _ => .pure _

theorem programmed_mergePass (hless : ∀ a b, Programmed fun invoke => less invoke a b)
    (width : Nat) (items : Array α) (count start : Nat) :
    Programmed fun invoke => MergeSort.mergePass (less invoke) width items count start := by
  induction count generalizing start with
  | zero => exact .pure []
  | succ count ih =>
    exact .ite (.bind (programmed_merge hless _ _) fun _ => .bind (ih _) fun _ => .pure _)
      (.pure [])

theorem programmed_sortRuns (hless : ∀ a b, Programmed fun invoke => less invoke a b)
    (passes width : Nat) (items : List α) :
    Programmed fun invoke => MergeSort.sortRuns (less invoke) passes width items := by
  induction passes generalizing width items with
  | zero => exact .pure items
  | succ passes ih =>
    exact .ite (.bind (programmed_mergePass hless _ _ _ _) fun merged => ih _ merged) (.pure items)

end

theorem programmed_sortTable (args : List Value) :
    Programmed fun invoke => sortTable invoke args := by
  refine .bind (.lift _) fun id => .ite (.throw _) ?_
  refine .bind (programmed_tableItems id) fun items => .ite (.pure _) ?_
  refine .bind (programmed_sortRuns (programmed_sortLess _) _ _ _) fun sorted => ?_
  exact .change (.edit id (.replace sorted))

theorem programmed_runTable (f : TableFunction) (args : List Value) :
    Programmed fun invoke => runTable invoke f args := by
  cases f with
  | concat => exact .bind (programmed_concatItems args) fun _ => .pure _
  | length => exact .bind (.lift _) fun id => .bind (programmed_tableLength id) fun _ => .pure _
  | insert => exact .bind (programmed_insertAt args) fun _ => .pure _
  | greatestKey => exact .bind (.lift _) fun id => .bind (programmed_getTable id) fun _ => .pure _
  | remove => exact programmed_removeAt args
  | sort => exact .bind (programmed_sortTable args) fun _ => .pure _

/-! ## Strings -/

theorem programmed_repeatString (args : List Value) : Programmed fun _ => repeatString args := by
  refine .bind (.lift _) fun s => .bind (.lift _) fun count => .bind (.lift _) fun separator => ?_
  refine .ite (.pure _) ?_
  dsimp only
  split
  · exact .throw _
  · refine .get_bind (fun state => ?_) fun _ _ => rfl
    exact .ite (.throw _) (.ite (.throw _) (.pure _))

theorem readPattern_run (engine : Regex.Engine) (source : String) (s : State) :
    readPattern engine source s =
      ((s.patterns.read (CompiledPattern.new engine) source).1.mapError .pattern,
        { s with patterns := (s.patterns.read (CompiledPattern.new engine) source).2 }) := by
  rw [readPattern, bind_run, gives_get]
  dsimp only
  rcases s.patterns.read (CompiledPattern.new engine) source with ⟨reading, patterns⟩
  cases reading <;> rfl

theorem programmed_readPattern (source : String) :
    Programmed fun _ => readPattern Regex.backtracking source := by
  refine ⟨.pattern source fun reading => .done (reading.mapError .pattern), fun _ => ?_⟩
  funext s
  exact (readPattern_run Regex.backtracking source s).symm

theorem readFormat_run (source : String) (s : State) :
    readFormat source s =
      ((s.formats.read Format.parse source).1.mapError .format,
        { s with formats := (s.formats.read Format.parse source).2 }) := by
  rw [readFormat, bind_run, gives_get]
  dsimp only
  rcases s.formats.read Format.parse source with ⟨reading, formats⟩
  cases reading <;> rfl

theorem programmed_readFormat (source : String) : Programmed fun _ => readFormat source := by
  refine ⟨.format source fun reading => .done (reading.mapError .format), fun _ => ?_⟩
  funext s
  exact (readFormat_run source s).symm

theorem programmed_findIn (args : List Value) :
    Programmed fun _ => findIn Regex.backtracking args := by
  refine .bind (.lift _) fun s => .bind (.lift _) fun source => .bind (.lift _) fun position => ?_
  dsimp only
  split
  · exact .pure _
  · refine .ite (.pure _) (.bind (programmed_readPattern source) fun p => ?_)
    split <;> exact .pure _

theorem programmed_matchIn (args : List Value) :
    Programmed fun _ => matchIn Regex.backtracking args := by
  refine .bind (.lift _) fun s => .bind (.lift _) fun source => .bind (.lift _) fun position => ?_
  dsimp only
  split
  · exact .pure _
  · refine .bind (programmed_readPattern source) fun p => ?_
    split <;> exact .pure _

theorem programmed_allMatchesIn (args : List Value) :
    Programmed fun _ => allMatchesIn Regex.backtracking args := by
  refine .bind (.lift _) fun text => .bind (.lift _) fun source => ?_
  refine .bind (programmed_readPattern source) fun pattern => ?_
  exact .bind (programmed_newFunction _) fun _ => .pure _

theorem programmed_stepMatches (self : FunctionId) (walk : MatchWalk) :
    Programmed fun _ => stepMatches self walk := by
  unfold stepMatches
  split
  · exact .bind (programmed_setBody self _) fun _ => .pure _
  · exact .bind (programmed_setBody self _) fun _ => .pure _

theorem programmed_replacementApply (s : String) (r : Replacement) (m : Match) :
    Programmed fun invoke => r.apply invoke s m := by
  cases r with
  | template source =>
    unfold Replacement.apply
    dsimp only
    split
    · exact .pure _
    · exact .throw _
  | lookup table => exact .bind (programmed_index table _) fun _ => .lift _
  | compute function => exact .bind (programmed_callFirst function _) fun _ => .lift _

theorem programmed_replaceIn (args : List Value) :
    Programmed fun invoke => replaceIn Regex.backtracking invoke args := by
  refine .bind (.lift _) fun s => .bind (.lift _) fun source => ?_
  refine .bind (.lift _) fun replacement => .bind (.lift _) fun cap => ?_
  refine .bind (programmed_readPattern source) fun p => ?_
  refine .bind (.mapM (fun m => ?_) _) fun _ => .pure _
  exact .bind (programmed_replacementApply s replacement m) fun _ => .pure _

theorem programmed_followPath (fields : List String) (v : Value) :
    Programmed fun invoke => followPath invoke fields v := by
  induction fields generalizing v with
  | nil => exact .pure v
  | cons field rest ih =>
    unfold followPath
    split
    · exact .bind (programmed_index _ _) fun found => ih found
    · exact .throw _

theorem programmed_resolveReference (values : Array Value) (written : Nat)
    (reference : Reference) :
    Programmed fun invoke => resolveReference invoke values written reference := by
  cases reference with
  | next => exact .lift _
  | position n => exact .lift _
  | path fields =>
    exact .bind (.lift _) fun first => .bind (programmed_followPath fields first.1) fun _ => .pure _

theorem programmed_renderDirective (d : Directive) (v : Value) (position : Nat) :
    Programmed fun invoke => renderDirective invoke d v position := by
  unfold renderDirective
  split
  · exact .bind (programmed_text v) fun _ => .pure _
  · exact .bind (programmed_text v) fun _ => .pure _
  · split
    · exact .throw _
    · split
      · exact .pure _
      · exact .throw _

theorem programmed_renderSegments (values : Array Value) (segments : List Segment)
    (written : Nat) : Programmed fun invoke => renderSegments invoke values written segments := by
  induction segments generalizing written with
  | nil => exact .pure []
  | cons segment rest ih =>
    cases segment with
    | literal s => exact .bind (ih written) fun _ => .pure _
    | directive d =>
      refine .bind (programmed_resolveReference values written d.reference) fun found => ?_
      refine .bind (programmed_renderDirective d found.1 found.2) fun field => ?_
      exact .bind (ih _) fun _ => .pure _

theorem programmed_formatValues (args : List Value) :
    Programmed fun invoke => formatValues invoke args := by
  refine .bind (.lift _) fun source => .bind (programmed_readFormat source) fun format => ?_
  exact .bind (programmed_renderSegments _ format.segments 0) fun _ => .pure _

theorem programmed_runString (f : StringFunction) (args : List Value) :
    Programmed fun invoke => runString Regex.backtracking invoke f args := by
  cases f with
  | find => exact programmed_findIn args
  | format => exact .bind (programmed_formatValues args) fun _ => .pure _
  | gmatch => exact .bind (programmed_allMatchesIn args) fun _ => .pure _
  | gsub => exact programmed_replaceIn args
  | firstMatch => exact programmed_matchIn args
  | rep => exact .bind (programmed_repeatString args) fun _ => .pure _
  | byte => exact .lift _
  | _ => exact .bind (.lift _) fun _ => .pure _

/-! ## Numbers -/

theorem programmed_drawWord : Programmed fun _ => drawWord :=
  ⟨.read fun s => .change (.setRandom (nextRandom s.random))
    (.done (.ok ((nextRandom s.random).toNat / halfWordCount))), fun _ => rfl⟩

theorem programmed_drawBelow (bound : Nat) : Programmed fun _ => drawBelow bound :=
  .bind programmed_drawWord fun _ => .bind programmed_drawWord fun _ => .pure _

theorem programmed_drawBetween (low high : Int) : Programmed fun _ => drawBetween low high :=
  .ite (.throw _) (.bind (programmed_drawBelow _) fun _ => .pure _)

theorem programmed_drawRandom (args : List Value) : Programmed fun _ => drawRandom args := by
  refine .bind (.lift _) fun first => .bind (.lift _) fun second => ?_
  split
  · exact .bind (programmed_drawBelow _) fun _ => .pure _
  · exact .throw _
  · exact programmed_drawBetween _ _
  · exact programmed_drawBetween _ _

theorem programmed_runMath (f : MathFunction) (args : List Value) :
    Programmed fun _ => runMath f args := by
  cases f with
  | unary f => exact .bind (.lift _) fun _ => .pure _
  | fractionExponent => exact .bind (.lift _) fun _ => .pure _
  | max => exact .bind (.lift _) fun _ => .pure _
  | min => exact .bind (.lift _) fun _ => .pure _
  | parts => exact .bind (.lift _) fun _ => .pure _
  | random => exact .bind (programmed_drawRandom args) fun _ => .pure _
  | seed => exact .bind (.lift _) fun x => .bind (.change (.setRandom x.bits)) fun _ => .pure _
  | _ => exact .bind (.lift _) fun _ => .bind (.lift _) fun _ => .pure _

/-! ## Modules -/

theorem programmed_packageTable? (field : String) : Programmed fun _ => packageTable? field := by
  refine .bind (programmed_getGlobal "package") fun package => ?_
  split
  · refine .bind (programmed_getField _ field) fun found => ?_
    split <;> exact .pure _
  · exact .pure _

theorem programmed_linkBelow (module : TableId) (name : String) (parts : List String)
    (parent : TableId) : Programmed fun _ => linkBelow module name parts parent := by
  fun_induction linkBelow module name parts parent with
  | case1 => exact .pure _
  | case2 => exact programmed_setField _ _ _
  | case3 part rest parent hrest ih =>
    refine .bind (programmed_getField parent part) fun found => ?_
    split
    · exact ih _
    · refine .bind (programmed_newTable {}) fun next => ?_
      exact .bind (programmed_setField parent part _) fun _ => ih next
    · exact .throw _

theorem programmed_linkModule (name : String) (module : TableId) :
    Programmed fun _ => linkModule name module :=
  .get_bind (fun s => programmed_linkBelow module name _ s.globals) fun _ _ => rfl

theorem programmed_existingModule? (name : String) (loaded : Option TableId) :
    Programmed fun _ => existingModule? name loaded := by
  refine .get_bind (fun s => ?_) fun _ _ => rfl
  split
  · exact .pure _
  · split
    · exact .pure _
    · refine .bind (programmed_getField _ name) fun found => ?_
      split <;> exact .pure _

theorem programmed_callEach (v : Value) (functions : List Value) :
    Programmed fun invoke => callEach invoke v functions := by
  induction functions with
  | nil => exact .pure _
  | cons f rest ih => exact .bind (programmed_call f [v]) fun _ => ih

/-- What creating a module does once it has the table. -/
theorem programmed_fillModule (name : String) (initializers : List Value)
    (loaded : Option TableId) (module : TableId) : Programmed fun invoke => do
      setField module "_NAME" (.string name)
      setField module "_M" (.table module)
      setField module "_PACKAGE" (.string (Path.parent name))
      modify fun s => { s with modules := s.modules.insert name module }
      if let some loaded := loaded then setField loaded name (.table module)
      linkModule name module
      callEach invoke (.table module) initializers
      return module := by
  have hlinked : Programmed fun invoke => do
      linkModule name module
      callEach invoke (.table module) initializers
      return module :=
    .bind (programmed_linkModule name module) fun _ =>
      .bind (programmed_callEach (.table module) initializers) fun _ => .pure module
  refine .bind (programmed_setField module _ _) fun _ => ?_
  refine .bind (programmed_setField module _ _) fun _ => ?_
  refine .bind (programmed_setField module _ _) fun _ => ?_
  refine .bind (.change (.setModule name module)) fun _ => ?_
  cases loaded with
  | some loaded => exact .bind (programmed_setField loaded name _) fun _ => hlinked
  | none => exact hlinked

theorem programmed_createModule (name : String) (initializers : List Value) :
    Programmed fun invoke => createModule invoke name initializers := by
  refine .bind (programmed_packageTable? "loaded") fun loaded => ?_
  refine .bind (programmed_existingModule? name loaded) fun existing => ?_
  have hfilled := programmed_fillModule name initializers loaded
  cases existing with
  | some module => exact hfilled module
  | none => exact .bind (programmed_newTable {}) hfilled

theorem programmed_registerLoaded (name : String) (loaded : TableId) (result : Value) :
    Programmed fun _ => registerLoaded name loaded result :=
  .bind (programmed_getField loaded name) fun _ =>
    .bind (programmed_setField loaded name _) fun _ => .pure _

theorem programmed_linkResult (name : String) (result : Value) : Programmed fun _ => do
      if let .table module := result then linkModule name module
      return result := by
  cases result with
  | table module => exact .bind (programmed_linkModule name module) fun _ => .pure _
  | _ => exact .pure _

/-- What requiring a module does once it has the loader. -/
theorem programmed_runLoader (name : String) (loaded : Option TableId) (loader : Value) :
    Programmed fun invoke => do
      if loader.isNil then throw (.moduleMissing name)
      else
        let result ← callFirst invoke loader [.string name]
        let result ←
          match loaded with
          | some loaded => registerLoaded name loaded result
          | none => pure result
        if let .table module := result then linkModule name module
        return result := by
  have hlinked := programmed_linkResult name
  refine .ite (.throw _) (.bind (programmed_callFirst loader _) fun result => ?_)
  cases loaded with
  | some loaded => exact .bind (programmed_registerLoaded name loaded result) hlinked
  | none => exact .bind (.pure result) hlinked

theorem programmed_preload (name : String) (loaded : Option TableId) :
    Programmed fun invoke => preload invoke name loaded := by
  have hrun := programmed_runLoader name loaded
  refine .bind (programmed_packageTable? "preload") fun found => ?_
  cases found with
  | some preload => exact .bind (programmed_getField preload name) hrun
  | none => exact .bind (.pure _) hrun

theorem programmed_requireModule (name : String) :
    Programmed fun invoke => requireModule invoke name := by
  refine .get_bind (fun s => ?_) fun _ _ => rfl
  split
  · exact .bind (programmed_linkModule name _) fun _ => .pure _
  · refine .bind (programmed_packageTable? "loaded") fun loaded => ?_
    have hfound (found : Value) : Programmed fun invoke =>
        if found.isNil then preload invoke name loaded else return found :=
      .ite (programmed_preload name loaded) (.pure found)
    cases loaded with
    | some loaded => exact .bind (programmed_getField loaded name) hfound
    | none => exact .bind (.pure _) hfound

theorem programmed_seeAll (args : List Value) : Programmed fun _ => seeAll args := by
  have hindexed (mt : TableId) : Programmed fun _ =>
      get >>= fun s => setField mt "__index" (.table s.globals) :=
    .get_bind (fun s => programmed_setField mt _ _) fun _ _ => rfl
  refine .bind (.lift _) fun module => .bind (programmed_getTable module) fun t => ?_
  dsimp only
  split
  · exact .bind (.pure _) hindexed
  · refine .bind (programmed_newTable {}) fun mt => ?_
    exact .bind (.change (.setMetatable module (some mt))) fun _ => .bind (.pure mt) hindexed

/-! ## Global functions -/

theorem programmed_printLine (args : List Value) :
    Programmed fun invoke => printLine invoke args :=
  .bind (.mapM programmed_text args) fun _ => programmed_writeOutput _

theorem programmed_unpack (args : List Value) : Programmed fun _ => unpack args := by
  refine .bind (.lift _) fun id => .bind (.lift _) fun first => .bind (.lift _) fun found => ?_
  have hvalues (last : Int) : Programmed fun _ => do
      if last < first.getD 1 then return replacing []
      else if unpackLimit ≤ last - first.getD 1 then throw .unpackTooMany
      else
        return replacing
          (valuesFrom (← getTable id) (last - first.getD 1 + 1).toNat (first.getD 1)) :=
    .ite (.pure _) (.ite (.throw _) (.bind (programmed_getTable id) fun _ => .pure _))
  cases found with
  | some last => exact .bind (.pure last) hvalues
  | none => exact .bind (programmed_tableLength id) fun _ => .bind (.pure _) hvalues

theorem programmed_ipairs (args : List Value) : Programmed fun _ => ipairs args :=
  .bind (.lift _) fun _ => .bind (programmed_newFunction _) fun _ => .pure _

theorem programmed_ipairsStep (args : List Value) : Programmed fun _ => ipairsStep args :=
  .bind (.lift _) fun id => .bind (.lift _) fun _ => .bind (.lift _) fun _ =>
    .bind (programmed_getTable id) fun _ => .pure _

theorem programmed_pairs (args : List Value) : Programmed fun _ => pairs args :=
  .bind (.lift _) fun id => .bind (programmed_tableKeys id) fun _ =>
    .bind (programmed_newFunction _) fun _ => .pure _

theorem programmed_stepEntries (self : FunctionId) (id : TableId) (pending : List Key) :
    Programmed fun _ => stepEntries self id pending := by
  refine .bind (programmed_getTable id) fun t => ?_
  split
  · exact .bind (programmed_setBody self _) fun _ => .pure _
  · exact .bind (programmed_setBody self _) fun _ => .pure _

theorem programmed_nextOf (args : List Value) : Programmed fun _ => nextOf args := by
  refine .bind (.lift _) fun id => .bind (programmed_nextEntry id _) fun found => ?_
  split <;> exact .pure _

theorem programmed_getMetatable (args : List Value) : Programmed fun _ => getMetatable args := by
  refine .bind (.lift _) fun v => .get_bind (fun s => ?_) fun _ _ => rfl
  split
  · exact .pure _
  · exact .bind (programmed_getField _ _) fun _ => .pure _

theorem programmed_setMetatable (args : List Value) : Programmed fun _ => setMetatable args := by
  refine .bind (.lift _) fun id => .bind (.lift _) fun mt => .get_bind (fun s => ?_) fun _ _ => rfl
  exact .ite (.throw _) (.bind (.change (.setMetatable id mt)) fun _ => .pure _)

theorem programmed_load (args : List Value) : Programmed fun invoke => load invoke args := by
  refine .get_bind (fun s => ?_) fun _ _ => rfl
  split
  · exact .throw _
  · split
    · exact .catching (.bind (programmed_callFirst _ _) fun _ => .pure _) fun _ => .pure _
    · exact .throw _

theorem programmed_runBase (f : BaseFunction) (args : List Value) :
    Programmed fun invoke => runBase invoke f args := by
  cases f with
  | print => exact .bind (programmed_printLine args) fun _ => .pure _
  | error => exact .throw _
  | toText => exact .bind (.lift _) fun v => .bind (programmed_toText v) fun _ => .pure _
  | select => exact .lift _
  | ipairs => exact programmed_ipairs args
  | ipairsStep => exact programmed_ipairsStep args
  | pairs => exact programmed_pairs args
  | next => exact programmed_nextOf args
  | unpack => exact programmed_unpack args
  | protectedCall =>
    exact .bind (.lift _) fun callee => .bind (programmed_protectedCall callee _) fun _ => .pure _
  | handledCall =>
    exact .bind (.lift _) fun callee => .bind (.lift _) fun handler =>
      .bind (programmed_handledCall callee handler _) fun _ => .pure _
  | getMetatable => exact .bind (programmed_getMetatable args) fun _ => .pure _
  | setMetatable => exact .bind (programmed_setMetatable args) fun _ => .pure _
  | rawGet => exact .bind (.lift _) fun id => .bind (programmed_rawGet id _) fun _ => .pure _
  | rawSet => exact .bind (.lift _) fun id => .bind (programmed_rawSet id _ _) fun _ => .pure _
  | collectGarbage => exact .pure _
  | load => exact .bind (programmed_load args) fun _ => .pure _
  | require =>
    exact .bind (.lift _) fun name => .bind (programmed_requireModule name) fun _ => .pure _
  | createModule =>
    exact .bind (.lift _) fun name => .bind (programmed_createModule name _) fun _ => .pure _
  | _ => exact .bind (.lift _) fun _ => .pure _

/-! ## Time, output and metatables -/

theorem programmed_timeOf {Moment : Type} (clock : Calendar.Clock Moment) (args : List Value) :
    Programmed fun _ => timeOf clock args := by
  unfold timeOf
  split
  · exact .gets fun _ => rfl
  · refine .bind (programmed_getTable _) fun t => .bind (.lift _) fun date => ?_
    split <;> exact .pure _
  · exact .throw _

theorem programmed_writeValues (args : List Value) : Programmed fun _ => writeValues args :=
  .bind (.lift _) fun _ => programmed_writeOutput _

theorem programmed_rawMetatable (args : List Value) : Programmed fun _ => rawMetatable args :=
  .bind (.lift _) fun _ => .gets fun _ => rfl

theorem programmed_setRawMetatable (args : List Value) :
    Programmed fun _ => setRawMetatable args := by
  refine .bind (.lift _) fun v => .bind (.lift _) fun mt => ?_
  split
  · exact .bind (.change (.setMetatable _ mt)) fun _ => .pure _
  · exact .throw _

/-! ## Opening libraries -/

theorem programmed_entryMake (name : String) (entry : Entry) :
    Programmed fun _ => entry.make name := by
  cases entry with
  | function f => exact .bind (programmed_newFunction _) fun _ => .pure _
  | constant v => exact .pure v
  | table => exact .bind (programmed_newTable {}) fun _ => .pure _

theorem programmed_installEntries (id : TableId) (entries : List (String × Entry)) :
    Programmed fun _ => installEntries id entries := by
  induction entries with
  | nil => exact .pure _
  | cons entry rest ih =>
    refine .bind (programmed_entryMake entry.1 entry.2) fun v => ?_
    exact .bind (programmed_setField id _ v) fun _ => ih

theorem programmed_listLoaded (name : String) (id : TableId) :
    Programmed fun _ => listLoaded name id := by
  refine .bind (programmed_getGlobal "package") fun package => ?_
  split
  · refine .bind (programmed_getField _ "loaded") fun loaded => ?_
    split
    · exact programmed_setField _ name _
    · exact .pure _
  · exact .pure _

theorem programmed_setStringIndex (id : TableId) : Programmed fun _ => setStringIndex id :=
  .bind (programmed_newTable {}) fun mt => .bind (programmed_setField mt _ _) fun _ =>
    .change (.setStringMetatable (some mt))

theorem programmed_installLibrary (library : Library) :
    Programmed fun _ => installLibrary library := by
  refine .ite (.get_bind (fun s => programmed_installEntries s.globals _) fun _ _ => rfl) ?_
  refine .bind (programmed_newTable {}) fun id => ?_
  refine .bind (programmed_installEntries id _) fun _ => ?_
  refine .bind (programmed_setGlobal _ _) fun _ => ?_
  have hlisted := programmed_listLoaded library.name id
  exact .ite (.bind (programmed_setStringIndex id) fun _ => hlisted) hlisted

theorem programmed_openLibrary (name : LibraryName) : Programmed fun _ => openLibrary name := by
  have hinstalled := programmed_installLibrary name.library
  unfold openLibrary
  refine .ite (.bind (programmed_getGlobal "package") fun _ => .ite ?_ hinstalled) hinstalled
  exact .bind (programmed_installLibrary packageLibrary) fun _ => hinstalled

theorem programmed_openChosen (chosen : Option LibraryName) :
    Programmed fun _ => openChosen chosen := by
  cases chosen with
  | some name => exact programmed_openLibrary name
  | none =>
    have heach (name : LibraryName) : Programmed fun _ => installLibrary name.library :=
      programmed_installLibrary name.library
    exact Programmed.forM heach allLibraries

end LuaRuntime
