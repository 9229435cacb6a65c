import LuaRuntime.Proofs.Machine.CallDepth
import LuaRuntime.Proofs.Pattern.Compiled
import LuaRuntime.Session

/-!
# Caches do not show

Patterns and format strings are read through caches.  A cache is *sound* if each entry is what the
reader makes of its text, and if it is not over its capacity.  Reading through a sound cache gives
what the reader gives, and leaves a sound cache, whether the text was there, the cache was emptied
to make room, or the reader refused the text.

`Readers.afresh` reads every text anew and has no use for a cache.  The functions of the library
that read patterns and format strings are stated here for any readers, and with them calls and runs.
With the readers of the library they are what they were (`Readers.invoke_cached`), and with readers
that read afresh they give the same results (`indistinct_invoke`): states that differ only in sound
caches are alike, and every program takes like states to like states.

In no state on the way of a call (`Passes`) or of the steps of a script (`StepsPass`) a cache is
not sound.
-/

namespace LuaRuntime

/-! ## Sound caches -/

namespace Cache

variable {α ε : Type} {reader : String → Except ε α} {cache : Cache α}

/-- The entries of a cache are what a reader makes of their texts, and they are not too many. -/
structure Sound (reader : String → Except ε α) (cache : Cache α) : Prop where
  entries : ∀ text a, cache.entries[text]? = some a → reader text = .ok a
  size_le : cache.entries.size ≤ capacity

theorem sound_empty : Sound reader {} where
  entries text a h := by simp at h
  size_le := Nat.zero_le _

theorem Sound.insert (h : Sound reader cache) {text : String} {a : α}
    (ha : reader text = .ok a) : Sound reader (cache.insert text a) := by
  -- The entries that the new one joins: all of them, or none if there were too many.
  have hroom : Sound reader ⟨if capacity ≤ cache.entries.size then {} else cache.entries⟩ ∧
      (if capacity ≤ cache.entries.size then {} else cache.entries : Std.TreeMap String α).size <
        capacity := by
    split
    · exact ⟨sound_empty, Nat.zero_lt_succ 255⟩
    · next hsize => exact ⟨h, Nat.not_le.mp hsize⟩
  obtain ⟨hsound, hsize⟩ := hroom
  constructor
  · intro other b hb
    rw [Cache.insert, Std.TreeMap.getElem?_insert] at hb
    split at hb
    · next hsame =>
      cases hb
      rw [← Std.LawfulEqCmp.eq_of_compare hsame]
      exact ha
    · exact hsound.entries other b hb
  · exact Nat.le_trans Std.TreeMap.size_insert_le hsize

/-- Reading through a sound cache gives what the reader gives. -/
theorem Sound.read_fst (h : Sound reader cache) (text : String) :
    (cache.read reader text).1 = reader text := by
  rw [read]
  cases hentry : cache.entries[text]? with
  | some a => exact (h.entries text a hentry).symm
  | none => cases hreading : reader text <;> rfl

theorem Sound.read_snd (h : Sound reader cache) (text : String) :
    Sound reader (cache.read reader text).2 := by
  rw [read]
  cases hentry : cache.entries[text]? with
  | some a => exact h
  | none =>
    cases hreading : reader text with
    | error e => exact h
    | ok a => exact h.insert hreading

/-- A text that the reader refuses is not in the cache. -/
theorem Sound.not_mem (h : Sound reader cache) {text : String} {e : ε}
    (he : reader text = .error e) : text ∉ cache.entries := by
  intro hmem
  obtain ⟨a, ha⟩ := Option.isSome_iff_exists.mp (Std.TreeMap.mem_iff_isSome_getElem?.mp hmem)
  rw [h.entries text a ha] at he
  cases he

end Cache

/-- Both caches of a state are sound. -/
structure State.SoundCaches (s : State) : Prop where
  patterns : s.patterns.Sound (CompiledPattern.new Regex.backtracking)
  formats : s.formats.Sound Format.parse

/-! ## States that are alike -/

/-- The state with empty caches. -/
def State.uncached (s : State) : State := { s with patterns := {}, formats := {} }

/-- Two states that differ in nothing but sound caches. -/
structure State.Alike (s t : State) : Prop where
  uncached_eq : s.uncached = t.uncached
  left : s.SoundCaches
  right : t.SoundCaches

namespace State

variable {s t : State}

theorem SoundCaches.alike (h : s.SoundCaches) : s.Alike s := ⟨rfl, h, h⟩

theorem SoundCaches.alike_uncached (h : s.SoundCaches) : s.Alike s.uncached :=
  ⟨rfl, h, ⟨Cache.sound_empty, Cache.sound_empty⟩⟩

/-- What does not depend on the caches is the same in states that are alike. -/
theorem Alike.congr {β : Type} (h : s.Alike t) (f : State → β)
    (hf : ∀ s : State, f s.uncached = f s) : f s = f t := by
  rw [← hf s, h.uncached_eq, hf]

/-- A change that does not depend on the caches, and does not touch them, leaves like states
alike. -/
theorem Alike.map (h : s.Alike t) (f : State → State)
    (huncached : ∀ s : State, (f s).uncached = f s.uncached)
    (hpatterns : ∀ s : State, (f s).patterns = s.patterns)
    (hformats : ∀ s : State, (f s).formats = s.formats) : (f s).Alike (f t) where
  uncached_eq := by rw [huncached, h.uncached_eq, huncached]
  left := ⟨hpatterns s ▸ h.left.patterns, hformats s ▸ h.left.formats⟩
  right := ⟨hpatterns t ▸ h.right.patterns, hformats t ▸ h.right.formats⟩

theorem Alike.change (h : s.Alike t) (c : Change) : (c.apply s).Alike (c.apply t) := by
  refine h.map c.apply ?_ ?_ ?_ <;> (intro s; cases c <;> rfl)

theorem Alike.withDepth (h : s.Alike t) (f : Nat → Nat) :
    State.Alike { s with depth := f s.depth } { t with depth := f t.depth } :=
  h.map (fun s => { s with depth := f s.depth }) (fun _ => rfl) (fun _ => rfl) fun _ => rfl

theorem Alike.withPatterns (h : s.Alike t) {a b : Cache CompiledPattern}
    (ha : a.Sound (CompiledPattern.new Regex.backtracking))
    (hb : b.Sound (CompiledPattern.new Regex.backtracking)) :
    State.Alike { s with patterns := a } { t with patterns := b } where
  uncached_eq := h.uncached_eq
  left := ⟨ha, h.left.formats⟩
  right := ⟨hb, h.right.formats⟩

theorem Alike.withFormats (h : s.Alike t) {a b : Cache Format}
    (ha : a.Sound Format.parse) (hb : b.Sound Format.parse) :
    State.Alike { s with formats := a } { t with formats := b } where
  uncached_eq := h.uncached_eq
  left := ⟨h.left.patterns, ha⟩
  right := ⟨h.right.patterns, hb⟩

end State

/-! ## Actions that cannot be told apart -/

/-- Two actions take like states to like states, with the same result. -/
def Indistinct {α : Type} (x y : Action α) : Prop :=
  ∀ s t : State, s.Alike t → (x s).1 = (y t).1 ∧ (x s).2.Alike (y t).2

namespace Indistinct

variable {α β : Type}

theorem ofResult (result : Except Error α) :
    Indistinct (fun s => (result, s) : Action α) fun s => (result, s) :=
  fun _ _ h => ⟨rfl, h⟩

protected theorem pure (a : α) : Indistinct (pure a : Action α) (pure a) := ofResult (.ok a)

protected theorem lift (result : Except Error α) :
    Indistinct (liftM result : Action α) (liftM result) := by
  intro s t h
  rw [lift_run, lift_run]
  exact ⟨rfl, h⟩

protected theorem bind {x y : Action α} {f g : α → Action β} (hxy : Indistinct x y)
    (hfg : ∀ a, Indistinct (f a) (g a)) : Indistinct (x >>= f) (y >>= g) := by
  intro s t h
  obtain ⟨hresult, hstate⟩ := hxy s t h
  rw [bind_run, bind_run]
  generalize x s = left at hresult hstate ⊢
  generalize y t = right at hresult hstate ⊢
  obtain ⟨result, u⟩ := left
  obtain ⟨_, v⟩ := right
  obtain rfl := hresult
  cases result with
  | ok a => exact hfg a u v hstate
  | error e => exact ⟨rfl, hstate⟩

theorem get_bind {k l : State → Action α}
    (h : ∀ s t : State, s.Alike t → Indistinct (k s) (l t)) :
    Indistinct (get >>= k) (get >>= l) :=
  fun s t halike => h s t halike s t halike

protected theorem nested {x y : Action α} (h : Indistinct x y) :
    Indistinct (nested x) (nested y) := by
  intro s t halike
  have hlimit : (s.limits.callDepth ≤ s.depth) = (t.limits.callDepth ≤ t.depth) :=
    halike.congr (fun s => s.limits.callDepth ≤ s.depth) fun _ => rfl
  rw [nested, nested]
  simp only [hlimit]
  split
  · exact ⟨rfl, halike⟩
  · obtain ⟨hresult, hstate⟩ := h _ _ (halike.withDepth (· + 1))
    exact ⟨hresult, hstate.withDepth (· - 1)⟩

end Indistinct

/-- A program takes like states to like states, if calls do. -/
theorem Program.indistinct_run {α : Type} {call call' : Invoke}
    (hcall : ∀ f args, Indistinct (call f args) (call' f args)) (p : Program α) :
    Indistinct (p.run call) (p.run call') := by
  induction p with
  | done result => exact .ofResult result
  | read next ih =>
    intro s t h
    have hvisible : s.visible = t.visible := h.congr State.visible fun _ => rfl
    rw [Program.run, Program.run, hvisible]
    exact ih t.visible s t h
  | change c next ih => exact fun s t h => ih _ _ (h.change c)
  | pattern source next ih =>
    intro s t h
    have hs := h.left.patterns
    have ht := h.right.patterns
    let compile := CompiledPattern.new Regex.backtracking
    have hnext : Indistinct ((next (s.patterns.read compile source).1).run call)
        ((next (t.patterns.read compile source).1).run call') := by
      rw [hs.read_fst, ht.read_fst]
      exact ih (compile source)
    exact hnext _ _ (h.withPatterns (hs.read_snd source) (ht.read_snd source))
  | format source next ih =>
    intro s t h
    have hs := h.left.formats
    have ht := h.right.formats
    have hnext : Indistinct ((next (s.formats.read Format.parse source).1).run call)
        ((next (t.formats.read Format.parse source).1).run call') := by
      rw [hs.read_fst, ht.read_fst]
      exact ih (Format.parse source)
    exact hnext _ _ (h.withFormats (hs.read_snd source) (ht.read_snd source))
  | call f args next ih =>
    intro s t h
    obtain ⟨hresult, hstate⟩ := hcall f args s t h
    have hnext : Indistinct ((next (call f args s).1).run call)
        ((next (call' f args t).1).run call') := by
      rw [hresult]
      exact ih (call' f args t).1
    exact hnext _ _ hstate

theorem Programmed.indistinct {α : Type} {x : Invoke → Action α} (h : Programmed x)
    {call call' : Invoke} (hcall : ∀ f args, Indistinct (call f args) (call' f args)) :
    Indistinct (x call) (x call') := by
  obtain ⟨p, hp⟩ := h
  rw [← hp, ← hp]
  exact p.indistinct_run hcall

/-! ## Readers -/

theorem indistinct_readPattern (source : String) :
    Indistinct (readPattern Regex.backtracking source)
      (liftM ((CompiledPattern.new Regex.backtracking source).mapError Error.pattern)) := by
  intro s t h
  have hs := h.left.patterns
  rw [readPattern_run, lift_run, hs.read_fst]
  exact ⟨rfl, h.withPatterns (hs.read_snd source) h.right.patterns⟩

theorem indistinct_readFormat (source : String) : Indistinct (readFormat source)
    (liftM ((Format.parse source).mapError Error.format)) := by
  intro s t h
  have hs := h.left.formats
  rw [readFormat_run, lift_run, hs.read_fst]
  exact ⟨rfl, h.withFormats (hs.read_snd source) h.right.formats⟩

/-- How patterns and format strings are read. -/
structure Readers where
  pattern : String → Action CompiledPattern
  format : String → Action Format

namespace Readers

/-- The readers of the library, through the caches of the state. -/
def cached : Readers := ⟨readPattern Regex.backtracking, readFormat⟩

/-- Readers that read every text afresh. -/
def afresh : Readers where
  pattern source :=
    liftM ((CompiledPattern.new Regex.backtracking source).mapError Error.pattern)
  format source := liftM ((Format.parse source).mapError Error.format)

/-! ### Functions for any readers

Each is the function of that name in the library, but for the readers.  What reads no pattern and no
format string is taken as it is.
-/

section

variable (readers : Readers)

def findIn (args : List Value) : Action (List Value) := do
  let s ← Argument.string args 1 "find"
  let source ← Argument.string args 2 "find"
  let position := (← Argument.optional Argument.integer args 3 "find").getD 1
  match searchStart? s position with
  | none => return [.nil]
  | some start =>
      if (Argument.get args 4).isTruthy || Pattern.isPlain source then
        return findText s source start
      else
        let p ← readers.pattern source
        match p.findAt s start with
        | none => return [.nil]
        | some m =>
            return .ofNat (m.start.position + 1) :: .ofNat m.stop.position :: m.captureValues s

def matchIn (args : List Value) : Action (List Value) := do
  let s ← Argument.string args 1 "match"
  let source ← Argument.string args 2 "match"
  let position := (← Argument.optional Argument.integer args 3 "match").getD 1
  match searchStart? s position with
  | none => return [.nil]
  | some start =>
      let p ← readers.pattern source
      match p.findAt s start with
      | none => return [.nil]
      | some m => return m.values s

def allMatchesIn (args : List Value) : Action Value := do
  let text ← Argument.string args 1 "gmatch"
  let pattern ← readers.pattern (← Argument.string args 2 "gmatch")
  return .function (← newFunction ⟨"gmatch_iterator", .matches { text, pattern }⟩)

def replaceIn (invoke : Invoke) (args : List Value) : Action (List Value) := do
  let s ← Argument.string args 1 "gsub"
  let source ← Argument.string args 2 "gsub"
  let replacement ← Replacement.ofValue (Argument.get args 3)
  let cap ← Argument.optional Argument.integer args 4 "gsub"
  let p ← readers.pattern source
  let found := p.allMatches s cap
  let replaced ← found.mapM fun m => return (m, ← replacement.apply invoke s m)
  return [.string (replaceMatches s replaced), .ofNat found.length]

def formatValues (invoke : Invoke) (args : List Value) : Action String := do
  let format ← readers.format (← Argument.string args 1 "format")
  return String.ofList (← renderSegments invoke (args.drop 1).toArray 0 format.segments)

def runString (invoke : Invoke) (f : StringFunction) (args : List Value) :
    Action (List Value) := do
  match f with
  | .find => readers.findIn args
  | .firstMatch => readers.matchIn args
  | .gmatch => return [← readers.allMatchesIn args]
  | .gsub => readers.replaceIn invoke args
  | .format => return [.string (← readers.formatValues invoke args)]
  | f => LuaRuntime.runString Regex.backtracking invoke f args

def runBuiltin (invoke : Invoke) (f : Builtin) (args : List Value) : Action Outcome := do
  match f with
  | .string f => return results (← readers.runString invoke f args)
  | f => LuaRuntime.runBuiltin invoke f args

def runBody (invoke : Invoke) (self : FunctionId) (args : List Value) : Body → Action Outcome
  | .builtin f => readers.runBuiltin invoke f args
  | body => LuaRuntime.runBody invoke self args body

/-- Calls a function, with a number of nested calls left.  All calls in it read in the same way. -/
def invoke : (remaining : Nat) → Invoke
  | 0, _, _ => throw .stackOverflow
  | remaining + 1, f, args =>
      nested do readers.runBody (invoke remaining) f args ((← get).function f).body

/-- Evaluates an expression outside of any function. -/
def run (e : Expr) : Action (List Value) := do
  eval (readers.invoke (← get).limits.callDepth) [] e

/-- Evaluates steps one after the other. -/
def runSteps : List Expr → StateM State (List (Except Error (List Value)))
  | [] => return []
  | e :: rest => do
      let result ← (readers.run e).run
      if endedInPanic result then return [result] else return result :: (← runSteps rest)

theorem runSteps_cons (e : Expr) (rest : List Expr) (s : State) :
    readers.runSteps (e :: rest) s =
      if endedInPanic (readers.run e s).1 then ([(readers.run e s).1], (readers.run e s).2)
      else ((readers.run e s).1 :: (readers.runSteps rest (readers.run e s).2).1,
        (readers.runSteps rest (readers.run e s).2).2) := by
  show ite (endedInPanic (readers.run e s).1 = true) (pure [(readers.run e s).1])
    (readers.runSteps rest >>= fun results => pure ((readers.run e s).1 :: results))
    (readers.run e s).2 = _
  cases endedInPanic (readers.run e s).1 with
  | true => rfl
  | false => rfl

end

/-! ### The readers of the library -/

theorem runString_cached (invoke : Invoke) (f : StringFunction) (args : List Value) :
    cached.runString invoke f args = LuaRuntime.runString Regex.backtracking invoke f args := by
  cases f <;> rfl

theorem runBody_cached (invoke : Invoke) (self : FunctionId) (args : List Value) (body : Body) :
    cached.runBody invoke self args body = LuaRuntime.runBody invoke self args body := by
  cases body with
  | builtin f =>
    cases f with
    | string f =>
      show (cached.runString invoke f args >>= fun vs => pure (results vs)) = _
      rw [runString_cached]
      rfl
    | _ => rfl
  | _ => rfl

/-- With the readers of the library, calls are those of the library. -/
theorem invoke_cached (remaining : Nat) :
    cached.invoke remaining = LuaRuntime.invoke remaining := by
  induction remaining with
  | zero => rfl
  | succ remaining ih =>
    funext f args
    simp only [invoke, LuaRuntime.invoke, ih, runBody_cached]

theorem run_cached (e : Expr) : cached.run e = LuaRuntime.run e := by
  simp only [run, LuaRuntime.run, invoke_cached]

theorem runSteps_cached (steps : List Expr) :
    cached.runSteps steps = LuaRuntime.runSteps steps := by
  induction steps with
  | nil => rfl
  | cons e rest ih => simp only [runSteps, LuaRuntime.runSteps, run_cached, ih]

/-! ### Readers that cannot be told apart -/

/-- Two readers take like states to like states, with the same readings. -/
structure Agree (readers others : Readers) : Prop where
  pattern (source : String) : Indistinct (readers.pattern source) (others.pattern source)
  format (source : String) : Indistinct (readers.format source) (others.format source)

namespace Agree

variable {readers others : Readers} (h : readers.Agree others)
include h

theorem findIn (args : List Value) : Indistinct (readers.findIn args) (others.findIn args) := by
  refine .bind (.lift _) fun s => .bind (.lift _) fun source => .bind (.lift _) fun position => ?_
  dsimp only
  split
  · exact .pure _
  · split
    · exact .pure _
    · refine .bind (h.pattern source) fun p => ?_
      split <;> exact .pure _

theorem matchIn (args : List Value) : Indistinct (readers.matchIn args) (others.matchIn args) := by
  refine .bind (.lift _) fun s => .bind (.lift _) fun source => .bind (.lift _) fun position => ?_
  dsimp only
  split
  · exact .pure _
  · refine .bind (h.pattern source) fun p => ?_
    split <;> exact .pure _

variable {call call' : Invoke} (hcall : ∀ f args, Indistinct (call f args) (call' f args))
include hcall

theorem runString (f : StringFunction) (args : List Value) :
    Indistinct (readers.runString call f args) (others.runString call' f args) := by
  cases f with
  | find => exact h.findIn args
  | firstMatch => exact h.matchIn args
  | gmatch =>
    refine .bind (.bind (.lift _) fun text => .bind (.lift _) fun source => ?_) fun _ => .pure _
    refine .bind (h.pattern source) fun p => ?_
    exact .bind ((programmed_newFunction _).indistinct hcall) fun _ => .pure _
  | gsub =>
    refine .bind (.lift _) fun s => .bind (.lift _) fun source => ?_
    refine .bind (.lift _) fun replacement => .bind (.lift _) fun cap => ?_
    refine .bind (h.pattern source) fun p => ?_
    have happly (m : Match) : Programmed fun invoke => do
        return (m, ← replacement.apply invoke s m) :=
      .bind (programmed_replacementApply s replacement m) fun _ => .pure _
    exact .bind ((Programmed.mapM happly _).indistinct hcall) fun _ => .pure _
  | format =>
    refine .bind (.bind (.lift _) fun source => ?_) fun _ => .pure _
    refine .bind (h.format source) fun format => ?_
    exact .bind ((programmed_renderSegments _ _ 0).indistinct hcall) fun _ => .pure _
  | _ => exact (programmed_runString _ args).indistinct hcall

theorem runBody (self : FunctionId) (args : List Value) (body : Body) :
    Indistinct (readers.runBody call self args body) (others.runBody call' self args body) := by
  cases body with
  | builtin f =>
    cases f with
    | string f => exact .bind (h.runString hcall f args) fun _ => .pure _
    | _ => exact (programmed_runBuiltin _ args).indistinct hcall
  | _ => exact (programmed_runBody self args _).indistinct hcall

omit hcall

theorem invoke (remaining : Nat) (f : FunctionId) (args : List Value) :
    Indistinct (readers.invoke remaining f args) (others.invoke remaining f args) := by
  induction remaining generalizing f args with
  | zero => exact .ofResult _
  | succ remaining ih =>
    refine .nested (.get_bind fun s t halike => ?_)
    have hbody : (s.function f).body = (t.function f).body :=
      halike.congr (fun s => (s.function f).body) fun _ => rfl
    rw [hbody]
    exact h.runBody ih f args _

theorem run (e : Expr) : Indistinct (readers.run e) (others.run e) := by
  refine .get_bind fun s t halike => ?_
  have hlimit : s.limits.callDepth = t.limits.callDepth :=
    halike.congr (fun s => s.limits.callDepth) fun _ => rfl
  rw [hlimit]
  exact (programmed_eval [] e).indistinct (h.invoke _)

theorem runSteps (steps : List Expr) {s t : State} (halike : s.Alike t) :
    (readers.runSteps steps s).1 = (others.runSteps steps t).1 ∧
      (readers.runSteps steps s).2.Alike (others.runSteps steps t).2 := by
  induction steps generalizing s t with
  | nil => exact ⟨rfl, halike⟩
  | cons e rest ih =>
    obtain ⟨hresult, hstate⟩ := h.run e s t halike
    obtain ⟨hresults, hend⟩ := ih hstate
    rw [runSteps_cons, runSteps_cons, hresult]
    split
    · exact ⟨rfl, hstate⟩
    · exact ⟨congrArg₂ List.cons rfl hresults, hend⟩

end Agree

/-- Reading afresh gives what reading through the caches gives. -/
theorem agree_cached_afresh : cached.Agree afresh := ⟨indistinct_readPattern, indistinct_readFormat⟩

end Readers

/-! ## States on the way -/

theorem Program.Passes.soundCaches {α : Type} {call : Invoke}
    {inside : FunctionId → List Value → State → State → Prop}
    (hcall : ∀ f args (s : State), s.SoundCaches → (call f args s).2.SoundCaches)
    (hinside : ∀ f args s t, s.SoundCaches → inside f args s t → t.SoundCaches)
    {p : Program α} {s t : State} (hs : s.SoundCaches) (h : p.Passes call inside s t) :
    t.SoundCaches := by
  induction p generalizing s with
  | done result => exact h ▸ hs
  | read next ih => exact ih s.visible hs h
  | change c next ih =>
    rcases h with rfl | h
    · exact hs
    · exact ih (hs.alike.change c).left h
  | pattern source next ih =>
    rcases h with rfl | h
    · exact hs
    · have hread : State.SoundCaches
          { s with
            patterns := (s.patterns.read (CompiledPattern.new Regex.backtracking) source).2 } :=
        ⟨hs.patterns.read_snd source, hs.formats⟩
      exact ih _ hread h
  | format source next ih =>
    rcases h with rfl | h
    · exact hs
    · have hread : State.SoundCaches
          { s with formats := (s.formats.read Format.parse source).2 } :=
        ⟨hs.patterns, hs.formats.read_snd source⟩
      exact ih _ hread h
  | call f args next ih =>
    rcases h with h | h
    · exact hinside f args s t hs h
    · exact ih _ (hcall f args s hs) h

theorem indistinct_invoke (remaining : Nat) (f : FunctionId) (args : List Value) :
    Indistinct (invoke remaining f args) (Readers.afresh.invoke remaining f args) := by
  rw [← Readers.invoke_cached]
  exact Readers.agree_cached_afresh.invoke remaining f args

theorem State.SoundCaches.invoke {s : State} (h : s.SoundCaches) (remaining : Nat)
    (f : FunctionId) (args : List Value) : (invoke remaining f args s).2.SoundCaches :=
  (indistinct_invoke remaining f args s s h.alike).2.left

/-- The caches are sound all the time of a call. -/
theorem Passes.soundCaches {remaining : Nat} {f : FunctionId} {args : List Value} {s t : State}
    (hs : s.SoundCaches) (h : Passes remaining f args s t) : t.SoundCaches := by
  induction remaining generalizing f args s t with
  | zero => exact h ▸ hs
  | succ remaining ih =>
    rcases h with rfl | rfl | ⟨-, p, -, h⟩
    · exact hs
    · exact hs.invoke _ f args
    · refine h.soundCaches (fun f args s hs => hs.invoke remaining f args) (fun _ _ _ _ => ih) ?_
      exact (hs.alike.withDepth (· + 1)).left

/-- The states that steps pass through. -/
def StepsPass : List Expr → State → State → Prop
  | [], s, t => t = s
  | e :: rest, s, t =>
      (∃ p : Program (List Value), (∀ call, p.run call = eval call [] e) ∧
        p.Passes (invoke s.limits.callDepth) (Passes s.limits.callDepth) s t) ∨
      endedInPanic (run e s).1 = false ∧ StepsPass rest (run e s).2 t

theorem StepsPass.soundCaches {steps : List Expr} {s t : State} (hs : s.SoundCaches)
    (h : StepsPass steps s t) : t.SoundCaches := by
  induction steps generalizing s with
  | nil => exact h ▸ hs
  | cons e rest ih =>
    rcases h with ⟨p, -, h⟩ | ⟨-, h⟩
    · exact h.soundCaches (fun f args s hs => hs.invoke _ f args)
        (fun _ _ _ _ => Passes.soundCaches) hs
    · have hrun : Indistinct (run e) (Readers.afresh.run e) := by
        rw [← Readers.run_cached]
        exact Readers.agree_cached_afresh.run e
      exact ih (hrun s s hs.alike).2.left h

/-- A session starts with sound caches. -/
theorem Session.soundCaches_start (session : Session) : session.start.SoundCaches := by
  have hopen : Programmed fun _ => session.libraries.forM openChosen :=
    .forM programmed_openChosen _
  have hblank : (State.initial session.limits session.sink session.now).SoundCaches :=
    ⟨Cache.sound_empty, Cache.sound_empty⟩
  exact (hopen.indistinct (indistinct_invoke 0) _ _ hblank.alike).2.left

/-! ## Whole runs -/

/-- The caches do not show, neither in calls nor in runs of steps nor in sessions, whatever calls
they nest:

* a session starts with sound caches, and from sound caches a call gives the same result as one that
  reads every pattern and every format string afresh, and leaves the same state but for the caches;
* the same holds of steps one after the other, and of the steps of a session;
* in every state on the way the caches hold what their patterns compile to and their format strings
  read as, no text that is refused, and not more than 256 entries each. -/
theorem caches_are_invisible :
    (∀ session : Session, session.start.SoundCaches) ∧
    (∀ (remaining : Nat) (f : FunctionId) (args : List Value) (s : State), s.SoundCaches →
      (invoke remaining f args s).1 = (Readers.afresh.invoke remaining f args s.uncached).1 ∧
        (invoke remaining f args s).2.uncached =
          (Readers.afresh.invoke remaining f args s.uncached).2.uncached) ∧
    (∀ (steps : List Expr) (s : State), s.SoundCaches →
      ((runSteps steps).run s).1 = ((Readers.afresh.runSteps steps).run s.uncached).1 ∧
        ((runSteps steps).run s).2.uncached =
          ((Readers.afresh.runSteps steps).run s.uncached).2.uncached) ∧
    (∀ session : Session,
      session.run.1 = ((Readers.afresh.runSteps session.steps).run session.start).1 ∧
        session.run.2.uncached =
          ((Readers.afresh.runSteps session.steps).run session.start).2.uncached) ∧
    (∀ s t : State, s.SoundCaches →
      (∃ remaining f args, Passes remaining f args s t) ∨ (∃ steps, StepsPass steps s t) →
        (∀ text p, t.patterns.entries[text]? = some p →
          CompiledPattern.new Regex.backtracking text = .ok p) ∧
        (∀ text f, t.formats.entries[text]? = some f → Format.parse text = .ok f) ∧
        (∀ text fault, CompiledPattern.new Regex.backtracking text = .error fault →
          text ∉ t.patterns.entries) ∧
        (∀ text fault, Format.parse text = .error fault → text ∉ t.formats.entries) ∧
        t.patterns.entries.size ≤ 256 ∧ t.formats.entries.size ≤ 256) := by
  have hsteps (steps : List Expr) {s t : State} (halike : s.Alike t) :
      ((runSteps steps).run s).1 = ((Readers.afresh.runSteps steps).run t).1 ∧
        ((runSteps steps).run s).2.uncached =
          ((Readers.afresh.runSteps steps).run t).2.uncached := by
    rw [← Readers.runSteps_cached]
    obtain ⟨hresults, hend⟩ := Readers.agree_cached_afresh.runSteps steps halike
    exact ⟨hresults, hend.uncached_eq⟩
  refine ⟨Session.soundCaches_start, ?_, ?_, ?_, ?_⟩
  · intro remaining f args s hs
    obtain ⟨hresult, hend⟩ := indistinct_invoke remaining f args s s.uncached hs.alike_uncached
    exact ⟨hresult, hend.uncached_eq⟩
  · intro steps s hs
    exact hsteps steps hs.alike_uncached
  · intro session
    exact hsteps session.steps session.soundCaches_start.alike
  · intro s t hs h
    have ht : t.SoundCaches := by
      rcases h with ⟨_, _, _, h⟩ | ⟨_, h⟩
      · exact h.soundCaches hs
      · exact h.soundCaches hs
    exact ⟨ht.patterns.entries, ht.formats.entries, fun _ _ => ht.patterns.not_mem,
      fun _ _ => ht.formats.not_mem, ht.patterns.size_le, ht.formats.size_le⟩

/-- A runtime that has read the pattern `%d+`.  Its functions are `match`, and one that calls it to
look for digits in its argument. -/
def searching : State :=
  { State.initial {} .keep 0 with
    functions := #[⟨"match", .builtin (.string .firstMatch)⟩,
      ⟨"digits", .script false [.apply .call [.read "match", .argument 1, .string "%d+"]]⟩]
    patterns := Cache.insert {} "%d+" (.ofPattern ⟨false, [.repeated (.class .digit false) .some]⟩)
    bindings := Std.TreeMap.empty.insert "match" (.function ⟨0⟩) }

/-- The digits of `b2` are found with the pattern from the cache as they are without it, and a
pattern that is refused does not get into the cache. -/
theorem searching_caches_are_invisible :
    searching.SoundCaches ∧ "%d+" ∈ searching.patterns.entries ∧
    (invoke 2 ⟨1⟩ [.string "b2"] searching).1 = .ok (results [.string "2"]) ∧
    (Readers.afresh.invoke 2 ⟨1⟩ [.string "b2"] searching.uncached).1 =
      .ok (results [.string "2"]) ∧
    (invoke 2 ⟨0⟩ [.string "b2", .string "%"] searching).1 = .error (.pattern .trailingPercent) ∧
    ∀ t, Passes 2 ⟨0⟩ [.string "b2", .string "%"] searching t →
      "%" ∉ t.patterns.entries ∧ t.patterns.entries.size ≤ 256 := by
  have hdigits : Pattern.parse "%d+" = .ok ⟨false, [.repeated (.class .digit false) .some]⟩ := by
    decide +kernel
  have hcompiled := CompiledPattern.new_backtracking_eq_ok hdigits (by decide)
  have hpercent : Pattern.parse "%" = .error .trailingPercent := by decide +kernel
  have hrefused : CompiledPattern.new Regex.backtracking "%" = .error .trailingPercent := by
    rw [CompiledPattern.new, hpercent]
  have hsound : searching.SoundCaches := ⟨Cache.sound_empty.insert hcompiled, Cache.sound_empty⟩
  have hfound : (invoke 2 ⟨1⟩ [.string "b2"] searching).1 = .ok (results [.string "2"]) := by
    decide +kernel
  obtain ⟨-, hinvoke, -, -, hpasses⟩ := caches_are_invisible
  refine ⟨hsound, by decide, hfound, ?_, by decide +kernel, ?_⟩
  · exact (hinvoke 2 ⟨1⟩ _ searching hsound).1.symm.trans hfound
  · intro t h
    obtain ⟨-, -, hpattern, -, hsize, -⟩ := hpasses searching t hsound (.inl ⟨2, ⟨0⟩, _, h⟩)
    exact ⟨hpattern "%" _ hrefused, hsize⟩

end LuaRuntime
