import LuaRuntime.Library.String
import LuaRuntime.Proofs.State.Action
import LuaRuntime.Proofs.Table.Invariant
import LuaRuntime.Regex.Engine

/-!
# Programs

What a function does between its call and its return is a `Program`: a tree of steps that read the
state, change it, read a pattern or a format through its cache, or call a function and go on with
what the call gave.  A program sees neither the depth of calls nor the caches, and none of its
changes touches them.

`Programmed x` says that an action is the run of a program, whatever calls of functions do.  It is
proved of an action along its steps, and then what holds of every run is proved once, by induction
on programs.
-/

namespace LuaRuntime

/-! ## Steps -/

/-- A change of the state. -/
inductive Change where
  | edit (id : TableId) (e : Table.Edit)
  | setMetatable (id : TableId) (metatable : Option TableId)
  | addTable (t : Table)
  | addFunction (f : Function)
  | setBody (id : FunctionId) (body : Body)
  | setStringMetatable (metatable : Option TableId)
  | setModule (name : String) (id : TableId)
  | setLoader (loader : Value)
  | write (text : String)
  | setRandom (r : UInt64)
  | setVariable (name : String) (v : Value)

/-- The state after a change. -/
def Change.apply : Change → State → State
  | .edit id e, s => s.modifyTable id e.apply
  | .setMetatable id metatable, s => s.modifyTable id ({ · with metatable })
  | .addTable t, s => { s with tables := s.tables.push t }
  | .addFunction f, s => { s with functions := s.functions.push f }
  | .setBody id body, s =>
      { s with functions := s.functions.modify id.index ({ · with body := body }) }
  | .setStringMetatable metatable, s => { s with stringMetatable := metatable }
  | .setModule name id, s => { s with modules := s.modules.insert name id }
  | .setLoader loader, s => { s with loader := some loader }
  | .write text, s => { s with output := s.output ++ text }
  | .setRandom r, s => { s with random := r }
  | .setVariable name v, s => { s with bindings := s.bindings.insert name v }

/-- What a program sees of a state. -/
def State.visible (s : State) : State := { s with depth := 0, formats := {}, patterns := {} }

/-- The steps of a function. -/
inductive Program (α : Type) where
  | done (result : Except Error α)
  | read (next : State → Program α)
  | change (c : Change) (next : Program α)
  | pattern (source : String) (next : Except PatternFault CompiledPattern → Program α)
  | format (source : String) (next : Except FormatFault Format → Program α)
  | call (f : FunctionId) (args : List Value) (next : Except Error Outcome → Program α)

namespace Program

variable {α β : Type}

/-- Runs a program. -/
def run (call : Invoke) : Program α → Action α
  | .done result, s => (result, s)
  | .read next, s => (next s.visible).run call s
  | .change c next, s => next.run call (c.apply s)
  | .pattern source next, s =>
      let (reading, patterns) := s.patterns.read (CompiledPattern.new Regex.backtracking) source
      (next reading).run call { s with patterns }
  | .format source next, s =>
      let (reading, formats) := s.formats.read Format.parse source
      (next reading).run call { s with formats }
  | .call f args next, s =>
      let (result, t) := call f args s
      (next result).run call t

/-- A program, and another one that depends on how it ends. -/
def andThen : Program α → (Except Error α → Program β) → Program β
  | .done result, k => k result
  | .read next, k => .read fun s => (next s).andThen k
  | .change c next, k => .change c (next.andThen k)
  | .pattern source next, k => .pattern source fun reading => (next reading).andThen k
  | .format source next, k => .format source fun reading => (next reading).andThen k
  | .call f args next, k => .call f args fun result => (next result).andThen k

theorem run_andThen (call : Invoke) (p : Program α) (k : Except Error α → Program β) (s : State) :
    (p.andThen k).run call s = (k (p.run call s).1).run call (p.run call s).2 := by
  induction p generalizing s with
  | done result => rfl
  | read next ih => exact ih s.visible s
  | change c next ih => exact ih (c.apply s)
  | pattern source next ih => exact ih _ _
  | format source next ih => exact ih _ _
  | call f args next ih => exact ih _ _

end Program

/-! ## Actions as programs -/

/-- An action is the run of a program, whatever the calls of functions in it do. -/
def Programmed {α : Type} (x : Invoke → Action α) : Prop :=
  ∃ p : Program α, ∀ call, p.run call = x call

namespace Programmed

variable {α β : Type}

theorem andThen {x : Invoke → Action α} {k : Except Error α → Invoke → Action β}
    (hx : Programmed x) (hk : ∀ result, Programmed (k result)) :
    Programmed fun call s => k (x call s).1 call (x call s).2 := by
  obtain ⟨p, hp⟩ := hx
  choose q hq using hk
  refine ⟨p.andThen q, fun call => funext fun s => ?_⟩
  rw [Program.run_andThen, hp, hq]

theorem ofResult (result : Except Error α) :
    Programmed fun _ => (fun s => (result, s) : Action α) :=
  ⟨.done result, fun _ => rfl⟩

protected theorem pure (a : α) : Programmed fun _ => (pure a : Action α) := ofResult (.ok a)

protected theorem throw (e : Error) : Programmed fun _ => (throw e : Action α) :=
  ofResult (.error e)

protected theorem lift (result : Except Error α) :
    Programmed fun _ => (liftM result : Action α) := by
  cases result with
  | ok a => exact .pure a
  | error e => exact .throw e

protected theorem bind {x : Invoke → Action α} {f : Invoke → α → Action β} (hx : Programmed x)
    (hf : ∀ a, Programmed fun call => f call a) : Programmed fun call => x call >>= f call := by
  have hk : ∀ result : Except Error α, Programmed fun call => (match result with
      | .ok a => f call a
      | .error e => throw e : Action β) := by
    intro result
    cases result with
    | ok a => exact hf a
    | error e => exact .throw e
  obtain ⟨p, hp⟩ := hx.andThen hk
  refine ⟨p, fun call => (hp call).trans (funext fun s => ?_)⟩
  beta_reduce
  rw [bind_run]
  rcases x call s with ⟨result, t⟩
  cases result <;> rfl

protected theorem tryCatch {x : Invoke → Action α} {h : Invoke → Error → Action α}
    (hx : Programmed x) (hh : ∀ e, Programmed fun call => h call e) :
    Programmed fun call => tryCatch (x call) (h call) := by
  have hk : ∀ result : Except Error α, Programmed fun call => (match result with
      | .ok a => pure a
      | .error e => h call e : Action α) := by
    intro result
    cases result with
    | ok a => exact .pure a
    | error e => exact hh e
  obtain ⟨p, hp⟩ := hx.andThen hk
  refine ⟨p, fun call => (hp call).trans (funext fun s => ?_)⟩
  beta_reduce
  rw [tryCatch_run]
  rcases x call s with ⟨result, t⟩
  cases result <;> rfl

protected theorem catching {x : Invoke → Action α} {h : Invoke → Error → Action α}
    (hx : Programmed x) (hh : ∀ e, Programmed fun call => h call e) :
    Programmed fun call => catching (x call) (h call) := by
  refine .tryCatch hx fun e => ?_
  cases e.isPanic with
  | true => exact .throw e
  | false => exact hh e

/-- Reading the state, in a way that does not depend on what a program does not see. -/
theorem get_bind {k : Invoke → State → Action α} (hk : ∀ s, Programmed fun call => k call s)
    (hvisible : ∀ call s, k call s.visible = k call s) :
    Programmed fun call => get >>= k call := by
  choose p hp using hk
  refine ⟨.read p, fun call => funext fun s => ?_⟩
  show (p s.visible).run call s = k call s s
  rw [hp]
  exact congrFun (hvisible call s) s

theorem gets {f : State → α} (hf : ∀ s, f s.visible = f s) :
    Programmed fun _ => (get >>= fun s => pure (f s) : Action α) :=
  .get_bind (fun s => .pure (f s)) fun _ s => by rw [hf]

/-- An action that makes an edit of a table, and gives a result that a program can see. -/
theorem of_edit {x : Action α} (id : TableId) (e : Table.Edit)
    (hstate : ∀ s, (x s).2 = s.modifyTable id e.apply) (hresult : ∀ s, (x s.visible).1 = (x s).1) :
    Programmed fun _ => x := by
  refine ⟨.read fun s => .change (.edit id e) (.done (x s).1), fun _ => funext fun s => ?_⟩
  exact Prod.ext (hresult s) (hstate s).symm

theorem change (c : Change) : Programmed fun _ => (modify c.apply : Action Unit) :=
  ⟨.change c (.done (.ok ⟨⟩)), fun _ => rfl⟩

theorem call (f : FunctionId) (args : List Value) : Programmed fun call => call f args :=
  ⟨.call f args .done, fun _ => rfl⟩

theorem ite {c : Prop} [Decidable c] {x y : Invoke → Action α} (hx : Programmed x)
    (hy : Programmed y) : Programmed fun call => if c then x call else y call := by
  by_cases hc : c
  · simpa only [if_pos hc] using hx
  · simpa only [if_neg hc] using hy

theorem discard {x : Invoke → Action α} (hx : Programmed x) :
    Programmed fun call => discard (x call) := by
  show Programmed fun call => x call >>= fun _ => pure PUnit.unit
  exact .bind hx fun _ => .pure _

theorem mapM {f : Invoke → α → Action β} (hf : ∀ a, Programmed fun call => f call a)
    (as : List α) : Programmed fun call => as.mapM (f call) := by
  induction as with
  | nil => exact .pure []
  | cons a as ih =>
    simp only [List.mapM_cons]
    exact .bind (hf a) fun b => .bind ih fun bs => .pure (b :: bs)

theorem forM {f : Invoke → α → Action PUnit} (hf : ∀ a, Programmed fun call => f call a)
    (as : List α) : Programmed fun call => as.forM (f call) := by
  induction as with
  | nil => exact .pure PUnit.unit
  | cons a as ih => exact .bind (hf a) fun _ => ih

end Programmed

end LuaRuntime
