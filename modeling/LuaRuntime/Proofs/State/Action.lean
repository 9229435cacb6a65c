import LuaRuntime.State.Basic

/-!
# Runs of actions

`Gives x s a t` says that an action, run in a state, ends with a value and leaves another state.
Runs are put together along the steps of an action, so that a proof about an action never looks
at how actions are represented.
-/

namespace LuaRuntime

/-- An action run in a state ends with a value, and leaves a state. -/
def Gives {α : Type} (x : Action α) (s : State) (a : α) (t : State) : Prop := x s = (.ok a, t)

section

variable {α β : Type} {s t u : State}

theorem gives_pure (a : α) (s : State) : Gives (pure a) s a s := rfl

theorem gives_get (s : State) : Gives get s s s := rfl

theorem gives_modify (f : State → State) (s : State) : Gives (modify f) s ⟨⟩ (f s) := rfl

theorem gives_of_fst_eq {x : Action α} {a : α} (h : (x s).1 = .ok a) : Gives x s a (x s).2 :=
  Prod.ext h rfl

/-- A check that succeeds gives its result and changes nothing. -/
theorem gives_lift {e : Except Error α} {a : α} (h : e = .ok a) (s : State) :
    Gives (liftM e : Action α) s a s := by
  rw [h]
  rfl

theorem lift_run (result : Except Error α) (s : State) :
    (liftM result : Action α) s = (result, s) := by
  cases result <;> rfl

theorem bind_run (x : Action α) (f : α → Action β) (s : State) :
    (x >>= f) s = match x s with
      | (.ok a, t) => f a t
      | (.error e, t) => (.error e, t) := by
  show (match x s with | (r, t) => ExceptT.bindCont f r t) = _
  rcases x s with ⟨r, t⟩
  cases r <;> rfl

theorem tryCatch_run (x : Action α) (h : Error → Action α) (s : State) :
    tryCatch x h s = match x s with
      | (.ok a, t) => (.ok a, t)
      | (.error e, t) => h e t := by
  show ExceptT.tryCatch x h s = _
  rw [ExceptT.tryCatch, ExceptT.mk]
  show StateT.bind x _ s = _
  rw [StateT.bind]
  rcases x s with ⟨r, t⟩
  cases r <;> rfl

theorem discard_run (x : Action α) (s : State) :
    (discard x : Action Unit) s = match x s with
      | (.ok _, t) => (.ok (), t)
      | (.error e, t) => (.error e, t) := by
  show (x >>= fun _ => pure ()) s = _
  rw [bind_run]
  rcases x s with ⟨r, t⟩
  cases r <;> rfl

theorem lift_ok_bind (a : α) (f : α → Action β) :
    ((liftM (Except.ok a : Except Error α) : Action α) >>= f) = f a := rfl

/-- Two actions that begin alike run alike if they go on alike from what the beginning gives. -/
theorem bind_congr_run {x : Action α} {f g : α → Action β}
    (h : ∀ a t, Gives x s a t → f a t = g a t) : (x >>= f) s = (x >>= g) s := by
  rw [bind_run, bind_run]
  rcases hx : x s with ⟨_ | a, t⟩
  · rfl
  · exact h a t hx

theorem lift_bind_congr {result : Except Error α} {f g : α → Action β}
    (h : ∀ a, result = .ok a → f a s = g a s) :
    (liftM result >>= f) s = (liftM result >>= g) s := by
  refine bind_congr_run fun a t ht => ?_
  rw [Gives, lift_run] at ht
  cases ht
  exact h a rfl

theorem Gives.bind {x : Action α} {f : α → Action β} {a : α} {b : β} (hx : Gives x s a t)
    (hf : Gives (f a) t b u) : Gives (x >>= f) s b u := by
  rw [Gives, bind_run, hx]
  exact hf

theorem gives_getTable (id : TableId) (s : State) : Gives (getTable id) s (s.table id) s := rfl

theorem Gives.map {x : Action α} {a : α} (f : α → β) (hx : Gives x s a t) :
    Gives (f <$> x) s (f a) t := hx.bind (gives_pure (f a) t)

theorem Gives.discard {x : Action α} {a : α} (hx : Gives x s a t) :
    Gives (discard x) s ⟨⟩ t := by
  show Gives ((fun _ => PUnit.unit) <$> x) s ⟨⟩ t
  exact hx.map fun _ => PUnit.unit

/-- A new function gets an identity of its own. -/
theorem gives_newFunction (f : Function) (s : State) :
    ∃ t, Gives (newFunction f) s ⟨s.functions.size⟩ t ∧
      t.functions[s.functions.size]? = some f :=
  ⟨{ s with functions := s.functions.push f }, rfl, Array.getElem?_push_size⟩

end

/-- An action run for each member of a list ends with a value each time. -/
inductive GivesAll {α β : Type} (f : α → Action β) : State → List α → List β → State → Prop
  | nil {s : State} : GivesAll f s [] [] s
  | cons {s t u : State} {a : α} {b : β} {as : List α} {bs : List β} :
      Gives (f a) s b t →
      GivesAll f t as bs u →
      GivesAll f s (a :: as) (b :: bs) u

namespace GivesAll

variable {α β : Type} {f : α → Action β} {s t : State} {as : List α} {bs : List β}

theorem mapM (h : GivesAll f s as bs t) : Gives (as.mapM f) s bs t := by
  induction h with
  | nil => exact gives_pure [] _
  | cons hhead _ ih =>
    rw [List.mapM_cons]
    exact hhead.bind (ih.bind (gives_pure _ _))

theorem length_eq (h : GivesAll f s as bs t) : bs.length = as.length := by
  induction h with
  | nil => rfl
  | cons _ _ ih => rw [List.length_cons, List.length_cons, ih]

/-- The values can be kept together with what they were made of. -/
theorem pair (h : GivesAll f s as bs t) :
    GivesAll (fun a => return (a, ← f a)) s as (as.zip bs) t := by
  induction h with
  | nil => exact .nil
  | cons hhead _ ih => exact .cons (hhead.bind (gives_pure _ _)) ih

/-- An action that leaves the state as it is can be run for each member in turn. -/
theorem of_pure {g : α → β} (h : ∀ a ∈ as, Gives (f a) s (g a) s) :
    GivesAll f s as (as.map g) s := by
  induction as with
  | nil => exact .nil
  | cons a as ih =>
    exact .cons (h a List.mem_cons_self) (ih fun b hb => h b (List.mem_cons_of_mem a hb))

end GivesAll

end LuaRuntime
