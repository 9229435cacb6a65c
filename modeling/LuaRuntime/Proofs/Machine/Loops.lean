import LuaRuntime.Proofs.Machine.CallDepth

/-!
# Loops over an iterator

A loop calls an iterator with a state and a control, and takes the first result for the control of
the next call, until that is nil.  `Drives` is such a loop that comes to its end.  What a call of
the iterator does is read off the body of its function, one level deeper (`call_gives`).
-/

namespace LuaRuntime

/-! ## New functions -/

/-- The state with one more function. -/
def State.withFunction (s : State) (f : Function) : State :=
  { s with functions := s.functions.push f }

theorem newFunction_gives (f : Function) (s : State) :
    Gives (newFunction f) s ⟨s.functions.size⟩ (s.withFunction f) := rfl

theorem State.function_withFunction (s : State) (f : Function) :
    (s.withFunction f).function ⟨s.functions.size⟩ = f := by
  rw [State.function, State.withFunction, Array.getElem?_push_size]
  rfl

/-! ## Loops -/

/-- Calling an iterator with a state and a control, and then with each key that it returns for the
next control, gives these entries, and nil after the last of them. -/
inductive Drives (via : Invoke) (iterator state : Value) :
    State → Value → List KeyedValue → State → Prop where
  | stop {s t : State} {control : Value} :
      Gives (call via iterator [state, control]) s [.nil] t →
      Drives via iterator state s control [] t
  | step {s t u : State} {control key v : Value} {entries : List KeyedValue} :
      Gives (call via iterator [state, control]) s [key, v] t →
      key ≠ .nil →
      Drives via iterator state t key entries u →
      Drives via iterator state s control (⟨key, v⟩ :: entries) u

/-! ## Calls -/

section

variable {remaining : Nat} {f : FunctionId} {args values : List Value} {s t : State} {body : Body}

/-- A call of a function gives what its body gives, one level deeper. -/
theorem invoke_gives (hbody : (s.function f).body = body) (hdepth : s.depth < s.limits.callDepth)
    (h : Gives (runBody (invoke remaining) f args body) s.deeper (results values) t) :
    Gives (invoke (remaining + 1) f args) s (results values) { t with depth := s.depth } := by
  rw [Gives, invoke_succ_eq, if_neg (Nat.not_le.mpr hdepth), hbody, h]

theorem call_gives (hbody : (s.function f).body = body) (hdepth : s.depth < s.limits.callDepth)
    (h : Gives (runBody (invoke remaining) f args body) s.deeper (results values) t) :
    Gives (call (invoke (remaining + 1)) (.function f) args) s values { t with depth := s.depth } :=
  (invoke_gives hbody hdepth h).bind (gives_pure values _)

end

end LuaRuntime
