import LuaRuntime.Proofs.Machine.Bodies

/-!
# The depth of calls

A relation between the state before and the state after that every step of a program keeps is kept
by every run (`Frame.run`), and by every call if it is also kept across the change of depth around a
body (`Frame.invoke`).  So the depth is balanced over all nestings of calls, whether they end with
values or with errors.

With enough nested calls left their number does not matter (`invoke_succ`).  Hence a call refuses
exactly at the limit, and `Passes` can speak of all states a call goes through: in none of them the
depth is above the limit.

A protected call says no more and no less than the call in it, except that a panic goes through it.
-/

namespace LuaRuntime

/-! ## What every run keeps -/

/-- The state one level deeper. -/
def State.deeper (s : State) : State := { s with depth := s.depth + 1 }

/-- A relation between two states that the steps of a program keep. -/
structure Frame (R : State → State → Prop) : Prop where
  refl (s : State) : R s s
  trans {s t u : State} : R s t → R t u → R s u
  change (c : Change) (s : State) : R s (c.apply s)
  patterns (patterns : Cache CompiledPattern) (s : State) : R s { s with patterns }
  formats (formats : Cache Format) (s : State) : R s { s with formats }

namespace Frame

variable {R : State → State → Prop}

theorem run {α : Type} (h : Frame R) {call : Invoke} (hcall : ∀ f args s, R s (call f args s).2)
    (p : Program α) (s : State) : R s (p.run call s).2 := by
  induction p generalizing s with
  | done result => exact h.refl s
  | read next ih => exact ih s.visible s
  | change c next ih => exact h.trans (h.change c s) (ih (c.apply s))
  | pattern source next ih => exact h.trans (h.patterns _ s) (ih _ _)
  | format source next ih => exact h.trans (h.formats _ s) (ih _ _)
  | call f args next ih => exact h.trans (hcall f args s) (ih _ _)

theorem programmed {α : Type} (h : Frame R) {x : Invoke → Action α} (hx : Programmed x)
    {call : Invoke} (hcall : ∀ f args s, R s (call f args s).2) (s : State) :
    R s (x call s).2 := by
  obtain ⟨p, hp⟩ := hx
  rw [← hp]
  exact h.run hcall p s

/-- What the steps of a program keep, every call keeps, if the depth does not matter. -/
theorem invoke (h : Frame R)
    (hnested : ∀ s t, R s.deeper t → R s { t with depth := t.depth - 1 })
    (remaining : Nat) (f : FunctionId) (args : List Value) (s : State) :
    R s (invoke remaining f args s).2 := by
  induction remaining generalizing f args s with
  | zero => exact h.refl s
  | succ remaining ih =>
    rw [LuaRuntime.invoke, nested]
    split
    · exact h.refl s
    · exact hnested s _ (h.programmed (programmed_runBody f args (s.function f).body) ih _)

end Frame

/-! ## Balance -/

/-- Two states at the same depth, under the same limits. -/
structure State.Level (s t : State) : Prop where
  depth_eq : t.depth = s.depth
  limits_eq : t.limits = s.limits

theorem frame_level : Frame State.Level where
  refl _ := ⟨rfl, rfl⟩
  trans h k := ⟨k.depth_eq.trans h.depth_eq, k.limits_eq.trans h.limits_eq⟩
  change c s := by cases c <;> exact ⟨rfl, rfl⟩
  patterns _ _ := ⟨rfl, rfl⟩
  formats _ _ := ⟨rfl, rfl⟩

theorem level_invoke (remaining : Nat) (f : FunctionId) (args : List Value) (s : State) :
    s.Level (invoke remaining f args s).2 := by
  refine frame_level.invoke (fun s t h => ⟨?_, h.limits_eq⟩) remaining f args s
  have hdeeper : t.depth = s.depth + 1 := h.depth_eq
  show t.depth - 1 = s.depth
  rw [hdeeper, Nat.add_sub_cancel]

theorem level_run {α : Type} (remaining : Nat) (p : Program α) (s : State) :
    s.Level (p.run (invoke remaining) s).2 :=
  frame_level.run (level_invoke remaining) p s

/-! ## Tables stay -/

theorem frame_tables : Frame fun s t => s.tables.size ≤ t.tables.size where
  refl _ := Nat.le_refl _
  trans := Nat.le_trans
  change c s := by cases c <;> simp [Change.apply, State.modifyTable]
  patterns _ _ := Nat.le_refl _
  formats _ _ := Nat.le_refl _

theorem tables_invoke (remaining : Nat) (f : FunctionId) (args : List Value) (s : State) :
    s.tables.size ≤ (invoke remaining f args s).2.tables.size :=
  frame_tables.invoke (fun _ _ h => h) remaining f args s

/-! ## Enough calls left -/

theorem invoke_succ_eq (remaining : Nat) (f : FunctionId) (args : List Value) (s : State) :
    invoke (remaining + 1) f args s =
      if s.limits.callDepth ≤ s.depth then (.error .stackOverflow, s)
      else
        let (result, t) := runBody (invoke remaining) f args (s.function f).body s.deeper
        (result, { t with depth := s.depth }) := by
  have hdepth : (runBody (invoke remaining) f args (s.function f).body s.deeper).2.depth =
      s.depth + 1 :=
    (frame_level.programmed (programmed_runBody f args _) (level_invoke remaining) _).depth_eq
  rw [invoke, nested]
  split
  · rfl
  · show (let (result, t) := runBody (invoke remaining) f args (s.function f).body s.deeper
      (result, { t with depth := t.depth - 1 })) = _
    generalize runBody (invoke remaining) f args (s.function f).body s.deeper = run at hdepth ⊢
    obtain ⟨result, t⟩ := run
    dsimp only at hdepth ⊢
    rw [hdepth, Nat.add_sub_cancel]

/-- Two ways to call functions that agree at a level give a program the same run there. -/
theorem Program.run_congr {α : Type} {call call' : Invoke} {s t : State} (p : Program α)
    (hlevel : ∀ f args (t : State), t.Level (call f args t).2)
    (h : ∀ f args t, s.Level t → call f args t = call' f args t) (ht : s.Level t) :
    p.run call t = p.run call' t := by
  induction p generalizing t with
  | done result => rfl
  | read next ih => exact ih t.visible ht
  | change c next ih => exact ih (frame_level.trans ht (frame_level.change c t))
  | pattern source next ih => exact ih _ (frame_level.trans ht (frame_level.patterns _ t))
  | format source next ih => exact ih _ (frame_level.trans ht (frame_level.formats _ t))
  | call f args next ih =>
    rw [Program.run, Program.run, ← h f args t ht]
    exact ih _ (frame_level.trans ht (hlevel f args t))

/-- If the calls left reach up to the limit, one more makes no difference. -/
theorem invoke_succ {remaining : Nat} {s : State}
    (h : s.limits.callDepth ≤ s.depth + remaining) (f : FunctionId) (args : List Value) :
    invoke (remaining + 1) f args s = invoke remaining f args s := by
  induction remaining generalizing f args s with
  | zero =>
    rw [invoke_succ_eq]
    exact if_pos h
  | succ remaining ih =>
    obtain ⟨p, hp⟩ := programmed_runBody f args (s.function f).body
    have hbody : p.run (invoke (remaining + 1)) s.deeper = p.run (invoke remaining) s.deeper := by
      refine p.run_congr (level_invoke _) (fun g args t ht => ?_) (frame_level.refl s.deeper)
      refine ih ?_ g args
      rw [ht.limits_eq, ht.depth_eq]
      show s.limits.callDepth ≤ s.depth + 1 + remaining
      omega
    rw [hp, hp] at hbody
    rw [invoke_succ_eq, invoke_succ_eq]
    beta_reduce at hbody
    rw [hbody]

/-- A call refuses at the limit.  Else it is the run of the body one level deeper, with the same
calls in it. -/
theorem invoke_eq {remaining : Nat} {s : State} (h : s.limits.callDepth ≤ s.depth + remaining)
    (f : FunctionId) (args : List Value) :
    invoke remaining f args s =
      if s.limits.callDepth ≤ s.depth then (.error .stackOverflow, s)
      else
        let (result, t) := runBody (invoke remaining) f args (s.function f).body s.deeper
        (result, { t with depth := s.depth }) := by
  rw [← invoke_succ h, invoke_succ_eq]

/-! ## States on the way -/

/-- The states that a run of a program passes through, given those that a call passes through. -/
def Program.Passes {α : Type} (call : Invoke)
    (inside : FunctionId → List Value → State → State → Prop) : Program α → State → State → Prop
  | .done _, s, t => t = s
  | .read next, s, t => (next s.visible).Passes call inside s t
  | .change c next, s, t => t = s ∨ next.Passes call inside (c.apply s) t
  | .pattern source next, s, t =>
      let (reading, patterns) := s.patterns.read (CompiledPattern.new Regex.backtracking) source
      t = s ∨ (next reading).Passes call inside { s with patterns } t
  | .format source next, s, t =>
      let (reading, formats) := s.formats.read Format.parse source
      t = s ∨ (next reading).Passes call inside { s with formats } t
  | .call f args next, s, t =>
      let (result, u) := call f args s
      inside f args s t ∨ (next result).Passes call inside u t

/-- The states that a call passes through: where it starts, those of its body one level deeper, and
where it ends.  Every program that is the body counts. -/
def Passes : (remaining : Nat) → FunctionId → List Value → State → State → Prop
  | 0, _, _, s, t => t = s
  | remaining + 1, f, args, s, t =>
      t = s ∨ t = (invoke (remaining + 1) f args s).2 ∨
        s.depth < s.limits.callDepth ∧ ∃ p : Program Outcome,
          (∀ call, p.run call = runBody call f args (s.function f).body) ∧
            p.Passes (invoke remaining) (Passes remaining) s.deeper t

/-- A state whose depth is not above the limit. -/
def State.WithinLimit (s : State) : Prop := s.depth ≤ s.limits.callDepth

theorem State.Level.withinLimit {s t : State} (h : s.Level t) (hs : s.WithinLimit) :
    t.WithinLimit := by
  rw [WithinLimit, h.depth_eq, h.limits_eq]
  exact hs

theorem Program.Passes.withinLimit {α : Type} {call : Invoke}
    {inside : FunctionId → List Value → State → State → Prop}
    (hcall : ∀ f args (s : State), s.Level (call f args s).2)
    (hinside : ∀ f args s t, s.WithinLimit → inside f args s t → t.WithinLimit)
    {p : Program α} {s t : State} (hs : s.WithinLimit) (h : p.Passes call inside s t) :
    t.WithinLimit := by
  induction p generalizing s with
  | done result => exact h ▸ hs
  | read next ih => exact ih s.visible hs h
  | change c next ih =>
    rcases h with rfl | h
    · exact hs
    · exact ih ((frame_level.change c s).withinLimit hs) h
  | pattern source next ih =>
    rcases h with rfl | h
    · exact hs
    · exact ih _ ((frame_level.patterns _ s).withinLimit hs) h
  | format source next ih =>
    rcases h with rfl | h
    · exact hs
    · exact ih _ ((frame_level.formats _ s).withinLimit hs) h
  | call f args next ih =>
    rcases h with h | h
    · exact hinside f args s t hs h
    · exact ih _ ((hcall f args s).withinLimit hs) h

/-- A call that starts within the limit stays within it all the time. -/
theorem Passes.withinLimit {remaining : Nat} {f : FunctionId} {args : List Value} {s t : State}
    (hs : s.WithinLimit) (h : Passes remaining f args s t) : t.WithinLimit := by
  induction remaining generalizing f args s t with
  | zero => exact h ▸ hs
  | succ remaining ih =>
    rcases h with rfl | rfl | ⟨hlt, p, -, h⟩
    · exact hs
    · exact (level_invoke _ f args s).withinLimit hs
    · refine h.withinLimit (level_invoke remaining) (fun _ _ _ _ => ih) ?_
      show s.depth + 1 ≤ s.limits.callDepth
      exact hlt

/-! ## Protected calls -/

theorem Error.isPanic_iff {e : Error} : e.isPanic = true ↔ e = .panic := by
  cases e <;> simp [isPanic]

/-- Nothing is caught but what is no panic. -/
theorem catching_run {α : Type} (x : Action α) (handler : Error → Action α) (s : State) :
    catching x handler s =
      match x s with
      | (.ok a, t) => (.ok a, t)
      | (.error e, t) => if e.isPanic then (.error e, t) else handler e t := by
  rw [catching, tryCatch_run]
  rcases x s with ⟨result, t⟩
  cases result with
  | ok a => rfl
  | error e =>
    dsimp only
    split
    · rfl
    · rfl

section

variable (invoke : Invoke) (callee handler : Value) (args : List Value) (s t : State)

theorem call_run : call invoke callee args s =
    match callOutcome invoke callee args s with
    | (.ok outcome, t) => (.ok outcome.values, t)
    | (.error e, t) => (.error e, t) := by
  rw [call, bind_run]
  rcases callOutcome invoke callee args s with ⟨result, t⟩
  cases result <;> rfl

/-- The values of a call are those of its outcome, whether they replace it or not. -/
theorem call_eq_ok_iff (vs : List Value) : call invoke callee args s = (.ok vs, t) ↔
    ∃ outcome, callOutcome invoke callee args s = (.ok outcome, t) ∧ outcome.values = vs := by
  rw [call_run]
  rcases callOutcome invoke callee args s with ⟨result, u⟩
  constructor
  · intro h
    cases result <;> cases h
    exact ⟨_, rfl, rfl⟩
  · rintro ⟨outcome, h, rfl⟩
    cases h
    rfl

theorem call_eq_error_iff (e : Error) : call invoke callee args s = (.error e, t) ↔
    callOutcome invoke callee args s = (.error e, t) := by
  rw [call_run]
  rcases callOutcome invoke callee args s with ⟨result, u⟩
  constructor
  · intro h
    cases result <;> cases h
    rfl
  · intro h
    cases h
    rfl

theorem protectedCall_run : protectedCall invoke callee args s =
    match call invoke callee args s with
    | (.ok vs, t) => (.ok (.boolean true :: vs), t)
    | (.error e, t) =>
        if e.isPanic then (.error e, t) else (.ok [.boolean false, e.toValue], t) := by
  rw [protectedCall, catching_run, bind_run]
  rcases call invoke callee args s with ⟨result, t⟩
  cases result <;> rfl

theorem protectedCall_eq_true_iff (vs : List Value) :
    protectedCall invoke callee args s = (.ok (.boolean true :: vs), t) ↔
      call invoke callee args s = (.ok vs, t) := by
  rw [protectedCall_run]
  rcases call invoke callee args s with ⟨result, u⟩
  constructor
  · intro h
    cases result with
    | ok values =>
      cases h
      rfl
    | error e =>
      dsimp only at h
      split at h
      · cases h
      · cases h
  · intro h
    cases h
    rfl

theorem protectedCall_eq_false_iff (v : Value) :
    protectedCall invoke callee args s = (.ok [.boolean false, v], t) ↔
      ∃ e, call invoke callee args s = (.error e, t) ∧ e ≠ .panic ∧ e.toValue = v := by
  rw [protectedCall_run]
  rcases call invoke callee args s with ⟨result, u⟩
  constructor
  · intro h
    cases result with
    | ok vs => cases h
    | error e =>
      dsimp only at h
      split at h
      · cases h
      · next hpanic =>
        cases h
        exact ⟨e, rfl, fun h => hpanic (Error.isPanic_iff.mpr h), rfl⟩
  · rintro ⟨e, h, hpanic, rfl⟩
    cases h
    exact if_neg fun h => hpanic (Error.isPanic_iff.mp h)

/-- A protected call fails only by a panic of the call in it. -/
theorem protectedCall_eq_error_iff (e : Error) :
    protectedCall invoke callee args s = (.error e, t) ↔
      e = .panic ∧ call invoke callee args s = (.error .panic, t) := by
  rw [protectedCall_run]
  rcases call invoke callee args s with ⟨result, u⟩
  constructor
  · intro h
    cases result with
    | ok vs => cases h
    | error e' =>
      dsimp only at h
      split at h
      · next hpanic =>
        cases h
        obtain rfl := Error.isPanic_iff.mp hpanic
        exact ⟨rfl, rfl⟩
      · cases h
  · rintro ⟨rfl, h⟩
    cases h
    rfl

theorem handledCall_run : handledCall invoke callee handler args s =
    match call invoke callee args s with
    | (.ok vs, t) => (.ok (.boolean true :: vs), t)
    | (.error e, t) =>
        if e.isPanic then (.error e, t)
        else
          match callFirst invoke handler [e.toValue] t with
          | (.ok v, u) => (.ok [.boolean false, v], u)
          | (.error second, u) =>
              if second.isPanic then (.error second, u)
              else (.ok [.boolean false, second.toValue], u) := by
  rw [handledCall, catching_run, bind_run]
  rcases call invoke callee args s with ⟨result, t⟩
  cases result with
  | ok vs => rfl
  | error e =>
    dsimp only
    refine if_congr Iff.rfl rfl ?_
    rw [bind_run, catching_run]
    rcases callFirst invoke handler [e.toValue] t with ⟨result, u⟩
    cases result with
    | ok v => rfl
    | error second =>
      dsimp only
      cases second.isPanic with
      | true => rfl
      | false => rfl

theorem handledCall_eq_true_iff (vs : List Value) :
    handledCall invoke callee handler args s = (.ok (.boolean true :: vs), t) ↔
      call invoke callee args s = (.ok vs, t) := by
  rw [handledCall_run]
  rcases call invoke callee args s with ⟨result, u⟩
  constructor
  · intro h
    cases result with
    | ok values =>
      cases h
      rfl
    | error e =>
      dsimp only at h
      split at h
      · cases h
      · split at h
        · cases h
        · split at h
          · cases h
          · cases h
  · intro h
    cases h
    rfl

section

variable {e : Error} (h : call invoke callee args s = (.error e, t)) (hpanic : e ≠ .panic)
  (u : State)
include h hpanic

theorem handledCall_of_report (v : Value)
    (hreport : callFirst invoke handler [e.toValue] t = (.ok v, u)) :
    handledCall invoke callee handler args s = (.ok [.boolean false, v], u) := by
  rw [handledCall_run, h]
  dsimp only
  rw [if_neg (mt Error.isPanic_iff.mp hpanic), hreport]

theorem handledCall_of_second (second : Error) (hsecond : second ≠ .panic)
    (hreport : callFirst invoke handler [e.toValue] t = (.error second, u)) :
    handledCall invoke callee handler args s = (.ok [.boolean false, second.toValue], u) := by
  rw [handledCall_run, h]
  dsimp only
  rw [if_neg (mt Error.isPanic_iff.mp hpanic), hreport]
  exact if_neg (mt Error.isPanic_iff.mp hsecond)

end

/-- A handled call fails only by a panic, of the call in it or of the handler. -/
theorem handledCall_eq_error_iff (e : Error) :
    handledCall invoke callee handler args s = (.error e, t) ↔
      e = .panic ∧ (call invoke callee args s = (.error .panic, t) ∨
        ∃ first u, call invoke callee args s = (.error first, u) ∧ first ≠ .panic ∧
          callFirst invoke handler [first.toValue] u = (.error .panic, t)) := by
  rw [handledCall_run]
  rcases call invoke callee args s with ⟨result, u⟩
  constructor
  · intro h
    cases result with
    | ok vs => cases h
    | error first =>
      dsimp only at h
      split at h
      · next hpanic =>
        cases h
        obtain rfl := Error.isPanic_iff.mp hpanic
        exact ⟨rfl, .inl rfl⟩
      · next hpanic =>
        split at h
        · cases h
        · next second w hreport =>
          split at h
          · next hsecond =>
            cases h
            obtain rfl := Error.isPanic_iff.mp hsecond
            exact ⟨rfl, .inr ⟨first, u, rfl, mt Error.isPanic_iff.mpr hpanic, hreport⟩⟩
          · cases h
  · rintro ⟨rfl, h | ⟨first, w, h, hpanic, hreport⟩⟩
    · cases h
      rfl
    · cases h
      dsimp only
      rw [if_neg (mt Error.isPanic_iff.mp hpanic), hreport]
      rfl

end

/-! ## Whole runs -/

/-- Over all nestings of calls, and for every function and state:

* a body is a program, and a call, a program and a whole run end at the depth they started at,
  whether they fail or not;
* within the limit at the start, the depth is above it in no state on the way;
* a call itself overflows exactly at the limit, and below it the call is its body one level deeper;
* a protected call reports the values or the error of the call in it, and leaves its state;
* a handled call does the same, except that the error goes through the handler;
* neither fails but by a panic. -/
theorem calls_are_balanced_and_protected :
    (∀ (f : FunctionId) (args : List Value) (body : Body),
      Programmed fun call => runBody call f args body) ∧
    (∀ (remaining : Nat) (f : FunctionId) (args : List Value) (s : State),
      (invoke remaining f args s).2.depth = s.depth ∧
        (invoke remaining f args s).2.limits = s.limits) ∧
    (∀ (α : Type) (p : Program α) (remaining : Nat) (s : State),
      (p.run (invoke remaining) s).2.depth = s.depth) ∧
    (∀ (e : Expr) (s : State), (run e s).2.depth = s.depth) ∧
    (∀ (remaining : Nat) (f : FunctionId) (args : List Value) (s t : State),
      s.depth ≤ s.limits.callDepth → Passes remaining f args s t →
        t.depth ≤ t.limits.callDepth) ∧
    (∀ (α : Type) (p : Program α) (remaining : Nat) (s t : State),
      s.depth ≤ s.limits.callDepth → p.Passes (invoke remaining) (Passes remaining) s t →
        t.depth ≤ t.limits.callDepth) ∧
    (∀ (remaining : Nat) (f : FunctionId) (args : List Value) (s : State),
      s.depth ≤ s.limits.callDepth → s.limits.callDepth ≤ s.depth + remaining →
        invoke remaining f args s =
          if s.depth = s.limits.callDepth then (.error .stackOverflow, s)
          else
            let (result, t) := runBody (invoke remaining) f args (s.function f).body s.deeper
            (result, { t with depth := s.depth })) ∧
    (∀ (invoke : Invoke) (callee : Value) (args : List Value) (s t : State),
      (∀ vs, protectedCall invoke callee args s = (.ok (.boolean true :: vs), t) ↔
        call invoke callee args s = (.ok vs, t)) ∧
      (∀ v, protectedCall invoke callee args s = (.ok [.boolean false, v], t) ↔
        ∃ e, call invoke callee args s = (.error e, t) ∧ e ≠ .panic ∧ e.toValue = v) ∧
      (∀ e, protectedCall invoke callee args s = (.error e, t) ↔
        e = .panic ∧ call invoke callee args s = (.error .panic, t)) ∧
      (∀ vs, call invoke callee args s = (.ok vs, t) ↔
        ∃ outcome, callOutcome invoke callee args s = (.ok outcome, t) ∧ outcome.values = vs) ∧
      (∀ e, call invoke callee args s = (.error e, t) ↔
        callOutcome invoke callee args s = (.error e, t)) ∧
      ∀ v, (Error.raised v).toValue = v) ∧
    (∀ (invoke : Invoke) (callee handler : Value) (args : List Value) (s t : State),
      (∀ vs, handledCall invoke callee handler args s = (.ok (.boolean true :: vs), t) ↔
        call invoke callee args s = (.ok vs, t)) ∧
      (∀ e, call invoke callee args s = (.error e, t) → e ≠ .panic → ∀ u,
        (∀ v, callFirst invoke handler [e.toValue] t = (.ok v, u) →
          handledCall invoke callee handler args s = (.ok [.boolean false, v], u)) ∧
        ∀ second, callFirst invoke handler [e.toValue] t = (.error second, u) →
          second ≠ .panic →
            handledCall invoke callee handler args s =
              (.ok [.boolean false, second.toValue], u)) ∧
      ∀ e, handledCall invoke callee handler args s = (.error e, t) ↔
        e = .panic ∧ (call invoke callee args s = (.error .panic, t) ∨
          ∃ first u, call invoke callee args s = (.error first, u) ∧ first ≠ .panic ∧
            callFirst invoke handler [first.toValue] u = (.error .panic, t))) := by
  refine ⟨programmed_runBody, ?_, ?_, ?_, ?_, ?_, ?_, ?_, ?_⟩
  · intro remaining f args s
    have hlevel := level_invoke remaining f args s
    exact ⟨hlevel.depth_eq, hlevel.limits_eq⟩
  · intro α p remaining s
    exact (level_run remaining p s).depth_eq
  · intro e s
    exact (frame_level.programmed (programmed_eval [] e) (level_invoke _) s).depth_eq
  · intro remaining f args s t hs h
    exact h.withinLimit hs
  · intro α p remaining s t hs h
    exact h.withinLimit (level_invoke remaining) (fun _ _ _ _ => Passes.withinLimit) hs
  · intro remaining f args s hs hremaining
    have hlimit : s.limits.callDepth ≤ s.depth ↔ s.depth = s.limits.callDepth := by omega
    rw [invoke_eq hremaining]
    exact if_congr hlimit rfl rfl
  · intro invoke callee args s t
    exact ⟨protectedCall_eq_true_iff invoke callee args s t,
      protectedCall_eq_false_iff invoke callee args s t,
      protectedCall_eq_error_iff invoke callee args s t, call_eq_ok_iff invoke callee args s t,
      call_eq_error_iff invoke callee args s t, fun _ => rfl⟩
  · intro invoke callee handler args s t
    exact ⟨handledCall_eq_true_iff invoke callee handler args s t, fun _ h hpanic u =>
        ⟨handledCall_of_report invoke callee handler args s t h hpanic u,
          fun second hreport hsecond =>
            handledCall_of_second invoke callee handler args s t h hpanic u second hsecond hreport⟩,
      handledCall_eq_error_iff invoke callee handler args s t⟩

/-- A function that calls its argument with itself and one that returns its arguments, in a runtime
that allows two nested calls. -/
def recursing : State :=
  { State.initial { callDepth := 2 } .keep 0 with
    functions := #[⟨"recurse", .script false [.apply .call [.argument 1, .argument 1]]⟩,
      ⟨"echo", .builtin .echo⟩] }

theorem recursing_calls_are_balanced_and_protected :
    invoke 2 ⟨0⟩ [.function ⟨0⟩] recursing = (.error .stackOverflow, recursing) ∧
      (∀ t, Passes 2 ⟨0⟩ [.function ⟨0⟩] recursing t → t.depth ≤ t.limits.callDepth) ∧
      protectedCall (invoke 2) (.function ⟨0⟩) [.function ⟨0⟩] recursing =
        (.ok [.boolean false, .string "stack overflow"], recursing) ∧
      handledCall (invoke 2) (.function ⟨0⟩) (.function ⟨1⟩) [.function ⟨0⟩] recursing =
        (.ok [.boolean false, .string "stack overflow"], recursing) ∧
      handledCall (invoke 2) (.function ⟨0⟩) (.boolean true) [.function ⟨0⟩] recursing =
        (.ok [.boolean false, .string "attempt to call a boolean value"], recursing) := by
  have hcall : call (invoke 2) (.function ⟨0⟩) [.function ⟨0⟩] recursing =
    (.error .stackOverflow, recursing) := rfl
  obtain ⟨-, -, -, -, hpasses, -, hinvoke, hprotected, hhandled⟩ := calls_are_balanced_and_protected
  refine ⟨?_, fun t => hpasses 2 _ _ recursing t (by decide), ?_, ?_, ?_⟩
  · rw [hinvoke 2 _ _ _ (by decide) (by decide)]
    rfl
  · exact ((hprotected _ _ _ _ _).2.1 _).mpr ⟨_, hcall, by decide, rfl⟩
  · exact ((hhandled _ _ _ _ _ _).2.1 _ hcall (by decide) _).1 _ rfl
  · exact ((hhandled _ _ _ _ _ _).2.1 _ hcall (by decide) _).2 (.call .boolean) rfl (by decide)

end LuaRuntime
