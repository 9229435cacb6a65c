import LuaRuntime.Library.String
import LuaRuntime.Proofs.Format.Reading
import LuaRuntime.Proofs.State.Action

/-!
# The values that directives write

A directive without a reference writes the next value in order, whichever values other directives
name.  `usedPosition` is the position of the value a directive uses, counted from 1, given the
segments before it.  If there is no value at that position, resolving the reference fails and the
error names the argument, the format string being the first (`resolveReference_eq_error`).  Else it
is that value, or what a path of fields leads to from it (`resolveReference_eq`).

The number of an argument is kept in a word of 64 bits, and is one more than the position.  If that
fits no word, which is so for the greatest position that a format string can name, there is a panic
(`argumentNumber_eq_ok_iff`).

The segments are written one after the other.  A text is the texts of all of them, and the first
segment that fails is the last one looked at (`renderSegments_cases`).
-/

namespace LuaRuntime

/-! ## Positions -/

/-- Whether a segment writes the next value in order. -/
def Segment.takesNext : Segment → Bool
  | .literal _ => false
  | .directive d => decide (d.reference = .next)

/-- How many segments write a value in order. -/
def inOrder (segments : List Segment) : Nat := segments.countP Segment.takesNext

/-- The position of the value that a reference uses after some segments. -/
def usedPosition (before : List Segment) : Reference → Nat
  | .next => inOrder before + 1
  | .position n => n
  | .path _ => 1

theorem inOrder_append_singleton (before : List Segment) (segment : Segment) :
    inOrder (before ++ [segment]) = inOrder before + if segment.takesNext then 1 else 0 := by
  rw [inOrder, List.countP_append, List.countP_singleton, inOrder]

theorem usedPosition_pos {before : List Segment} {reference : Reference}
    (h : Format.NormalReference reference) : 1 ≤ usedPosition before reference := by
  cases reference with
  | next => exact Nat.succ_pos _
  | position n => exact h.1
  | path fields => exact Nat.le_refl 1

theorem argumentNumber_eq_ok {position : Nat} (h : position + 1 < 2 ^ 64) :
    argumentNumber position = .ok (position + 1) := if_pos h

theorem argumentNumber_eq_panic {position : Nat} (h : 2 ^ 64 ≤ position + 1) :
    argumentNumber position = .error .panic := if_neg (Nat.not_lt.mpr h)

/-- There is a number of an argument unless it is too great for a word. -/
theorem argumentNumber_eq_ok_iff (position number : Nat) :
    argumentNumber position = .ok number ↔ position + 1 < 2 ^ 64 ∧ number = position + 1 := by
  rcases Nat.lt_or_ge (position + 1) (2 ^ 64) with h | h
  · rw [argumentNumber_eq_ok h, Except.ok.injEq, eq_comm, and_iff_right h]
  · rw [argumentNumber_eq_panic h]
    exact iff_of_false (by rintro ⟨⟩) fun hfits => Nat.not_lt.mpr h hfits.1

/-! ## References -/

/-- Reads a field of a table. -/
def readField (call : Invoke) (v : Value) (field : String) : Action Value :=
  match v with
  | .table _ => index call v (.string field)
  | _ => throw (.badArgument 2 "format" (.fieldOf field v.kind))

theorem followPath_eq_foldlM (call : Invoke) (fields : List String) (v : Value) :
    followPath call fields v = fields.foldlM (readField call) v := by
  induction fields generalizing v with
  | nil => rfl
  | cons field rest ih =>
    rw [List.foldlM_cons, ← funext ih]
    cases v <;> rfl

section

variable (call : Invoke) {values : List Value} {before : List Segment} {reference : Reference}

theorem formatValue_of_getElem? {position : Nat} {v : Value} (hfits : position + 1 < 2 ^ 64)
    (h : values[position - 1]? = some v) :
    formatValue values.toArray position = .ok (v, position + 1) := by
  rw [formatValue, argumentNumber_eq_ok hfits, List.getElem?_toArray, h]
  rfl

theorem formatValue_of_absent {position : Nat} (hpos : 1 ≤ position)
    (hfits : position + 1 < 2 ^ 64) (h : values.length < position) :
    formatValue values.toArray position =
      .error (.badArgument (position + 1) "format" .noValue) := by
  have hnone : values[position - 1]? = none := List.getElem?_eq_none (by omega)
  rw [formatValue, argumentNumber_eq_ok hfits, List.getElem?_toArray, hnone]
  rfl

theorem formatValue_of_overflow {position : Nat} (h : 2 ^ 64 ≤ position + 1) :
    formatValue values.toArray position = .error .panic := by
  rw [formatValue, argumentNumber_eq_panic h]
  rfl

/-- What a reference comes to, given the value at the position it uses and the number of that
argument. -/
def reached (call : Invoke) (number : Nat) (v : Value) : Reference → Action (Value × Nat)
  | .path fields => return (← fields.foldlM (readField call) v, number)
  | _ => return (v, number)

theorem resolveReference_run (s : State) :
    resolveReference call values.toArray (inOrder before) reference s =
      match formatValue values.toArray (usedPosition before reference) with
      | .ok (v, number) => reached call number v reference s
      | .error e => (.error e, s) := by
  cases reference with
  | next =>
    show (liftM (formatValue values.toArray (inOrder before + 1)) : Action _) s = _
    rw [lift_run, usedPosition]
    cases formatValue values.toArray (inOrder before + 1) <;> rfl
  | position n =>
    show (liftM (formatValue values.toArray n) : Action _) s = _
    rw [lift_run, usedPosition]
    cases formatValue values.toArray n <;> rfl
  | path fields =>
    rw [resolveReference, bind_run, lift_run, usedPosition]
    cases formatValue values.toArray 1 with
    | error e => rfl
    | ok result =>
      show (followPath call fields result.1 >>= fun w => pure (w, result.2)) s = _
      rw [followPath_eq_foldlM]
      rfl

/-- Without a value at its position a reference fails, and nothing is read. -/
theorem resolveReference_eq_error (hpos : 1 ≤ usedPosition before reference)
    (h : values.length < usedPosition before reference)
    (hfits : usedPosition before reference + 1 < 2 ^ 64) (s : State) :
    resolveReference call values.toArray (inOrder before) reference s =
      (.error (.badArgument (usedPosition before reference + 1) "format" .noValue), s) := by
  rw [resolveReference_run, formatValue_of_absent hpos hfits h]

theorem resolveReference_eq {v : Value}
    (h : values[usedPosition before reference - 1]? = some v)
    (hfits : usedPosition before reference + 1 < 2 ^ 64) (s : State) :
    resolveReference call values.toArray (inOrder before) reference s =
      reached call (usedPosition before reference + 1) v reference s := by
  rw [resolveReference_run, formatValue_of_getElem? hfits h]

theorem resolveReference_eq_panic (h : 2 ^ 64 ≤ usedPosition before reference + 1) (s : State) :
    resolveReference call values.toArray (inOrder before) reference s = (.error .panic, s) := by
  rw [resolveReference_run, formatValue_of_overflow h]

end

/-! ## Segments -/

/-- The text of a segment after some others. -/
def segmentText (call : Invoke) (values : List Value) (before : List Segment) :
    Segment → Action (List Char)
  | .literal text => pure text
  | .directive d => do
      let (v, number) ← resolveReference call values.toArray (inOrder before) d.reference
      renderDirective call d v number

/-- Segments are written one after the other, each in the state that the one before left. -/
inductive Writes (call : Invoke) (values : List Value) :
    List Segment → State → List Segment → List (List Char) → State → Prop where
  | nil {before : List Segment} {s : State} : Writes call values before s [] [] s
  | cons {before rest : List Segment} {segment : Segment} {s t u : State} {text : List Char}
      {texts : List (List Char)} :
      Gives (segmentText call values before segment) s text t →
      Writes call values (before ++ [segment]) t rest texts u →
      Writes call values before s (segment :: rest) (text :: texts) u

section

variable (call : Invoke) (values : List Value)

theorem renderSegments_cons (before rest : List Segment) (segment : Segment) :
    renderSegments call values.toArray (inOrder before) (segment :: rest) =
      (segmentText call values before segment >>= fun text =>
        return text ++
          (← renderSegments call values.toArray (inOrder (before ++ [segment])) rest)) := by
  rw [inOrder_append_singleton]
  cases segment with
  | literal text => rfl
  | directive d =>
    have hwritten : (if d.reference = .next then inOrder before + 1 else inOrder before) =
        inOrder before + if (Segment.directive d).takesNext then 1 else 0 := by
      by_cases hnext : d.reference = .next <;> simp [Segment.takesNext, hnext]
    rw [renderSegments, segmentText, bind_assoc, hwritten]

/-- Either all segments are written, and the text is theirs, or one fails after those before it have
been written. -/
theorem renderSegments_cases (before segments : List Segment) (s : State) :
    (∃ texts t, Writes call values before s segments texts t ∧
        renderSegments call values.toArray (inOrder before) segments s =
          (.ok texts.flatten, t)) ∨
      ∃ done segment rest texts t e u, segments = done ++ segment :: rest ∧
        Writes call values before s done texts t ∧
        segmentText call values (before ++ done) segment t = (.error e, u) ∧
        renderSegments call values.toArray (inOrder before) segments s = (.error e, u) := by
  induction segments generalizing before s with
  | nil => exact .inl ⟨[], s, .nil, rfl⟩
  | cons segment rest ih =>
    rw [renderSegments_cons, bind_run]
    rcases hsegment : segmentText call values before segment s with ⟨result, t⟩
    cases result with
    | error e =>
      exact .inr ⟨[], segment, rest, [], s, e, t, rfl, .nil, by simpa using hsegment, rfl⟩
    | ok text =>
      rcases ih (before ++ [segment]) t with ⟨texts, u, hwrites, hrun⟩ |
        ⟨done, failing, after, texts, u, e, w, rfl, hwrites, hfails, hrun⟩
      · refine .inl ⟨text :: texts, u, .cons hsegment hwrites, ?_⟩
        show (renderSegments _ _ _ _ >>= _) t = _
        rw [bind_run, hrun]
        rfl
      · refine .inr ⟨segment :: done, failing, after, text :: texts, u, e, w, rfl,
          .cons hsegment hwrites, by simpa using hfails, ?_⟩
        show (renderSegments _ _ _ _ >>= _) t = _
        rw [bind_run, hrun]

end

/-! ## Formats -/

/-- What resolving a reference comes to after some segments.  As long as the number of the argument
fits in a word, it fails by itself only if there is no value at the position it uses, and then
nothing is read. -/
structure ResolvesNamed (call : Invoke) (values : List Value) (before : List Segment)
    (reference : Reference) : Prop where
  positive : 1 ≤ usedPosition before reference
  bounded : ∀ n, reference = .position n → n < 2 ^ 64
  absent : values.length < usedPosition before reference →
    usedPosition before reference + 1 < 2 ^ 64 → ∀ s,
      resolveReference call values.toArray (inOrder before) reference s =
        (.error (.badArgument (usedPosition before reference + 1) "format" .noValue), s)
  present : usedPosition before reference ≤ values.length →
    usedPosition before reference + 1 < 2 ^ 64 →
      ∃ v, values[usedPosition before reference - 1]? = some v ∧ ∀ s,
        resolveReference call values.toArray (inOrder before) reference s =
          reached call (usedPosition before reference + 1) v reference s
  overflowing : 2 ^ 64 ≤ usedPosition before reference + 1 → ∀ s,
    resolveReference call values.toArray (inOrder before) reference s = (.error .panic, s)

theorem resolvesNamed (call : Invoke) (values : List Value) (before : List Segment)
    {reference : Reference} (h : Format.NormalReference reference) :
    ResolvesNamed call values before reference where
  positive := usedPosition_pos h
  bounded := by
    rintro n rfl
    exact h.2
  absent := resolveReference_eq_error call (usedPosition_pos h)
  present hle hfits := by
    have hpos : 1 ≤ usedPosition before reference := usedPosition_pos h
    obtain ⟨v, hv⟩ : ∃ v, values[usedPosition before reference - 1]? = some v :=
      ⟨_, List.getElem?_eq_getElem (by omega)⟩
    exact ⟨v, hv, resolveReference_eq call hv hfits⟩
  overflowing := resolveReference_eq_panic call

theorem normal_of_parse {source : String} {f : Format} (h : Format.parse source = .ok f) :
    Format.Normal f.segments := by
  obtain ⟨pieces, hspells, hunmixed, hsegments⟩ :=
    Format.parseSegments_eq_ok_iff.mp (Format.parse_eq_ok_iff.mp h)
  rw [hsegments]
  exact Format.normal_group hspells hunmixed

/-- Every directive of a format that can be read uses the value at the position it names, or the
next one in order, or goes along a path from the first one.  The error of an absent value names its
argument exactly as long as the number of the argument fits in a word, and otherwise there is a
panic.  The text is that of all segments in order, and an error is that of the first segment that
fails. -/
theorem directives_use_named_values {source : String} {f : Format}
    (h : Format.parse source = .ok f) (call : Invoke) (values : List Value) :
    (∀ before d after, f.segments = before ++ .directive d :: after →
        ResolvesNamed call values before d.reference) ∧
      (∀ position number, argumentNumber position = .ok number ↔
        position + 1 < 2 ^ 64 ∧ number = position + 1) ∧
      ∀ s, (∃ texts t, Writes call values [] s f.segments texts t ∧
          renderSegments call values.toArray 0 f.segments s = (.ok texts.flatten, t)) ∨
        ∃ done segment rest texts t e u, f.segments = done ++ segment :: rest ∧
          Writes call values [] s done texts t ∧
          segmentText call values done segment t = (.error e, u) ∧
          renderSegments call values.toArray 0 f.segments s = (.error e, u) := by
  refine ⟨fun before d after hsplit => ?_, argumentNumber_eq_ok_iff,
    renderSegments_cases call values [] f.segments⟩
  have hmem : .directive d ∈ f.segments := by
    rw [hsplit]
    exact List.mem_append_right _ List.mem_cons_self
  exact resolvesNamed call values before ((normal_of_parse h).directives d hmem).reference

/-- A directive that names the second value, and one that writes the first in order. -/
def secondThenFirst : Format :=
  ⟨[.directive ⟨.position 2, {}, none, none, .integer⟩, .directive ⟨.next, {}, none, none, .text⟩]⟩

theorem parse_secondThenFirst : Format.parse "%2$d%s" = .ok secondThenFirst := by
  decide +kernel

theorem secondThenFirst_uses_named_values :
    resolveReference (fun _ _ => throw .stackOverflow) #[.boolean true] 0 (.position 2)
        (State.initial {} .keep 0) =
        (.error (.badArgument 3 "format" .noValue), State.initial {} .keep 0) ∧
      ∃ v, [Value.boolean true][0]? = some v ∧
        resolveReference (fun _ _ => throw .stackOverflow) #[.boolean true] 0 .next
          (State.initial {} .keep 0) = (.ok (v, 2), State.initial {} .keep 0) := by
  have hnamed := (directives_use_named_values parse_secondThenFirst
    (fun _ _ => throw .stackOverflow) [.boolean true]).1
  refine ⟨(hnamed [] _ _ rfl).absent (by decide) (by decide) _, ?_⟩
  obtain ⟨v, hv, hrun⟩ := (hnamed [_] _ [] rfl).present (by decide) (by decide)
  exact ⟨v, hv, hrun _⟩

/-- The number of the argument at the greatest position that can be named is no word, and instead of
the error of its absence there is a panic. -/
theorem greatest_position_panics :
    Format.parse "%18446744073709551615$d" =
        .ok ⟨[.directive ⟨.position 18446744073709551615, {}, none, none, .integer⟩]⟩ ∧
      (formatValues (fun _ _ => throw .stackOverflow) [.string "%18446744073709551615$d"]
        (State.initial {} .keep 0)).1 = .error .panic ∧
      Error.panic ≠ .badArgument (18446744073709551615 + 1) "format" .noValue :=
  ⟨by decide +kernel, by decide +kernel, by decide⟩

end LuaRuntime
