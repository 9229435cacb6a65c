import LuaRuntime.Machine
import LuaRuntime.Proofs.Pattern.Replace
import LuaRuntime.Proofs.State.Action
import Mathlib.Data.List.Basic

/-!
# Replacing and iterating over matches

`gsub` and the iterator of `gmatch` go over one sequence of matches, the one that a walk from the
start of the text yields.  `Rewrites` says what `gsub` makes of the first matches of it, and
`Enumerates` what the iterator gives on its calls, whatever runs between them.
-/

namespace LuaRuntime

/-! ## Replacing -/

/-- What the arguments of `gsub` say. -/
structure ReplaceArguments (args : List Value) (text source : String) (r : Replacement)
    (cap : Option Int) : Prop where
  subject : Argument.string args 1 "gsub" = .ok text
  pattern : Argument.string args 2 "gsub" = .ok source
  replacement : Replacement.ofValue (Argument.get args 3) = .ok r
  limit : Argument.optional Argument.integer args 4 "gsub" = .ok cap

/-- The value that a table or a function gives for a match. -/
def Replacement.answer? (invoke : Invoke) (text : String) :
    Replacement → Option (Match → Action Value)
  | .template _ => none
  | .lookup table => some fun m => index invoke table (firstValue (m.values text))
  | .compute function => some fun m => callFirst invoke function (m.values text)

/-- `gsub`, called in a state, replaces exactly these matches.  The pattern has been read in the
second state, from which on the replacements are made. -/
structure Rewrites (engine : Regex.Engine) (invoke : Invoke) (args : List Value) (text : String)
    (r : Replacement) (chosen : List Match) (s t : State) : Prop where
  /-- The replacements stand in the places of the matches, and the rest of the text is as it
  was. -/
  splices : ∀ {texts : List String} {u : State},
    GivesAll (r.apply invoke text) t chosen texts u →
    Gives (runString engine invoke .gsub args) s
      [.string (spliced text (chosen.zip texts)), .ofNat chosen.length] u
  /-- The template `%0` changes nothing. -/
  whole : r = .template ['%', '0'] →
    Gives (runString engine invoke .gsub args) s [.string text, .ofNat chosen.length] t
  /-- A table or a function that gives nil or false for every match changes nothing. -/
  declined : ∀ {answer : Match → Action Value} {answers : List Value} {u : State},
    r.answer? invoke text = some answer → GivesAll answer t chosen answers u →
    (∀ v ∈ answers, v = .nil ∨ v = .boolean false) →
    Gives (runString engine invoke .gsub args) s [.string text, .ofNat chosen.length] u
  /-- A template with doubled percent signs puts its text in the place of every match. -/
  literal : ∀ {inserted : String}, r = .template (doublePercents inserted.toList) →
    Gives (runString engine invoke .gsub args) s
      [.string (spliced text (chosen.map fun m => (m, inserted))), .ofNat chosen.length] t

section

variable {engine : Regex.Engine} {invoke : Invoke} {args : List Value} {text source : String}
  {r : Replacement} {cap : Option Int} {c : CompiledPattern} {chosen : List Match} {s t u : State}

theorem replaceIn_gives (hargs : ReplaceArguments args text source r cap)
    (hread : Gives (readPattern engine source) s c t) (hchosen : c.allMatches text cap = chosen)
    {texts : List String} (htexts : GivesAll (r.apply invoke text) t chosen texts u) :
    Gives (runString engine invoke .gsub args) s
      [.string (replaceMatches text (chosen.zip texts)), .ofNat chosen.length] u := by
  rw [runString, replaceIn]
  refine (gives_lift hargs.subject s).bind ?_
  refine (gives_lift hargs.pattern s).bind ?_
  refine (gives_lift hargs.replacement s).bind ?_
  refine (gives_lift hargs.limit s).bind ?_
  refine hread.bind ?_
  rw [hchosen]
  exact htexts.pair.mapM.bind (gives_pure _ u)

/-- A template that stands for a text at each match gives these texts. -/
theorem apply_template_givesAll {template : List Char} {expanded : Match → String}
    (h : ∀ m, expandTemplate text m template = .ok (expanded m).toList) :
    GivesAll (Replacement.apply invoke text (.template template)) s chosen
      (chosen.map expanded) s := by
  refine .of_pure fun m _ => ?_
  rw [Replacement.apply, h m]
  show Gives (pure (String.ofList (expanded m).toList)) s (expanded m) s
  rw [String.ofList_toList]
  exact gives_pure _ s

theorem replacementText_declined (whole : String) {v : Value}
    (h : v = .nil ∨ v = .boolean false) : replacementText whole v = .ok whole := by
  rcases h with rfl | rfl <;> rfl

theorem apply_declined_gives {answer : Match → Action Value} {m : Match} {v : Value}
    (hanswer : r.answer? invoke text = some answer) (hv : v = .nil ∨ v = .boolean false)
    (h : Gives (answer m) s v t) : Gives (r.apply invoke text m) s (m.whole text) t := by
  have hlift := gives_lift (replacementText_declined (m.whole text) hv) t
  cases r with
  | template _ => cases hanswer
  | lookup table =>
    cases hanswer
    exact h.bind hlift
  | compute function =>
    cases hanswer
    exact h.bind hlift

theorem apply_declined_givesAll {answer : Match → Action Value} {answers : List Value}
    (hanswer : r.answer? invoke text = some answer) (h : GivesAll answer s chosen answers t)
    (hall : ∀ v ∈ answers, v = .nil ∨ v = .boolean false) :
    GivesAll (r.apply invoke text) s chosen (chosen.map fun m => m.whole text) t := by
  induction h with
  | nil => exact .nil
  | cons hhead _ ih =>
    refine .cons (apply_declined_gives hanswer (hall _ List.mem_cons_self) hhead) (ih ?_)
    exact fun v hv => hall v (List.mem_cons_of_mem _ hv)

/-- `gsub` replaces the matches of the sequence that the cap allows. -/
theorem rewrites_of_inOrder (hargs : ReplaceArguments args text source r cap)
    (hread : Gives (readPattern engine source) s c t) (hchosen : c.allMatches text cap = chosen)
    (horder : InOrder text 0 chosen) : Rewrites engine invoke args text r chosen s t := by
  have hsplices : ∀ {texts : List String} {u : State},
      GivesAll (r.apply invoke text) t chosen texts u →
      Gives (runString engine invoke .gsub args) s
        [.string (spliced text (chosen.zip texts)), .ofNat chosen.length] u := by
    intro texts u htexts
    have hfst : (chosen.zip texts).map Prod.fst = chosen :=
      List.map_fst_zip (Nat.le_of_eq htexts.length_eq.symm)
    rw [← replaceMatches_eq_spliced (hfst.symm ▸ horder)]
    exact replaceIn_gives hargs hread hchosen htexts
  -- The first and the third of the consequences replace each match by itself.
  have hwhole : ∀ {u : State},
      GivesAll (r.apply invoke text) t chosen (chosen.map fun m => m.whole text) u →
      Gives (runString engine invoke .gsub args) s [.string text, .ofNat chosen.length] u := by
    intro u hkept
    have hgives := hsplices hkept
    rwa [← List.map_prod_left_eq_zip, spliced_whole horder] at hgives
  refine ⟨hsplices, ?_, ?_, ?_⟩
  · rintro rfl
    exact hwhole (apply_template_givesAll fun m => expandTemplate_whole text m)
  · intro answer answers u hanswer hanswers hall
    exact hwhole (apply_declined_givesAll hanswer hanswers hall)
  · rintro inserted rfl
    have hgives := hsplices
      (apply_template_givesAll fun m => expandTemplate_doublePercents text m inserted.toList)
    rwa [← List.map_prod_left_eq_zip] at hgives

end

/-! ## Iterating -/

/-- What an iterator over matches gives on the call with a number: the values of a match, and nil
after the last one. -/
def answerAt (text : String) (found : List Match) (i : Nat) : List Value :=
  (found[i]?).elim [.nil] fun m => m.values text

/-- An iterator gives the values of these matches, one on each call, and then nil on every call.
The states are those before the calls.  What runs between the calls may change all but the
iterator itself. -/
def Enumerates (f : FunctionId) (text : String) (found : List Match) (s : State) : Prop :=
  ∀ (states : Nat → State) (remaining : Nat → Nat) (args : Nat → List Value),
    (states 0).functions[f.index]? = s.functions[f.index]? →
    (∀ i, (states i).depth < (states i).limits.callDepth) →
    (∀ i, (states (i + 1)).functions[f.index]? =
      (invoke (remaining i + 1) f (args i) (states i)).2.functions[f.index]?) →
    ∀ i, (invoke (remaining i + 1) f (args i) (states i)).1 =
      .ok (results (answerAt text found i))

/-- A function of a state walks through matches. -/
def Walks (f : FunctionId) (w : MatchWalk) (s : State) : Prop :=
  ∃ name, s.functions[f.index]? = some ⟨name, .matches w⟩

theorem setBody_gives {f : FunctionId} {w : MatchWalk} {s : State} (h : Walks f w s)
    (next : MatchWalk) : ∃ t, Gives (setBody f (.matches next)) s ⟨⟩ t ∧ Walks f next t := by
  obtain ⟨name, hf⟩ := h
  refine ⟨_, gives_modify _ s, name, ?_⟩
  simp [Array.getElem?_modify, hf]

theorem stepMatches_gives {f : FunctionId} {w : MatchWalk} {found : List Match} {s : State}
    (h : Walks f w s) (hyields : w.Yields found) :
    ∃ next t, Gives (stepMatches f w) s (answerAt w.text found 0) t ∧ Walks f next t ∧
      next.Yields found.tail ∧ next.text = w.text := by
  rw [stepMatches]
  cases hyields with
  | done hnone =>
    obtain ⟨t, hset, hwalks⟩ := setBody_gives h w.ended
    rw [hnone]
    exact ⟨w.ended, t, hset.bind (gives_pure _ t), hwalks, .done rfl, rfl⟩
  | @more _ m rest hsome hrest =>
    obtain ⟨t, hset, hwalks⟩ := setBody_gives h (w.after m)
    rw [hsome]
    exact ⟨w.after m, t, hset.bind (gives_pure _ t), hwalks, hrest, rfl⟩

theorem nested_gives {α : Type} {action : Action α} {s t : State} {a : α}
    (hdepth : s.depth < s.limits.callDepth)
    (h : Gives action { s with depth := s.depth + 1 } a t) :
    Gives (nested action) s a { t with depth := t.depth - 1 } := by
  rw [Gives, nested, if_neg (Nat.not_le.mpr hdepth), h]

/-- A call of an iterator gives the next values, and leaves it at the matches after. -/
theorem invoke_walks {f : FunctionId} {w : MatchWalk} {found : List Match} {s : State}
    (remaining : Nat) (args : List Value) (h : Walks f w s) (hyields : w.Yields found)
    (hdepth : s.depth < s.limits.callDepth) :
    ∃ next t, Gives (invoke (remaining + 1) f args) s (results (answerAt w.text found 0)) t ∧
      Walks f next t ∧ next.Yields found.tail ∧ next.text = w.text := by
  obtain ⟨next, t, hstep, hwalks, hyields', htext⟩ :=
    stepMatches_gives (s := { s with depth := s.depth + 1 }) h hyields
  refine ⟨next, { t with depth := t.depth - 1 }, ?_, hwalks, hyields', htext⟩
  rw [invoke]
  refine nested_gives hdepth ((gives_get _).bind ?_)
  obtain ⟨name, hf⟩ := h
  have hbody : ({ s with depth := s.depth + 1 }.function f).body = .matches w := by
    simp [State.function, hf]
  rw [hbody, runBody]
  exact hstep.bind (gives_pure _ t)

/-- An iterator that walks through matches gives their values on its calls. -/
theorem enumerates_of_walks {f : FunctionId} {w : MatchWalk} {found : List Match} {s : State}
    (h : Walks f w s) (hyields : w.Yields found) {text : String} (hwalk : w.text = text) :
    Enumerates f text found s := by
  subst hwalk
  intro states remaining args hstart hdepth hkept
  -- Before each call the iterator is at the matches that are left.
  have hleft : ∀ i, ∃ next, Walks f next (states i) ∧ next.Yields (found.drop i) ∧
      next.text = w.text := by
    intro i
    induction i with
    | zero =>
      obtain ⟨name, hf⟩ := h
      exact ⟨w, ⟨name, hstart.trans hf⟩, hyields, rfl⟩
    | succ i ih =>
      obtain ⟨now, hwalks, hyields, htext⟩ := ih
      obtain ⟨next, t, hgives, ⟨name, hf⟩, hyields', htext'⟩ :=
        invoke_walks (remaining i) (args i) hwalks hyields (hdepth i)
      refine ⟨next, ⟨name, ?_⟩, ?_, htext'.trans htext⟩
      · rw [hkept i, hgives]
        exact hf
      · rwa [List.tail_drop] at hyields'
  intro i
  obtain ⟨now, hwalks, hyields, htext⟩ := hleft i
  obtain ⟨_, t, hgives, _⟩ := invoke_walks (remaining i) (args i) hwalks hyields (hdepth i)
  rw [hgives, htext]
  simp [answerAt]

/-- `gmatch` gives an iterator over the matches of the pattern. -/
theorem gmatch_gives {engine : Regex.Engine} {call : Invoke} {args : List Value}
    {text source : String} {c : CompiledPattern} {found : List Match} {s t : State}
    (htext : Argument.string args 1 "gmatch" = .ok text)
    (hsource : Argument.string args 2 "gmatch" = .ok source)
    (hread : Gives (readPattern engine source) s c t)
    (hyields : MatchWalk.Yields { text, pattern := c } found) :
    ∃ f u, Gives (runString engine call .gmatch args) s [.function f] u ∧
      Enumerates f text found u := by
  obtain ⟨u, hnew, hf⟩ :=
    gives_newFunction ⟨"gmatch_iterator", .matches { text, pattern := c }⟩ t
  have hall : Gives (allMatchesIn engine args) s (.function ⟨t.functions.size⟩) u := by
    rw [allMatchesIn]
    refine (gives_lift htext s).bind ((gives_lift hsource s).bind (hread.bind ?_))
    exact hnew.bind (gives_pure _ u)
  have hwalks : Walks ⟨t.functions.size⟩ { text, pattern := c } u := ⟨_, hf⟩
  refine ⟨⟨t.functions.size⟩, u, ?_, enumerates_of_walks hwalks hyields rfl⟩
  rw [runString]
  exact hall.bind (gives_pure _ u)

/-! ## One sequence -/

/-- What a leftmost-first engine makes of a pattern has one finite sequence of matches in a text,
from left to right and without overlaps, and there are not more of them than one for each place of
the text.  `gsub` replaces the first matches of this sequence, as many as its cap allows, and the
iterator of `gmatch` gives the values of all of them. -/
theorem gsub_and_gmatch_share_matches {engine : Regex.Engine} (hengine : engine.IsLeftmostFirst)
    {written : String} {c : CompiledPattern} (hc : CompiledPattern.new engine written = .ok c)
    (text : String) :
    ∃ found, MatchWalk.Yields { text, pattern := c } found ∧
      found.length ≤ text.length + 1 ∧
      (c.anchored = true → found.length ≤ 1) ∧
      (∀ m ∈ found, ∃ a b, m.Between text a b) ∧
      found.IsChain Match.Follows ∧
      (∀ (call : Invoke) {args : List Value} {source : String} {r : Replacement}
          {cap : Option Int} {s t : State},
        ReplaceArguments args text source r cap → Gives (readPattern engine source) s c t →
        Rewrites engine call args text r (capped found cap) s t ∧
          (capped found cap).length =
            cap.elim found.length fun n => min found.length (max n 0).toNat) ∧
      (∀ (call : Invoke) {args : List Value} {source : String} {s t : State},
        Argument.string args 1 "gmatch" = .ok text →
        Argument.string args 2 "gmatch" = .ok source → Gives (readPattern engine source) s c t →
        ∃ f u, Gives (runString engine call .gmatch args) s [.function f] u ∧
          Enumerates f text found u) := by
  obtain ⟨p, -, hp⟩ := CompiledPattern.exists_searches hengine hc
  obtain ⟨found, hyields, hlength, hall, hchain, -⟩ :=
    (MatchWalk.ready_start text c).exists_yields hp
  have hlength : found.length ≤ text.length + 1 := hlength
  refine ⟨found, hyields, hlength, hyields.length_le_one, hall, hchain, ?_, ?_⟩
  · intro call args source r cap s t hargs hread
    have hchosen := CompiledPattern.allMatches_eq hyields hlength cap
    exact ⟨rewrites_of_inOrder hargs hread hchosen (inOrder_capped hall hchain cap),
      length_capped found cap⟩
  · intro call args source s t htext hsource hread
    exact gmatch_gives htext hsource hread hyields

/-- A pattern that is read for the first time is compiled, and is kept. -/
theorem readPattern_gives {engine : Regex.Engine} {source : String} {c : CompiledPattern}
    {s : State} (hnew : s.patterns.entries[source]? = none)
    (hc : CompiledPattern.new engine source = .ok c) :
    Gives (readPattern engine source) s c { s with patterns := s.patterns.insert source c } := by
  have hread : s.patterns.read (CompiledPattern.new engine) source =
      (.ok c, s.patterns.insert source c) := by
    rw [Cache.read, hnew, hc]
  rw [readPattern]
  refine (gives_get s).bind ?_
  rw [hread]
  exact (gives_modify _ s).bind (gives_pure c _)

/-- The pattern `%a`: a letter. -/
def letterPattern : Pattern := ⟨false, [.one (.class .letter false)]⟩

/-- Both letters of `naï` are replaced by a percent sign, and the iterator goes over them. -/
theorem gsub_and_gmatch_share_letters :
    (∃ t, Gives (runString Regex.backtracking (invoke 1) .gsub
        [.string "naï", .string "%a", .string "%%"])
      (.initial {} .keep 0) [.string "%%ï", .ofNat 2] t) ∧
    ∃ f u, Gives (runString Regex.backtracking (invoke 1) .gmatch [.string "naï", .string "%a"])
        (.initial {} .keep 0) [.function f] u ∧
      Enumerates f "naï" [⟨⟨0, 0⟩, ⟨1, ⟨1⟩⟩, []⟩, ⟨⟨1, ⟨1⟩⟩, ⟨2, ⟨2⟩⟩, []⟩] u := by
  have hparse : Pattern.parse "%a" = .ok letterPattern := by decide +kernel
  have hc := CompiledPattern.new_backtracking_eq_ok hparse (by decide)
  have hread := readPattern_gives (s := .initial {} .keep 0) rfl hc
  have htemplate : "%%".toList = doublePercents "%".toList := by decide +kernel
  have hargs : ReplaceArguments [.string "naï", .string "%a", .string "%%"] "naï" "%a"
      (.template "%%".toList) none := ⟨rfl, rfl, rfl, rfl⟩
  obtain ⟨found, hyields, hlength, _, _, _, hgsub, hgmatch⟩ :=
    gsub_and_gmatch_share_matches Regex.backtracking_isLeftmostFirst hc "naï"
  have hfound : found = [⟨⟨0, 0⟩, ⟨1, ⟨1⟩⟩, []⟩, ⟨⟨1, ⟨1⟩⟩, ⟨2, ⟨2⟩⟩, []⟩] := by
    rw [← List.take_of_length_le hlength, ← hyields.take_eq]
    decide +kernel
  have hspliced : spliced "naï" (found.map fun m => (m, "%")) = "%%ï" := by
    rw [hfound]
    decide +kernel
  have hgives := (hgsub (invoke 1) hargs hread).1.literal (congrArg Replacement.template htemplate)
  rw [capped, Option.elim_none, hspliced, hfound] at hgives
  exact ⟨⟨_, hgives⟩, hfound ▸ hgmatch (invoke 1) rfl rfl hread⟩

end LuaRuntime
