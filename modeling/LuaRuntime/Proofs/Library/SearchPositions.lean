import LuaRuntime.Proofs.Library.PlainSearch
import LuaRuntime.Proofs.Library.Substrings
import LuaRuntime.Proofs.Machine.Caches
import LuaRuntime.Proofs.Pattern.CaptureBounds

/-!
# Positions of a match

`string.find` gives the positions of the first match and its captures, and `string.match` the
captures alone, or the matched text if the pattern has none.  Both answers come from one match
(`CompiledPattern.findFrom?`), whether `string.find` reads its pattern or looks for it as a plain
text.  They do so whatever leftmost-first engine compiles the pattern, as long as it does not refuse
it.

The positions are those of `string.sub`: the part of the subject between them is the matched text
(`Match.LiesAt`).
-/

namespace LuaRuntime

/-- The first match of a pattern from a position on. -/
def CompiledPattern.findFrom? (c : CompiledPattern) (text : String) (init : Int) : Option Match :=
  (searchStart? text init).bind (c.findAt text)

/-- The arguments of a search name a text, a pattern and the position where the search starts, 1
if it is absent. -/
structure SearchArguments (args : List Value) (text source : String) (init : Int) : Prop where
  subject : ∀ function, Argument.string args 1 function = .ok text
  pattern : ∀ function, Argument.string args 2 function = .ok source
  position : ∃ named, (∀ function, Argument.optional Argument.integer args 3 function = .ok named) ∧
    named.getD 1 = init

/-- A match goes from one position of a text to another, both counted from 1. -/
structure Match.LiesAt (m : Match) (text : String) (i j : Nat) : Prop where
  start_eq : m.start.position + 1 = i
  stop_eq : m.stop.position = j
  le_succ : i ≤ j + 1
  le_length : j ≤ text.length
  slice_eq : Text.slice text i j = m.whole text
  captured : ∀ place, .position place ∈ m.captures → i ≤ place ∧ place ≤ j + 1

theorem SearchArguments.find {args : List Value} {text source : String} {init : Int}
    (h : SearchArguments args text source init) : FindArguments args text source init := by
  obtain ⟨named, hnamed, hinit⟩ := h.position
  exact ⟨h.subject "find", h.pattern "find", named, hnamed "find", hinit⟩

/-! ## The match -/

theorem searchStart?_eq_some {text : String} {init : Int} {start : Cursor}
    (h : searchStart? text init = some start) :
    ∃ n, n ≤ text.length ∧ (n + 1 : Int) = max 1 (Text.resolve init text.length) ∧
      start = .atPosition text n := by
  rw [searchStart?] at h
  split at h
  · cases h
  · cases h
    exact ⟨_, by omega, by omega, rfl⟩

/-- The first match lies after the position where the search starts, and has the captures of the
pattern. -/
theorem CompiledPattern.findFrom?_liesAt {engine : Regex.Engine} (hengine : engine.IsLeftmostFirst)
    {source : String} {p : Pattern} (hparse : Pattern.parse source = .ok p) {c : CompiledPattern}
    (hc : new engine source = .ok c) {text : String} {init : Int} {m : Match}
    (h : c.findFrom? text init = some m) :
    ∃ i j, m.LiesAt text i j ∧ max 1 (Text.resolve init text.length) ≤ i ∧
      m.captures.length = p.captureCount := by
  obtain ⟨start, hstart, hfind⟩ := Option.bind_eq_some_iff.mp h
  rw [findAt_eq_find hengine hparse hc (isPlace_of_searchStart? hstart)] at hfind
  obtain ⟨n, hn, hinit, rfl⟩ := searchStart?_eq_some hstart
  obtain ⟨a, b, hna, ⟨hab, hb, hmstart, hmstop⟩, hlength, hwithin⟩ :=
    Pattern.find_captures (Pattern.parse_balanced hparse) hn hfind
  have hslice : Text.slice text (a + 1 : Nat) b = m.whole text := by
    rw [Match.whole, hmstart, hmstop, ← Text.slice_of_le hab hb]
    rfl
  exact ⟨a + 1, b, ⟨by rw [hmstart, Cursor.position_atPosition],
    by rw [hmstop, Cursor.position_atPosition], Nat.succ_le_succ hab, hb, hslice,
    fun place hplace => hwithin _ hplace⟩, by omega, hlength⟩

theorem Match.values_ne_nil (m : Match) (text : String) : m.values text ≠ [.nil] := by
  rw [values]
  split
  · simp
  · rw [captureValues]
    intro h
    obtain ⟨c, -, hc⟩ := List.mem_map.mp (h ▸ List.mem_singleton_self Value.nil)
    cases c <;> cases hc

/-! ## Runs -/

theorem Gives.exists_bind {α β : Type} {x : Action α} {f : α → Action β} {s t : State} {a : α}
    {b : β} (hx : Gives x s a t) (hf : ∃ u, Gives (f a) t b u) : ∃ u, Gives (x >>= f) s b u := by
  obtain ⟨u, hf⟩ := hf
  exact ⟨u, hx.bind hf⟩

/-- Through a sound cache a text is read as the pattern that it compiles to. -/
theorem readPattern_of_sound {engine : Regex.Engine} {s : State}
    (hs : s.patterns.Sound (CompiledPattern.new engine)) {source : String} {c : CompiledPattern}
    (hc : CompiledPattern.new engine source = .ok c) :
    ∃ t, Gives (readPattern engine source) s c t := by
  have hread : (readPattern engine source s).1 = .ok c := by
    rw [readPattern_run, hs.read_fst, hc]
    rfl
  exact ⟨_, gives_of_fst_eq hread⟩

section

variable {engine : Regex.Engine} {source : String} {c : CompiledPattern}
  (hc : CompiledPattern.new engine source = .ok c) {args : List Value} {text : String} {init : Int}
  (hargs : SearchArguments args text source init) {s : State}
  (hs : s.patterns.Sound (CompiledPattern.new engine))
include hc hargs hs

/-- `string.find` gives the positions of the first match and its captures. -/
theorem findIn_gives (hengine : engine.IsLeftmostFirst)
    (hflag : (Argument.get args 4).isTruthy = false) :
    ∃ t, Gives (findIn engine args) s
      ((c.findFrom? text init).elim [.nil] fun m =>
        .ofNat (m.start.position + 1) :: .ofNat m.stop.position :: m.captureValues text) t := by
  have hfound : (c.findFrom? text init).elim [.nil] (fun m =>
        .ofNat (m.start.position + 1) :: .ofNat m.stop.position :: m.captureValues text) =
      foundFrom text init (findPattern text c) := by
    rw [CompiledPattern.findFrom?, foundFrom]
    cases searchStart? text init with
    | none => rfl
    | some start =>
      rw [Option.bind_some, Option.elim_some, findPattern]
      cases c.findAt text start <;> rfl
  rw [hfound]
  cases hplain : Pattern.isPlain source with
  | true =>
    rw [← findText_eq_findPattern hengine hplain hc]
    exact ⟨s, findIn_of_isPlain hargs.find hplain s⟩
  | false =>
    cases hstart : searchStart? text init with
    | none =>
      obtain ⟨named, hnamed, rfl⟩ := hargs.position
      rw [foundFrom, hstart, findIn]
      refine ⟨s, (gives_lift (hargs.subject _) s).bind ?_⟩
      refine (gives_lift (hargs.pattern _) s).bind ?_
      refine (gives_lift (hnamed _) s).bind ?_
      dsimp only
      rw [hstart]
      exact gives_pure _ s
    | some start =>
      obtain ⟨t, hread⟩ := readPattern_of_sound hs hc
      rw [foundFrom, hstart]
      exact ⟨t, findIn_of_pattern hargs.find hplain hflag hread hstart⟩

/-- `string.match` gives the values of the first match. -/
theorem matchIn_gives :
    ∃ t, Gives (matchIn engine args) s ((c.findFrom? text init).elim [.nil] (·.values text)) t := by
  obtain ⟨named, hnamed, rfl⟩ := hargs.position
  rw [matchIn]
  refine (gives_lift (hargs.subject _) s).exists_bind ?_
  refine (gives_lift (hargs.pattern _) s).exists_bind ?_
  refine (gives_lift (hnamed _) s).exists_bind ?_
  dsimp only
  rw [CompiledPattern.findFrom?]
  cases searchStart? text (named.getD 1) with
  | none => exact ⟨s, gives_pure _ s⟩
  | some start =>
    obtain ⟨t, hread⟩ := readPattern_of_sound hs hc
    refine ⟨t, hread.bind ?_⟩
    rw [Option.bind_some]
    cases c.findAt text start <;> exact gives_pure _ t

end

/-! ## Agreement -/

/-- Let an engine that is leftmost-first build the translation of a pattern.  Then `string.find`
finds nothing if and only if `string.match` does.  Otherwise both answer from the first match: it
lies at positions that `string.find` gives, not before the one where the search starts, `string.sub`
cuts the matched text out of the subject there, and `string.match` gives the same captures, or that
text if the pattern has none. -/
theorem find_match_and_sub_agree (call : Invoke) {engine : Regex.Engine}
    (hengine : engine.IsLeftmostFirst) {source : String} {p : Pattern}
    (hparse : Pattern.parse source = .ok p) {c : CompiledPattern}
    (hc : CompiledPattern.new engine source = .ok c) {args : List Value} {text : String}
    {init : Int} (hargs : SearchArguments args text source init)
    (hflag : (Argument.get args 4).isTruthy = false) {s : State}
    (hs : s.patterns.Sound (CompiledPattern.new engine)) :
    ∃ found matched,
      (∃ t, Gives (runString engine call .find args) s found t) ∧
      (∃ t, Gives (runString engine call .firstMatch args) s matched t) ∧
      (found = [.nil] ↔ matched = [.nil]) ∧
      (found = [.nil] ↔ c.findFrom? text init = none) ∧
      ∀ m, c.findFrom? text init = some m →
        ∃ i j, m.LiesAt text i j ∧ max 1 (Text.resolve init text.length) ≤ i ∧
          found = .ofNat i :: .ofNat j :: m.captureValues text ∧
          m.captures.length = p.captureCount ∧
          matched = (if p.captureCount = 0 then [.string (Text.slice text i j)]
            else m.captureValues text) ∧
          (∀ {parts : List Value} (u : State), SliceArguments parts text i j →
            Gives (runString engine call .sub parts) u [.string (m.whole text)] u) ∧
          (text.length < 2 ^ 53 →
            SliceArguments [.string text, .ofNat i, .ofNat j] text i j) := by
  refine ⟨_, _, findIn_gives hc hargs hs hengine hflag, matchIn_gives hc hargs hs, ?_⟩
  cases hfind : c.findFrom? text init with
  | none => simp
  | some m =>
    obtain ⟨i, j, hlies, hinit, hlength⟩ := CompiledPattern.findFrom?_liesAt hengine hparse hc hfind
    simp only [Option.elim_some, hlies.start_eq, hlies.stop_eq]
    refine ⟨by simp [m.values_ne_nil], by simp, ?_⟩
    rintro _ ⟨⟩
    refine ⟨i, j, hlies, hinit, rfl, hlength, ?_, ?_, ?_⟩
    · rw [← hlength, Match.values, hlies.slice_eq]
      simp
    · intro parts u hparts
      rw [← hlies.slice_eq]
      exact runString_sub call hparts u
    · intro hlt
      have hstart := hlies.le_succ
      have hstop := hlies.le_length
      exact ⟨fun _ => rfl, Value.toInteger?_ofNat (by omega), Value.toInteger?_ofNat (by omega)⟩

/-- From the third character of `é ab` before the end, the pattern `%f[%a]()(.-)$` captures the
position and the text of the word. -/
theorem find_match_and_sub_agree_on_word :
    SearchArguments [.string "é ab", .string "%f[%a]()(.-)$", .ofInt (-3)] "é ab" "%f[%a]()(.-)$"
        (-3) ∧
      (Argument.get [.string "é ab", .string "%f[%a]()(.-)$", .ofInt (-3)] 4).isTruthy = false ∧
      Regex.backtracking.IsLeftmostFirst ∧
      Pattern.parse "%f[%a]()(.-)$" = .ok Pattern.lastWords ∧
      CompiledPattern.new Regex.backtracking "%f[%a]()(.-)$" = .ok (.ofPattern Pattern.lastWords) ∧
      (State.initial {} .keep 0).patterns.Sound (CompiledPattern.new Regex.backtracking) ∧
      (∃ t, Gives (runString Regex.backtracking (invoke 1) .find
          [.string "é ab", .string "%f[%a]()(.-)$", .ofInt (-3)]) (.initial {} .keep 0)
        [.ofNat 3, .ofNat 4, .ofNat 3, .string "ab"] t) ∧
      (∃ t, Gives (runString Regex.backtracking (invoke 1) .firstMatch
          [.string "é ab", .string "%f[%a]()(.-)$", .ofInt (-3)]) (.initial {} .keep 0)
        [.ofNat 3, .string "ab"] t) ∧
      Gives (runString Regex.backtracking (invoke 1) .sub [.string "é ab", .ofNat 3, .ofNat 4])
        (.initial {} .keep 0) [.string "ab"] (.initial {} .keep 0) := by
  have hargs : SearchArguments [.string "é ab", .string "%f[%a]()(.-)$", .ofInt (-3)] "é ab"
      "%f[%a]()(.-)$" (-3) :=
    ⟨fun _ => rfl, fun _ => rfl, some (-3),
      fun _ => Argument.optional_integer _ (by decide +kernel), rfl⟩
  have hcache :
      (State.initial {} .keep 0).patterns.Sound (CompiledPattern.new Regex.backtracking) :=
    Cache.sound_empty
  have hparse := Pattern.parse_lastWords
  have hc := CompiledPattern.new_backtracking_eq_ok hparse (by decide)
  have hfind : (CompiledPattern.ofPattern Pattern.lastWords).findFrom? "é ab" (-3) =
      some ⟨⟨2, ⟨3⟩⟩, ⟨4, ⟨5⟩⟩, [.position 3, .text ⟨2, ⟨3⟩⟩ ⟨4, ⟨5⟩⟩]⟩ := by decide +kernel
  obtain ⟨found, matched, hfound, hmatched, -, -, hall⟩ :=
    find_match_and_sub_agree (invoke 1) Regex.backtracking_isLeftmostFirst hparse hc hargs rfl
      hcache
  obtain ⟨i, j, hlies, -, rfl, -, rfl, hsub, hparts⟩ := hall _ hfind
  obtain rfl : 3 = i := hlies.start_eq
  obtain rfl : 4 = j := hlies.stop_eq
  have hvalues : Match.captureValues
      ⟨⟨2, ⟨3⟩⟩, ⟨4, ⟨5⟩⟩, [.position 3, .text ⟨2, ⟨3⟩⟩ ⟨4, ⟨5⟩⟩]⟩ "é ab" =
        [.ofNat 3, .string "ab"] := by decide +kernel
  have hwhole : Match.whole
      ⟨⟨2, ⟨3⟩⟩, ⟨4, ⟨5⟩⟩, [.position 3, .text ⟨2, ⟨3⟩⟩ ⟨4, ⟨5⟩⟩]⟩ "é ab" = "ab" := by
    decide +kernel
  rw [hvalues] at hfound hmatched
  rw [hwhole] at hsub
  exact ⟨hargs, rfl, Regex.backtracking_isLeftmostFirst, hparse, hc, hcache, hfound, hmatched,
    hsub _ (hparts (by decide))⟩

end LuaRuntime
