import LuaRuntime.Proofs.Pattern.Groups
import LuaRuntime.Proofs.Pattern.Rest

/-!
# Compiled patterns find the leftmost match

Whatever a leftmost-first engine builds from the translation of a pattern, a search for the compiled
pattern finds what a search for the pattern itself does (`findAt_eq_find`).  There are two parts to
this.  A match of the expression that a frontier refuses says that the pattern has no match at that
place, so that the search may go on after it (`search_found`).  And a match in the rest of a text is
one in the whole text, moved by the place where the rest starts (`findAt_anchored`).
-/

namespace LuaRuntime

open Regex (Span Captures Engine Finds groupsAlong?)

/-! ## Places of the rest of a text -/

namespace Cursor

variable {s : String} {n k : Nat}

@[simp] theorem start_plus (c : Cursor) : start.plus c = c := by
  simp [plus, start]

theorem rest?_atPosition (hn : n ≤ s.length) :
    (atPosition s n).rest? s = some (String.ofList (s.toList.drop n)) := by
  have hlast := atPosition_length s
  have hle : (atPosition s n).offset ≤ s.rawEndPos := by
    have := offset_le hn (Nat.le_refl s.length)
    rwa [hlast] at this
  rw [rest?, if_pos hle, ← hlast, textTo_atPosition hn (Nat.le_refl _), ← String.length_toList,
    List.take_length]

/-- A place of the rest of a text is a place of the text. -/
theorem plus_atPosition (h : n + k ≤ s.length) :
    (atPosition s n).plus (atPosition (String.ofList (s.toList.drop n)) k) =
      atPosition s (n + k) := by
  have hrest : k ≤ (String.ofList (s.toList.drop n)).length := by
    rw [String.length_ofList, List.length_drop, String.length_toList]
    omega
  rw [plus, atPosition_eq h, atPosition_eq hrest, atPosition_eq (by omega), String.toList_ofList]
  have hbytes : String.utf8Len (s.toList.take (n + k)) =
      String.utf8Len (s.toList.take n) + String.utf8Len ((s.toList.drop n).take k) := by
    rw [List.take_add, String.utf8Len_append]
  rw [hbytes]

end Cursor

namespace CompiledPattern

/-! ## Matches of the expression -/

/-- The span of a group, empty at the start of the match if it took no part. -/
def spanOfGroup (base : Cursor) (found : Captures) (whole : Span) (i : Nat) : Span :=
  (found.get? i).elim ⟨(whole.plus base).start, (whole.plus base).start⟩ (·.plus base)

theorem accept_of_whole (c : CompiledPattern) (s : String) (base : Cursor) (whole : Span)
    (groups : List (Option Span)) :
    c.accept s base ⟨some whole :: groups⟩ =
      (capturesOfGroups s (spanOfGroup base ⟨some whole :: groups⟩ whole) 1 c.roles).map
        fun captures => ⟨(whole.plus base).start, (whole.plus base).stop, captures⟩ := by
  rw [Option.map_eq_bind]
  rfl

/-- The groups that took part are numbered from one on. -/
theorem numbered_groups (base : Cursor) (whole : Span) (groups : List Span) :
    Numbered (spanOfGroup base ⟨some whole :: groups.map some⟩ whole) 1
      (groups.map (·.plus base)) := by
  intro k x hx
  rw [List.getElem?_map, Option.map_eq_some_iff] at hx
  obtain ⟨span, hspan, rfl⟩ := hx
  simp [spanOfGroup, Captures.get?, Nat.add_comm 1 k, hspan]

/-- What is made of a match of the expression, given the spans of what opens a group in the
pattern. -/
theorem accept_eq {c : CompiledPattern} {p : Pattern} (hroles : c.roles = p.roles) {s : String}
    {base : Cursor} {whole : Span} {groups : List Span} {places : List Nat}
    (hlength : places.length = p.items.length) (hplaces : ∀ q ∈ places, q ≤ s.length)
    (hspans : spansAlong? s (p.items.zip places) = some (groups.map (·.plus base))) :
    c.accept s base ⟨some whole :: groups.map some⟩ =
      if FrontiersHold s.toList p.items places then
        (capturesAlong? s (p.items.zip places)).map fun captures =>
          ⟨(whole.plus base).start, (whole.plus base).stop, captures⟩
      else none := by
  have hcaptures :=
    capturesOfGroups_eq hlength hplaces hspans (numbered_groups base whole groups)
  rw [accept_of_whole, hroles, Pattern.roles, hcaptures]
  split
  · rfl
  · rfl

theorem endOf_doubled {items : List Item} {places : List Nat} (start : Nat)
    (hlength : places.length = items.length) :
    endOf start (doubled items places) = endOf start places := by
  induction items generalizing start places with
  | nil =>
    rw [List.length_eq_zero_iff.mp hlength]
    rfl
  | cons item items ih =>
    cases places with
    | nil => cases hlength
    | cons q places =>
      have hrest := ih q (Nat.succ.inj hlength)
      rw [doubled, endOf_cons]
      split
      · rw [endOf_cons, endOf_cons, hrest]
      · rw [endOf_cons, hrest]

/-- A match of the translation is the first match of the pattern at its place, or it is refused and
the pattern has no match there. -/
theorem accept_of_isFirst {c : CompiledPattern} {p : Pattern} (hroles : c.roles = p.roles)
    (hfixed : FrontiersFixed p.items) (hbalanced : Balanced 0 p.items) {s : String}
    {base : Cursor} {start : Nat} (hstart : start ≤ s.length) {all : List Nat} {whole : Span}
    {groups : List Span} (hfirst : IsFirst s.toList p.translated.items start all)
    (hwhole : whole.plus base = ⟨.atPosition s start, .atPosition s (endOf start all)⟩)
    (hgroups : groupsAlong? s (p.translated.items.zip all) = some (groups.map (·.plus base))) :
    (∃ places, IsFirst s.toList p.items start places ∧
        c.accept s base ⟨some whole :: groups.map some⟩ =
          some ((endingAlong s p.items start places).toMatch (.atPosition s start))) ∨
      (Fails s.toList p.items start ∧ c.accept s base ⟨some whole :: groups.map some⟩ = none) := by
  obtain ⟨places, rfl, hrelaxed, hcases⟩ := isFirst_or_fails hfixed hfirst
  have hlength : places.length = p.items.length := by
    rw [hrelaxed.length_eq, List.length_map]
  have hplaces : ∀ q ∈ places, q ≤ s.length := by
    rw [← String.length_toList] at hstart ⊢
    exact hrelaxed.places_le hstart
  have hspans := (groupsAlong?_translated hlength).symm.trans hgroups
  rw [accept_eq hroles hlength hplaces hspans, hwhole, endOf_doubled start hlength]
  obtain ⟨hholds, hfirst⟩ | ⟨hfails, hnone⟩ := hcases
  · refine .inl ⟨places, hfirst, ?_⟩
    obtain ⟨captures, hcaptures⟩ := capturesAlong?_isSome s hbalanced hlength
    rw [if_pos hholds, hcaptures, Ending.toMatch, endingAlong, capturesOf_marksAlong hcaptures]
    rfl
  · exact .inr ⟨hnone, if_neg hfails⟩

end CompiledPattern

/-! ## Searching -/

namespace Pattern.Found

variable {s : String} {items : List Item} {first last : Nat} {result other : Option Match}

/-- A search can find one thing only. -/
theorem unique (h : Found s items first last result) (h' : Found s items first last other) :
    result = other := by
  cases result with
  | none =>
    cases other with
    | none => rfl
    | some m =>
      obtain ⟨start, places, hle, hlast, -, hfirst, -⟩ := h'
      exact absurd hfirst.1 (h start hle hlast places)
  | some m =>
    obtain ⟨start, places, hle, hlast, hleast, hfirst, rfl⟩ := h
    cases other with
    | none => exact absurd hfirst.1 (h' start hle hlast places)
    | some m' =>
      obtain ⟨start', places', hle', -, hleast', hfirst', rfl⟩ := h'
      obtain rfl : start = start' := by
        refine Nat.le_antisymm (Nat.le_of_not_lt fun hlt => ?_) (Nat.le_of_not_lt fun hlt => ?_)
        · exact hleast start' hle' hlt places' hfirst'.1
        · exact hleast' start hle hlt places hfirst.1
      rw [hfirst.unique hfirst']

end Pattern.Found

namespace CompiledPattern

variable {c : CompiledPattern} {p : Pattern} {s : String}

/-- A compiled pattern comes from a pattern that can be read and an expression that was built. -/
theorem new_eq_ok_iff {engine : Engine} {source : String} :
    new engine source = .ok c ↔
      ∃ p r, Pattern.parse source = .ok p ∧ engine p.regexText = .ok r ∧
        c = ⟨r, p.anchored, p.roles⟩ := by
  unfold new
  cases Pattern.parse source with
  | error fault => simp
  | ok p =>
    cases hr : engine p.regexText with
    | error message => simp [hr]
    | ok r => simp [hr, eq_comm]

/-- Spans of the whole text stay where they are. -/
theorem map_plus_start (spans : List Span) : spans.map (·.plus .start) = spans := by
  refine (List.map_congr_left fun span _ => ?_).trans (List.map_id spans)
  rw [Span.plus, Cursor.start_plus, Cursor.start_plus]
  rfl

/-- A match of the expression is at the first place where the pattern may match, and it is accepted
if the pattern matches there. -/
theorem captures_cases (hanchored : p.anchored = false) (hroles : c.roles = p.roles)
    (hfixed : FrontiersFixed p.items) (hbalanced : Balanced 0 p.items) {n : Nat}
    (hfinds : Finds p.translated s n (c.regex.capturesAt s (.atPosition s n))) :
    (c.regex.capturesAt s (.atPosition s n) = none ∧
      ∀ q, n ≤ q → q ≤ s.length → Fails s.toList p.items q) ∨
    ∃ found whole start, c.regex.capturesAt s (.atPosition s n) = some found ∧
      found.get? 0 = some whole ∧ whole.start = .atPosition s start ∧ n ≤ start ∧
      start ≤ s.length ∧ (∀ q, n ≤ q → q < start → Fails s.toList p.items q) ∧
      ((∃ places, IsFirst s.toList p.items start places ∧ c.accept s .start found =
          some ((endingAlong s p.items start places).toMatch (.atPosition s start))) ∨
        (Fails s.toList p.items start ∧ c.accept s .start found = none)) := by
  have hadmits {q : Nat} (hle : n ≤ q) (hlast : q ≤ s.length)
      (h : ¬ Regex.Admits p.translated s.toList n q) : Fails s.toList p.items q := by
    refine fails_of_translated fun places hplaces => h ⟨hle, ?_, fun h => ?_, places, hplaces⟩
    · rwa [String.length_toList]
    · cases hanchored.symm.trans h
  generalize c.regex.capturesAt s (.atPosition s n) = result at hfinds ⊢
  cases hfinds with
  | none hnone => exact .inl ⟨rfl, fun q hle hlast => hadmits hle hlast (hnone q)⟩
  | @some start places spans hstart hleast hfirst hspans =>
    have hlast : start ≤ s.length := by
      rw [← String.length_toList]
      exact hstart.2.1
    refine .inr ⟨_, _, start, rfl, rfl, rfl, hstart.1, hlast, fun q hle hlt => ?_, ?_⟩
    · refine hadmits hle (by omega) fun h => ?_
      exact Nat.not_lt.mpr (hleast q h) hlt
    · refine accept_of_isFirst hroles hfixed hbalanced hlast hfirst ?_ ?_
      · rw [Span.plus, Cursor.start_plus, Cursor.start_plus]
      · rw [map_plus_start, hspans]

theorem search_of_none {further : Nat} {start : Cursor} (h : c.regex.capturesAt s start = none) :
    c.search s further start = none := by
  rw [search, h]
  rfl

theorem search_of_accept {further : Nat} {start : Cursor} {found : Captures} {m : Match}
    (h : c.regex.capturesAt s start = some found) (haccept : c.accept s .start found = some m) :
    c.search s further start = some m := by
  rw [search, h]
  simp only [Option.bind_eq_bind, Option.bind_some, haccept]

/-- After a match that is refused the search goes on one character further. -/
theorem search_of_refuse {start : Cursor} {found : Captures} {whole : Span}
    (h : c.regex.capturesAt s start = some found) (haccept : c.accept s .start found = none)
    (hwhole : found.get? 0 = some whole) :
    c.search s 0 start = none ∧ ∀ further, c.search s (further + 1) start =
      if whole.start.isEnd s then none else c.search s further (whole.start.next s) := by
  refine ⟨?_, fun further => ?_⟩
  · rw [search, h]
    simp only [Option.bind_eq_bind, Option.bind_some, haccept, hwhole]
  · rw [search, h]
    simp only [Option.bind_eq_bind, Option.bind_some, haccept, hwhole]

/-- A search from place to place finds the first match of the pattern. -/
theorem search_found (hanchored : p.anchored = false) (hroles : c.roles = p.roles)
    (hfixed : FrontiersFixed p.items) (hbalanced : Balanced 0 p.items)
    (hfinds : ∀ n, n ≤ s.length → Finds p.translated s n (c.regex.capturesAt s (.atPosition s n)))
    (further : Nat) {n : Nat} (hn : n ≤ s.length) (hfurther : s.length ≤ n + further) :
    Pattern.Found s p.items n s.length (c.search s further (.atPosition s n)) := by
  induction further using Nat.strongRecOn generalizing n with
  | ind further ih =>
    obtain ⟨hnone, hfails⟩ | ⟨found, whole, start, hfound, hwhole, hstart, hle, hlast, hbefore,
        ⟨places, hfirst, haccept⟩ | ⟨hfail, haccept⟩⟩ :=
      captures_cases hanchored hroles hfixed hbalanced (hfinds n hn)
    · rw [search_of_none hnone]
      exact hfails
    · rw [search_of_accept hfound haccept]
      exact ⟨start, places, hle, hlast, hbefore, hfirst, rfl⟩
    · obtain ⟨hzero, hsucc⟩ := search_of_refuse hfound haccept hwhole
      have hpassed : ∀ q, n ≤ q → q < start + 1 → Fails s.toList p.items q := by
        intro q hq hlt
        obtain hlt | rfl := Nat.lt_or_eq_of_le (Nat.le_of_lt_succ hlt)
        · exact hbefore q hq hlt
        · exact hfail
      cases further with
      | zero =>
        rw [hzero]
        exact fun q hq hq' => hpassed q hq (by omega)
      | succ further =>
        rw [hsucc, hstart, Cursor.isEnd_atPosition hlast, Cursor.next_atPosition]
        split
        · next hend =>
          rw [decide_eq_true_iff] at hend
          exact fun q hq hq' => hpassed q hq (by omega)
        · next hend =>
          rw [decide_eq_true_iff] at hend
          exact (ih further (Nat.lt_succ_self _) (by omega) (by omega)).of_fails (by omega) hpassed

/-- An anchored search in the rest of a text finds the first match at the place where it starts. -/
theorem findAt_anchored (hanchored : p.anchored = true) (hc : c.anchored = true)
    (hroles : c.roles = p.roles) (hfixed : FrontiersFixed p.items) (hbalanced : Balanced 0 p.items)
    {n : Nat} (hn : n ≤ s.length) {rest : String}
    (hrest : rest = String.ofList (s.toList.drop n))
    (hfinds : Finds p.translated rest 0 (c.regex.capturesAt rest .start)) :
    Pattern.Found s p.items n n (c.findAt s (.atPosition s n)) := by
  have hitems : ∀ item ∈ p.translated.items, Regex.IsItem item :=
    (Regex.parse?_balanced (Regex.parse?_regexText hbalanced)).2
  have htext : rest.toList = s.toList.drop n := by rw [hrest, String.toList_ofList]
  have hlength : n + rest.length = s.length := by
    rw [← String.length_toList, htext, List.length_drop, String.length_toList]
    omega
  have hn' : n ≤ s.toList.length := by rwa [String.length_toList]
  have hbase (k : Nat) (hk : k ≤ rest.length) :
      (Cursor.atPosition s n).plus (.atPosition rest k) = .atPosition s (n + k) := by
    rw [hrest]
    exact Cursor.plus_atPosition (by omega)
  have hfind : c.findAt s (.atPosition s n) =
      (c.regex.capturesAt rest .start).bind (c.accept s (.atPosition s n)) := by
    rw [findAt, if_pos hc, Cursor.rest?_atPosition hn, ← hrest]
    rfl
  rw [hfind]
  generalize c.regex.capturesAt rest .start = result at hfinds ⊢
  cases hfinds with
  | none hnone =>
    intro q hq hq'
    obtain rfl : q = n := by omega
    refine fails_of_translated fun all hall =>
      hnone 0 ⟨Nat.le_refl 0, Nat.zero_le _, fun _ => rfl, ?_⟩
    obtain ⟨places, hplaces, -⟩ := (@derives_drop _ q 0 _ hitems hn' all).mp hall
    exact ⟨places, htext ▸ hplaces⟩
  | @some start places spans hstart _ hfirst hspans =>
    obtain rfl : start = 0 := hstart.2.2.1 hanchored
    have hlast : endOf 0 places ≤ rest.length := by
      rw [← String.length_toList]
      exact hfirst.1.endOf_le_length (Nat.zero_le _)
    have hplaces : ∀ q ∈ places, q ≤ rest.length := by
      rw [← String.length_toList]
      exact hfirst.1.places_le (Nat.zero_le _)
    have hmoved := IsFirst.of_drop hitems hn' (htext ▸ hfirst)
    have hgroups := groupsAlong?_map_add hbase hplaces hspans
    have hwhole : Span.plus (.atPosition s n)
          ⟨.atPosition rest 0, .atPosition rest (endOf 0 places)⟩ =
        ⟨.atPosition s n, .atPosition s (endOf n (places.map (n + ·)))⟩ := by
      rw [Span.plus, hbase 0 (Nat.zero_le _), hbase _ hlast, ← endOf_map_add]
      rfl
    obtain ⟨others, hfirst', haccept⟩ | ⟨hfail, haccept⟩ :=
      accept_of_isFirst hroles hfixed hbalanced hn hmoved hwhole hgroups
    · rw [Option.bind_some, haccept]
      exact ⟨n, others, Nat.le_refl n, Nat.le_refl n, fun q hq hlt => by omega, hfirst', rfl⟩
    · rw [Option.bind_some, haccept]
      intro q hq hq'
      obtain rfl : q = n := by omega
      exact hfail

/-- A compiled pattern finds what the pattern itself does. -/
theorem findAt_eq_find {engine : Engine} {source : String} (hengine : engine.IsLeftmostFirst)
    (hp : Pattern.parse source = .ok p) (hc : new engine source = .ok c) {start : Cursor}
    (hstart : start.IsPlace s) : c.findAt s start = p.find s start := by
  obtain ⟨n, hn, rfl⟩ := Cursor.isPlace_iff.mp hstart
  obtain ⟨p', r, hp', hr, rfl⟩ := new_eq_ok_iff.mp hc
  obtain rfl : p = p' := by
    rw [hp] at hp'
    exact Except.ok.inj hp'
  obtain ⟨-, text, hreads⟩ := Pattern.parse_readsAll hp
  have hfinds := hengine hr (Regex.parse?_regexText hreads.balanced)
  have hfound := p.find_found hn
  cases hanchored : p.anchored with
  | true =>
    rw [Pattern.lastStart, hanchored, if_pos rfl] at hfound
    refine Pattern.Found.unique ?_ hfound
    refine findAt_anchored hanchored rfl rfl hreads.wellFormed.frontier_fixed hreads.balanced
      hn rfl ?_
    exact hfinds _ 0 (Nat.zero_le _)
  | false =>
    rw [Pattern.lastStart, hanchored, if_neg Bool.false_ne_true] at hfound
    refine Pattern.Found.unique ?_ hfound
    rw [findAt, if_neg (by simp), Cursor.position_atPosition]
    exact search_found hanchored rfl hreads.wellFormed.frontier_fixed hreads.balanced
      (hfinds s) _ hn (by omega)

/-- Searches for a compiled pattern find what searches for a pattern do. -/
structure Searches (c : CompiledPattern) (p : Pattern) : Prop where
  anchored_eq : c.anchored = p.anchored
  findAt_eq : ∀ {s : String} {start : Cursor}, start.IsPlace s → c.findAt s start = p.find s start

/-- What a leftmost-first engine makes of a pattern is searched for like the pattern. -/
theorem exists_searches {engine : Engine} {source : String} (hengine : engine.IsLeftmostFirst)
    (hc : new engine source = .ok c) : ∃ p, Pattern.parse source = .ok p ∧ c.Searches p := by
  have ⟨p, r, hp, _, hfields⟩ := new_eq_ok_iff.mp hc
  exact ⟨p, hp, congrArg anchored hfields, findAt_eq_find hengine hp hc⟩

/-- The first match that a compiled pattern finds lies between two places of the text, neither of
them before the start of the search. -/
theorem Searches.places (h : c.Searches p) {n : Nat} (hn : n ≤ s.length) {m : Match}
    (hm : c.findAt s (.atPosition s n) = some m) :
    ∃ a b, n ≤ a ∧ a ≤ b ∧ b ≤ s.length ∧ m.start = .atPosition s a ∧ m.stop = .atPosition s b := by
  rw [h.findAt_eq (Cursor.isPlace_iff.mpr ⟨n, hn, rfl⟩)] at hm
  exact Pattern.places_of_find hn hm

/-! ## The engine that backtracks -/

/-- A pattern with its translation as the engine that backtracks searches it. -/
def ofPattern (p : Pattern) : CompiledPattern :=
  ⟨Regex.ofExpression p.translated, p.anchored, p.roles⟩

/-- The engine that backtracks builds the translation of each pattern that is not too large. -/
theorem new_backtracking {source : String} (hp : Pattern.parse source = .ok p) :
    new Regex.backtracking source =
      if Regex.sizeLimit < Regex.size p.translated then .error (.refused Regex.tooLarge)
      else .ok (ofPattern p) := by
  have hread := Regex.parse?_regexText (Pattern.parse_balanced hp)
  rw [new, hp]
  dsimp only
  rw [Regex.backtracking, hread]
  dsimp only
  by_cases hsize : Regex.sizeLimit < Regex.size p.translated
  · rw [if_pos hsize, if_pos hsize]
  · rw [if_neg hsize, if_neg hsize]
    rfl

theorem new_backtracking_eq_ok {source : String} (hp : Pattern.parse source = .ok p)
    (hsize : Regex.size p.translated ≤ Regex.sizeLimit) :
    new Regex.backtracking source = .ok (ofPattern p) := by
  rw [new_backtracking hp, if_neg (Nat.not_lt.mpr hsize)]

/-! ## The leftmost match -/

/-- Whatever a leftmost-first engine makes of a pattern, a search for it from a place finds a match
if and only if a place is admitted, and the match is the leftmost one. -/
theorem findAt_eq_leftmost {engine : Engine} (hengine : engine.IsLeftmostFirst) {source : String}
    (hp : Pattern.parse source = .ok p) (hc : new engine source = .ok c) {start : Cursor}
    (hstart : start.IsPlace s) :
    ((c.findAt s start).isSome = true ↔ ∃ place, p.Admits s.toList start.position place) ∧
      ∀ m, c.findAt s start = some m ↔ p.IsLeftmost s start.position m := by
  rw [findAt_eq_find hengine hp hc hstart]
  exact Pattern.find_eq_leftmost hp hstart

end CompiledPattern

/-- The pattern `%f[%a]()(.-)$`: from the start of a word to the end of the text. -/
def Pattern.lastWords : Pattern where
  anchored := false
  items := [.frontier ⟨[.class .letter false], false⟩, .position, .openCapture,
    .repeated .any .fewest, .closeCapture, .endAnchor]

theorem Pattern.parse_lastWords : parse "%f[%a]()(.-)$" = .ok lastWords := by decide +kernel

theorem CompiledPattern.findAt_lastWords_eq_leftmost :
    Pattern.parse "%f[%a]()(.-)$" = .ok Pattern.lastWords ∧
      new Regex.backtracking "%f[%a]()(.-)$" = .ok (ofPattern Pattern.lastWords) ∧
      Cursor.IsPlace "é ab" (.atPosition "é ab" 1) ∧
      (ofPattern Pattern.lastWords).findAt "é ab" (.atPosition "é ab" 1) =
        some ⟨⟨2, ⟨3⟩⟩, ⟨4, ⟨5⟩⟩, [.position 3, .text ⟨2, ⟨3⟩⟩ ⟨4, ⟨5⟩⟩]⟩ ∧
      Pattern.lastWords.IsLeftmost "é ab" 1
        ⟨⟨2, ⟨3⟩⟩, ⟨4, ⟨5⟩⟩, [.position 3, .text ⟨2, ⟨3⟩⟩ ⟨4, ⟨5⟩⟩]⟩ := by
  have hnew := new_backtracking_eq_ok Pattern.parse_lastWords (by decide)
  have hplace : Cursor.IsPlace "é ab" (.atPosition "é ab" 1) :=
    ⟨"é", " ab", by decide, by decide +kernel⟩
  have hfind : (ofPattern Pattern.lastWords).findAt "é ab" (.atPosition "é ab" 1) =
      some ⟨⟨2, ⟨3⟩⟩, ⟨4, ⟨5⟩⟩, [.position 3, .text ⟨2, ⟨3⟩⟩ ⟨4, ⟨5⟩⟩]⟩ := by decide +kernel
  have hleftmost := findAt_eq_leftmost Regex.backtracking_isLeftmostFirst Pattern.parse_lastWords
    hnew hplace
  exact ⟨Pattern.parse_lastWords, hnew, hplace, hfind, (hleftmost.2 _).mp hfind⟩

end LuaRuntime
