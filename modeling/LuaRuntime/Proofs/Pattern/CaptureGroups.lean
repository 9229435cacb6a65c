import LuaRuntime.Proofs.Pattern.CaptureOrder
import LuaRuntime.Proofs.Pattern.Compiled

/-!
# Captures come from groups

The match of a compiled pattern is made of what the engine told (`CompiledPattern.Told`).  Each
group of the expression takes part in it, and the groups make the captures, one after the other
(`GroupRole.Make`).  So a pattern that can be read, and is well formed then, has its captures in
their order in each match (`wellFormed_and_captures_in_order`).
-/

namespace LuaRuntime

open Regex (Captures Engine Finds Span groupsAlong?)

/-! ## Groups of a match -/

/-- What the groups of an expression make: a capture of text or of a position each, and nothing of a
frontier. -/
inductive GroupRole.Make : List GroupRole → List Span → List Capture → Prop
  | nil : Make [] [] []
  | text {span : Span} {roles : List GroupRole} {spans : List Span} {captures : List Capture} :
      Make roles spans captures →
      Make (.text :: roles) (span :: spans) (.text span.start span.stop :: captures)
  | position {span : Span} {roles : List GroupRole} {spans : List Span}
      {captures : List Capture} :
      Make roles spans captures →
      Make (.position :: roles) (span :: spans) (.position (span.start.position + 1) :: captures)
  | frontier {members : CharSet} {span : Span} {roles : List GroupRole} {spans : List Span}
      {captures : List Capture} :
      Make roles spans captures →
      Make (.frontier members :: roles) (span :: spans) captures

namespace CompiledPattern

/-- What the engine told in a search from a place on, and the place where the text starts in which
it looked: the rest of the text for an anchored pattern, and else the text from some place on. -/
inductive Told (c : CompiledPattern) (s : String) (start : Cursor) : Cursor → Captures → Prop
  | rest {rest : String} {found : Captures} :
      c.anchored = true →
      start.rest? s = some rest →
      c.regex.captures rest = some found →
      Told c s start start found
  | whole {place : Cursor} {found : Captures} :
      c.anchored = false →
      place.IsPlace s →
      c.regex.capturesAt s place = some found →
      Told c s start .start found

/-- A match is made of what the engine told.  Each group takes part, so that none counts as empty
at the start of the match, and the captures are what the groups make. -/
structure TakesGroups (c : CompiledPattern) (s : String) (start : Cursor) (m : Match)
    (base : Cursor) (found : Captures) (whole : Span) (groups : List Span) : Prop where
  told : c.Told s start base found
  accepted : c.accept s base found = some m
  spans_eq : found.spans = some whole :: groups.map some
  takes_part : ∀ i < c.roles.length, ∃ span, found.get? (i + 1) = some span
  make : GroupRole.Make c.roles (groups.map (·.plus base)) m.captures

section

variable {c : CompiledPattern} {p : Pattern} {s : String} {n : Nat} {found : Captures}

theorem make_of_capturesOfGroups {span : Nat → Span} {i : Nat} {roles : List GroupRole}
    {spans : List Span} {captures : List Capture} (hnumbered : Numbered span i spans)
    (hlength : spans.length = roles.length)
    (h : capturesOfGroups s span i roles = some captures) :
    GroupRole.Make roles spans captures := by
  induction roles generalizing i spans captures with
  | nil =>
    cases h
    rw [List.length_eq_zero_iff.mp hlength]
    exact .nil
  | cons role roles ih =>
    cases spans with
    | nil => cases hlength
    | cons x spans =>
      have hcount : spans.length = roles.length := Nat.succ.inj hlength
      cases role with
      | text =>
        obtain ⟨more, hmore, rfl⟩ := Option.map_eq_some_iff.mp h
        rw [hnumbered.head]
        exact .text (ih hnumbered.tail hcount hmore)
      | position =>
        obtain ⟨more, hmore, rfl⟩ := Option.map_eq_some_iff.mp h
        rw [hnumbered.head]
        exact .position (ih hnumbered.tail hcount hmore)
      | frontier members =>
        rw [capturesOfGroups] at h
        split at h
        · exact .frontier (ih hnumbered.tail hcount h)
        · cases h

/-- Each group of a translation takes part in a match. -/
theorem exists_groups (h : Finds p.translated s n (some found)) :
    ∃ (whole : Span) (groups : List Span), found.spans = some whole :: groups.map some ∧
      groups.length = p.roles.length := by
  cases h with
  | @some start all spans _ _ hfirst hspans =>
    obtain ⟨places, hplaces, rfl⟩ := derives_translated.mp hfirst.1
    have hlength : places.length = p.items.length := by
      rw [hplaces.length_eq, List.length_map]
    exact ⟨_, spans, rfl, length_spansAlong? hlength
      ((groupsAlong?_translated hlength).symm.trans hspans)⟩

theorem takesGroups_of_told {start base : Cursor} {m : Match} (hroles : c.roles = p.roles)
    (htold : c.Told s start base found) {text : String}
    (hfinds : Finds p.translated text n (some found)) (haccept : c.accept s base found = some m) :
    ∃ whole groups, c.TakesGroups s start m base found whole groups := by
  obtain ⟨whole, groups, hspans, hlength⟩ := exists_groups hfinds
  rw [← hroles] at hlength
  obtain ⟨spans⟩ := found
  obtain rfl : spans = some whole :: groups.map some := hspans
  refine ⟨whole, groups, htold, haccept, rfl, fun i hi => ?_, ?_⟩
  · exact ⟨groups[i], by simp [Captures.get?, hlength, hi]⟩
  · rw [accept_of_whole] at haccept
    obtain ⟨captures, hmade, rfl⟩ := Option.map_eq_some_iff.mp haccept
    refine make_of_capturesOfGroups (numbered_groups base whole groups) ?_ hmade
    rw [List.length_map, hlength]

/-- A search from place to place that finds a match was told of it. -/
theorem exists_told_of_search (hanchored : p.anchored = false) (hroles : c.roles = p.roles)
    (hfixed : FrontiersFixed p.items) (hbalanced : Balanced 0 p.items)
    (hfinds : ∀ n, n ≤ s.length → Finds p.translated s n (c.regex.capturesAt s (.atPosition s n)))
    {further : Nat} (hn : n ≤ s.length) {m : Match}
    (hm : c.search s further (.atPosition s n) = some m) :
    ∃ k found, k ≤ s.length ∧ c.regex.capturesAt s (.atPosition s k) = some found ∧
      c.accept s .start found = some m := by
  induction further using Nat.strongRecOn generalizing n with
  | ind further ih =>
    obtain ⟨hnone, -⟩ | ⟨found, whole, start, hfound, hwhole, hstart, -, hlast, -,
        ⟨places, -, haccept⟩ | ⟨-, haccept⟩⟩ :=
      captures_cases hanchored hroles hfixed hbalanced (hfinds n hn)
    · rw [search_of_none hnone] at hm
      cases hm
    · rw [search_of_accept hfound haccept] at hm
      exact ⟨n, found, hn, hfound, haccept.trans hm⟩
    · obtain ⟨hzero, hsucc⟩ := search_of_refuse hfound haccept hwhole
      cases further with
      | zero =>
        rw [hzero] at hm
        cases hm
      | succ further =>
        rw [hsucc, hstart, Cursor.isEnd_atPosition hlast, Cursor.next_atPosition] at hm
        split at hm
        · cases hm
        · next hend =>
          rw [decide_eq_true_iff] at hend
          exact ih further (Nat.lt_succ_self _) (by omega) hm

/-- A match that is found takes all groups. -/
theorem takesGroups_of_findAt {engine : Engine} {source : String}
    (hengine : engine.IsLeftmostFirst) (hp : Pattern.parse source = .ok p)
    (hc : new engine source = .ok c) {start : Cursor} (hstart : start.IsPlace s) {m : Match}
    (hm : c.findAt s start = some m) :
    ∃ base found whole groups, c.TakesGroups s start m base found whole groups := by
  obtain ⟨n, hn, rfl⟩ := Cursor.isPlace_iff.mp hstart
  obtain ⟨p', r, hp', hr, rfl⟩ := new_eq_ok_iff.mp hc
  obtain rfl : p = p' := by
    rw [hp] at hp'
    exact Except.ok.inj hp'
  obtain ⟨-, text, hreads⟩ := Pattern.parse_readsAll hp
  have hfinds := hengine hr (Regex.parse?_regexText hreads.balanced)
  obtain hanchored | hanchored := Bool.eq_false_or_eq_true p.anchored
  · rw [findAt, if_pos hanchored] at hm
    obtain ⟨rest, hrest, hm⟩ := Option.bind_eq_some_iff.mp hm
    obtain ⟨found, hfound, haccept⟩ := Option.bind_eq_some_iff.mp hm
    have htold : Finds p.translated rest 0 (some found) := hfound ▸ hfinds rest 0 (Nat.zero_le _)
    obtain ⟨whole, groups, h⟩ :=
      takesGroups_of_told rfl (.rest hanchored hrest hfound) htold haccept
    exact ⟨_, found, whole, groups, h⟩
  · rw [findAt, if_neg (by simp [hanchored])] at hm
    obtain ⟨k, found, hk, hfound, haccept⟩ :=
      exists_told_of_search hanchored rfl hreads.wellFormed.frontier_fixed hreads.balanced
        (hfinds s) hn hm
    have hplace : Cursor.IsPlace s (.atPosition s k) := Cursor.isPlace_iff.mpr ⟨k, hk, rfl⟩
    obtain ⟨whole, groups, h⟩ :=
      takesGroups_of_told rfl (.whole hanchored hplace hfound) (hfound ▸ hfinds s k hk) haccept
    exact ⟨_, found, whole, groups, h⟩

end

end CompiledPattern

/-! ## Well-formed patterns -/

/-- A pattern that can be read is spelled by its text and well formed.  Whatever a leftmost-first
engine makes of it, in each match that is found all groups take part, and the captures are what they
make, those of the pattern in their order. -/
theorem Pattern.wellFormed_and_captures_in_order {source : String} {p : Pattern}
    (hp : parse source = .ok p) :
    SpellsPattern source.toList p ∧ WellFormed p.items ∧
      ∀ {engine : Engine} {c : CompiledPattern}, engine.IsLeftmostFirst →
        CompiledPattern.new engine source = .ok c →
        ∀ {s : String} {start : Cursor} {m : Match}, start.IsPlace s →
          c.findAt s start = some m →
          (∃ first places, m.CapturesInOrder p s first places) ∧
            c.roles = p.roles ∧
            ∃ base found whole groups, c.TakesGroups s start m base found whole groups := by
  obtain ⟨hspells, text, hreads⟩ := parse_readsAll hp
  refine ⟨hspells, hreads.wellFormed,
    fun {engine c} hengine hc {s start m} hstart hm => ⟨?_, ?_, ?_⟩⟩
  · rw [CompiledPattern.findAt_eq_find hengine hp hc hstart] at hm
    obtain ⟨n, hn, rfl⟩ := Cursor.isPlace_iff.mp hstart
    exact capturesInOrder_of_find hreads.balanced hn hm
  · obtain ⟨p', r, hp', -, rfl⟩ := CompiledPattern.new_eq_ok_iff.mp hc
    rw [hp, Except.ok.injEq] at hp'
    rw [hp']
  · exact CompiledPattern.takesGroups_of_findAt hengine hp hc hstart hm

/-- The pattern `%f[%a](()%a(é-))+$`: at the start of a word a letter, a text of the letter é and a
plus sign, at the end. -/
def nestedCaptures : Pattern where
  anchored := false
  items := [.frontier ⟨[.class .letter false], false⟩, .openCapture, .position,
    .one (.class .letter false), .openCapture, .repeated (.char 'é') .fewest, .closeCapture,
    .closeCapture, .one (.char '+'), .endAnchor]

theorem nestedCaptures_wellFormed_and_in_order :
    Pattern.parse "%f[%a](()%a(é-))+$" = .ok nestedCaptures ∧
      CompiledPattern.new Regex.backtracking "%f[%a](()%a(é-))+$" =
        .ok (.ofPattern nestedCaptures) ∧
      Cursor.IsPlace "é aéé+" (.atPosition "é aéé+" 1) ∧
      (CompiledPattern.ofPattern nestedCaptures).findAt "é aéé+" (.atPosition "é aéé+" 1) =
        some ⟨⟨2, ⟨3⟩⟩, ⟨6, ⟨9⟩⟩,
          [.text ⟨2, ⟨3⟩⟩ ⟨5, ⟨8⟩⟩, .position 3, .text ⟨3, ⟨4⟩⟩ ⟨5, ⟨8⟩⟩]⟩ ∧
      Pattern.SpellsPattern "%f[%a](()%a(é-))+$".toList nestedCaptures ∧
      Pattern.WellFormed nestedCaptures.items ∧
      ∃ base found whole groups,
        (CompiledPattern.ofPattern nestedCaptures).TakesGroups "é aéé+" (.atPosition "é aéé+" 1)
          ⟨⟨2, ⟨3⟩⟩, ⟨6, ⟨9⟩⟩,
            [.text ⟨2, ⟨3⟩⟩ ⟨5, ⟨8⟩⟩, .position 3, .text ⟨3, ⟨4⟩⟩ ⟨5, ⟨8⟩⟩]⟩
          base found whole groups := by
  have hparse : Pattern.parse "%f[%a](()%a(é-))+$" = .ok nestedCaptures := by decide +kernel
  have hnew := CompiledPattern.new_backtracking_eq_ok hparse (by decide)
  have hplace : Cursor.IsPlace "é aéé+" (.atPosition "é aéé+" 1) :=
    ⟨"é", " aéé+", by decide, by decide +kernel⟩
  have hfind :
      (CompiledPattern.ofPattern nestedCaptures).findAt "é aéé+" (.atPosition "é aéé+" 1) =
        some ⟨⟨2, ⟨3⟩⟩, ⟨6, ⟨9⟩⟩,
          [.text ⟨2, ⟨3⟩⟩ ⟨5, ⟨8⟩⟩, .position 3, .text ⟨3, ⟨4⟩⟩ ⟨5, ⟨8⟩⟩]⟩ := by
    decide +kernel
  obtain ⟨hspells, hwellFormed, hmatches⟩ := Pattern.wellFormed_and_captures_in_order hparse
  obtain ⟨-, -, hgroups⟩ :=
    hmatches Regex.backtracking_isLeftmostFirst hnew hplace hfind
  exact ⟨hparse, hnew, hplace, hfind, hspells, hwellFormed, hgroups⟩

end LuaRuntime
