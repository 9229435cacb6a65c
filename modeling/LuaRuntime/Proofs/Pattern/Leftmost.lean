import LuaRuntime.Proofs.Pattern.Grammar
import LuaRuntime.Proofs.Pattern.Search
import Mathlib.Logic.Basic

/-!
# The leftmost match

A pattern admits a place if its items have a derivation from there, and an anchored pattern only
the place where the search starts.  The match of a search is the one at the first place admitted,
with the end and the captures of the first derivation there.
-/

namespace LuaRuntime

namespace Pattern

/-- A search from a place may find a match at another one. -/
def Admits (p : Pattern) (text : List Char) (first start : Nat) : Prop :=
  first ≤ start ∧ start ≤ text.length ∧ (p.anchored = true → start = first) ∧
    ∃ places, Derives text p.items start places

/-- A match is the one that backtracking comes to first, at the first place that is admitted. -/
def IsLeftmost (p : Pattern) (s : String) (first : Nat) (m : Match) : Prop :=
  ∃ start places,
    p.Admits s.toList first start ∧
    (∀ other, p.Admits s.toList first other → start ≤ other) ∧
    IsFirst s.toList p.items start places ∧
    m.start = .atPosition s start ∧
    m.stop = .atPosition s (endOf start places) ∧
    capturesAlong? s (p.items.zip places) = some m.captures

variable {p : Pattern} {s : String} {n : Nat}

/-- The places a search admits lie between its start and the last place it looks at. -/
theorem admits_iff (hn : n ≤ s.length) {start : Nat} :
    p.Admits s.toList n start ↔
      n ≤ start ∧ start ≤ p.lastStart s n ∧ ¬ Fails s.toList p.items start := by
  have hderives : (∃ places, Derives s.toList p.items start places) ↔
      ¬ Fails s.toList p.items start := by
    rw [Fails, not_forall_not]
  rw [Admits, hderives, String.length_toList, lastStart]
  split
  · next hanchored =>
    constructor
    · rintro ⟨hle, _, heq, hd⟩
      exact ⟨hle, Nat.le_of_eq (heq hanchored), hd⟩
    · rintro ⟨hle, hlast, hd⟩
      exact ⟨hle, by omega, fun _ => by omega, hd⟩
  · next hanchored =>
    constructor
    · rintro ⟨hle, hlast, _, hd⟩
      exact ⟨hle, hlast, hd⟩
    · rintro ⟨hle, hlast, hd⟩
      exact ⟨hle, hlast, fun h => absurd h hanchored, hd⟩

theorem find_eq_none_iff (hn : n ≤ s.length) :
    p.find s (.atPosition s n) = none ↔ ∀ start, ¬ p.Admits s.toList n start := by
  have hfound := p.find_found hn
  cases hfind : p.find s (.atPosition s n) with
  | none =>
    rw [hfind] at hfound
    refine ⟨fun _ start hadmits => ?_, fun _ => rfl⟩
    obtain ⟨hle, hlast, hd⟩ := (admits_iff hn).mp hadmits
    exact hd (hfound start hle hlast)
  | some m =>
    rw [hfind] at hfound
    obtain ⟨start, places, hle, hlast, _, hfirst, _⟩ := hfound
    constructor
    · intro h
      cases h
    · intro h
      exact absurd ((admits_iff hn).mpr ⟨hle, hlast, fun hf => hf places hfirst.1⟩) (h start)

/-- What a search finds is the leftmost match. -/
theorem isLeftmost_of_find (hbalanced : Balanced 0 p.items) (hn : n ≤ s.length) {m : Match}
    (h : p.find s (.atPosition s n) = some m) : p.IsLeftmost s n m := by
  have hfound := p.find_found hn
  rw [h] at hfound
  obtain ⟨start, places, hle, hlast, hleast, hfirst, rfl⟩ := hfound
  obtain ⟨captures, hcaptures⟩ := capturesAlong?_isSome s hbalanced hfirst.1.length_eq
  refine ⟨start, places, ?_, fun other hother => ?_, hfirst, rfl, rfl, ?_⟩
  · exact (admits_iff hn).mpr ⟨hle, hlast, fun hf => hf places hfirst.1⟩
  · obtain ⟨hle', _, hd⟩ := (admits_iff hn).mp hother
    by_contra hlt
    exact hd (hleast other hle' (Nat.lt_of_not_le hlt))
  · rw [hcaptures]
    exact congrArg some (capturesOf_marksAlong hcaptures).symm

theorem IsLeftmost.unique {m m' : Match} (h : p.IsLeftmost s n m) (h' : p.IsLeftmost s n m') :
    m = m' := by
  obtain ⟨start, places, hadmits, hleast, hfirst, hstart, hstop, hcaptures⟩ := h
  obtain ⟨start', places', hadmits', hleast', hfirst', hstart', hstop', hcaptures'⟩ := h'
  obtain rfl : start = start' :=
    Nat.le_antisymm (hleast start' hadmits') (hleast' start hadmits)
  obtain rfl := hfirst.unique hfirst'
  obtain ⟨mstart, mstop, mcaptures⟩ := m
  obtain ⟨mstart', mstop', mcaptures'⟩ := m'
  rw [hcaptures] at hcaptures'
  simp only at hstart hstop hstart' hstop' hcaptures'
  rw [hstart, hstop, hstart', hstop', Option.some.inj hcaptures']

/-- A search from a place finds a match if and only if a place is admitted, and the match is the
leftmost one. -/
theorem find_eq_leftmost {source : String} (hp : parse source = .ok p) {start : Cursor}
    (hstart : start.IsPlace s) :
    ((p.find s start).isSome = true ↔ ∃ place, p.Admits s.toList start.position place) ∧
      ∀ m, p.find s start = some m ↔ p.IsLeftmost s start.position m := by
  obtain ⟨n, hn, rfl⟩ := Cursor.isPlace_iff.mp hstart
  rw [Cursor.position_atPosition]
  have hsome : (p.find s (.atPosition s n)).isSome = true ↔
      ∃ place, p.Admits s.toList n place := by
    rw [← not_iff_not, Bool.not_eq_true, Option.isSome_eq_false_iff, Option.isNone_iff_eq_none,
      find_eq_none_iff hn, not_exists]
  refine ⟨hsome, fun m => ⟨isLeftmost_of_find (parse_balanced hp) hn, fun hm => ?_⟩⟩
  have ⟨place, _, hadmits, _⟩ := hm
  obtain ⟨m', hm'⟩ := Option.isSome_iff_exists.mp (hsome.mpr ⟨place, hadmits⟩)
  rw [hm', hm.unique (isLeftmost_of_find (parse_balanced hp) hn hm')]

end Pattern

end LuaRuntime
