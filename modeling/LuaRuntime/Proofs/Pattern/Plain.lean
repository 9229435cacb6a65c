import LuaRuntime.Pattern.Parse
import LuaRuntime.Proofs.Pattern.Search
import LuaRuntime.Proofs.Text.Search

/-!
# Patterns without special characters

A plain text reads as the pattern of its own characters (`parse_of_isPlain`).  Such a pattern has a
derivation exactly where the text stands, and no captures, so the search for the pattern and the
search for the text come to the same place (`find_plain`).
-/

namespace LuaRuntime

open Text (StandsAt)

/-! ## Reading -/

namespace Pattern

/-- The pattern that matches a list of characters alone. -/
def literal (text : List Char) : Pattern := ⟨false, text.map fun c => .one (.char c)⟩

/-- The characters that mean something else than themselves in a pattern. -/
def IsSpecial (c : Char) : Prop := c ∈ "^$*+?.()[]%-".toList

instance (c : Char) : Decidable (IsSpecial c) :=
  inferInstanceAs (Decidable (c ∈ "^$*+?.()[]%-".toList))

theorem ne_of_not_isSpecial {c d : Char} (hc : ¬ IsSpecial c) (hd : IsSpecial d) : ¬ c = d := by
  rintro rfl
  exact hc hd

theorem isPlain_iff {source : String} :
    isPlain source = true ↔ ∀ c ∈ source.toList, ¬ IsSpecial c := by
  simp [isPlain, IsSpecial]

/-- An ordinary character is not a quantifier. -/
theorem quantifier?_eq_none {c : Char} (h : ¬ IsSpecial c) : quantifier? c = none := by
  rw [quantifier?] <;> exact ne_of_not_isSpecial h (by decide)

theorem quantified_of_ordinary {text : List Char} (h : ∀ c ∈ text, ¬ IsSpecial c)
    (context : Context) (single : Single) :
    quantified context single text = (.one single, text, context) := by
  cases text with
  | nil => rfl
  | cons c rest => rw [quantified, quantifier?_eq_none (h c List.mem_cons_self)]

/-- An ordinary character before ordinary ones is an item of its own. -/
theorem item_of_ordinary {c : Char} {text : List Char} (hc : ¬ IsSpecial c)
    (h : ∀ d ∈ text, ¬ IsSpecial d) (context : Context) :
    item context c text = .ok (.one (.char c), text, context) := by
  rw [item, quantified_of_ordinary h] <;> exact ne_of_not_isSpecial hc (by decide)

theorem parseItems_of_ordinary {text : List Char} (h : ∀ c ∈ text, ¬ IsSpecial c) :
    parseItems {} text = .ok (text.map fun c => .one (.char c)) := by
  induction text with
  | nil =>
    rw [parseItems]
    rfl
  | cons c rest ih =>
    rw [List.forall_mem_cons] at h
    rw [parseItems]
    split
    · next e he =>
      rw [item_of_ordinary h.1 h.2] at he
      cases he
    · next first tail next he =>
      rw [item_of_ordinary h.1 h.2] at he
      cases he
      rw [ih h.2]
      rfl

/-- A plain text can be read, and is the pattern of its characters. -/
theorem parse_of_isPlain {source : String} (h : isPlain source = true) :
    parse source = .ok (literal source.toList) := by
  rw [isPlain_iff] at h
  rw [parse]
  split
  · next rest hcaret => exact absurd (by decide) (h '^' (hcaret ▸ List.mem_cons_self))
  · rw [parseItems_of_ordinary h]
    rfl

/-! ## Matching -/

/-- A derivation of the characters of a text passes over the text. -/
theorem derives_literal {text wanted : List Char} {p : Nat} {places : List Nat}
    (h : Derives text (literal wanted).items p places) :
    StandsAt text wanted p ∧ endOf p places = p + wanted.length := by
  induction wanted generalizing p places with
  | nil =>
    cases h
    exact ⟨List.nil_prefix, rfl⟩
  | cons c rest ih =>
    cases h with
    | cons hstep hrest =>
      cases hstep with
      | one hfits =>
        obtain ⟨d, hd, hcd⟩ := hfits
        obtain rfl : d = c := by simpa [Single.accepts] using hcd
        obtain ⟨hstands, hend⟩ := ih hrest
        obtain ⟨hp, hget⟩ := List.getElem?_eq_some_iff.mp hd
        refine ⟨?_, ?_⟩
        · rw [StandsAt, List.drop_eq_getElem_cons hp, hget]
          exact (List.prefix_cons_inj d).mpr hstands
        · rw [endOf_cons, hend, List.length_cons]
          omega

theorem exists_derives_literal {text wanted : List Char} {p : Nat}
    (h : StandsAt text wanted p) : ∃ places, Derives text (literal wanted).items p places := by
  induction wanted generalizing p with
  | nil => exact ⟨[], .nil⟩
  | cons c rest ih =>
    have hp : p < text.length := by
      have := List.IsPrefix.length_le h
      rw [List.length_drop, List.length_cons] at this
      omega
    rw [StandsAt, List.drop_eq_getElem_cons hp, List.cons_prefix_cons] at h
    obtain ⟨places, hplaces⟩ := ih h.2
    refine ⟨_, .cons (.one ⟨c, ?_, ?_⟩) hplaces⟩
    · rw [List.getElem?_eq_getElem hp, h.1]
    · simp [Single.accepts]

theorem fails_literal_iff {text wanted : List Char} {p : Nat} :
    Fails text (literal wanted).items p ↔ ¬ StandsAt text wanted p := by
  constructor
  · intro hfails hstands
    obtain ⟨places, hplaces⟩ := exists_derives_literal hstands
    exact hfails places hplaces
  · intro hnot places hplaces
    exact hnot (derives_literal hplaces).1

theorem marksAlong_literal (s : String) (wanted : List Char) (places : List Nat) :
    marksAlong s ((literal wanted).items.zip places) = [] := by
  rw [marksAlong, List.filterMap_eq_nil_iff]
  rintro ⟨item, q⟩ hmem
  obtain ⟨c, -, rfl⟩ := List.mem_map.mp (List.of_mem_zip hmem).1
  rfl

/-- The match of a text at a place: its characters, and no captures. -/
def literalMatch (s wanted : String) (place : Cursor) : Match :=
  ⟨place, place.forward s wanted.length, []⟩

theorem find_literal (s wanted : String) {n : Nat} (hn : n ≤ s.length) :
    (literal wanted.toList).find s (.atPosition s n) =
      (Text.find? s wanted (.atPosition s n)).map (literalMatch s wanted) := by
  have hfound := (literal wanted.toList).find_found hn
  have hfinds := Text.find?_finds s wanted hn
  have hlast : (literal wanted.toList).lastStart s n = s.length := rfl
  rw [hlast] at hfound
  cases hmatch : (literal wanted.toList).find s (.atPosition s n) with
  | none =>
    rw [hmatch] at hfound
    cases hplace : Text.find? s wanted (.atPosition s n) with
    | none => rfl
    | some c =>
      rw [hplace] at hfinds
      obtain ⟨start, hle, hlast, -, hstands, -⟩ := hfinds
      exact absurd hstands (fails_literal_iff.mp (hfound start hle hlast))
  | some m =>
    rw [hmatch] at hfound
    obtain ⟨start, places, hle, hlast, hleast, hfirst, rfl⟩ := hfound
    obtain ⟨hstands, hend⟩ := derives_literal hfirst.1
    cases hplace : Text.find? s wanted (.atPosition s n) with
    | none =>
      rw [hplace] at hfinds
      exact absurd hstands (hfinds start hle hlast)
    | some c =>
      rw [hplace] at hfinds
      obtain ⟨start', hle', hlast', rfl, hstands', hleast'⟩ := hfinds
      -- Each of the two places is the first one.
      obtain rfl : start = start' := by
        rcases Nat.lt_trichotomy start start' with hlt | heq | hlt
        · exact absurd hstands (hleast' start hle hlt)
        · exact heq
        · exact absurd hstands' (fails_literal_iff.mp (hleast start' hle' hlt))
      rw [Option.map_some, literalMatch, Ending.toMatch, endingAlong, marksAlong_literal, hend,
        Text.forward_atPosition, String.length_toList]
      rfl

/-- The search for a plain text as a pattern is the search for the text. -/
theorem find_plain {source : String} {p : Pattern} (h : isPlain source = true)
    (hp : parse source = .ok p) {s : String} {start : Cursor} (hstart : start.IsPlace s) :
    p.find s start = (Text.find? s source start).map (literalMatch s source) := by
  rw [parse_of_isPlain h] at hp
  cases hp
  obtain ⟨n, hn, rfl⟩ := Cursor.isPlace_iff.mp hstart
  exact find_literal s source hn

end Pattern

end LuaRuntime
