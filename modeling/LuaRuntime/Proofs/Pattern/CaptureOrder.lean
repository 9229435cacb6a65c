import LuaRuntime.Proofs.Pattern.CaptureBounds

/-!
# Captures in the order of opening

A pattern has one capture for each item that opens one or captures a position, and in a match each
of them has its own place in the list: as many captures stand before it as items before its own
start one (`CapturesAt`).  A capture of text ends at the closing item that is reached with all
captures opened in between closed (`closingPlace?_eq_some_iff`).
-/

namespace LuaRuntime

/-! ## What an item captures -/

/-- What an item at a place captures, with the items after it and the places where they end. -/
inductive Item.Captures (s : String) (p : Nat) (items : List Item) (places : List Nat) :
    Item → Capture → Prop
  | position : Captures s p items places .position (.position (p + 1))
  | text {inner back : List Item} {q : Nat} :
      items = inner ++ .closeCapture :: back →
      Balanced 0 inner →
      places[inner.length]? = some q →
      Captures s p items places .openCapture (.text (.atPosition s p) (.atPosition s q))

/-- The capture of a derivation with a number, counted from 0: the items before it start as many
captures. -/
inductive CapturesAt (s : String) : List Item → List Nat → Nat → Capture → Prop
  | intro {front back : List Item} {item : Item} {before after : List Nat} {p : Nat}
      {c : Capture} :
      before.length = front.length →
      item.Captures s p back after c →
      CapturesAt s (front ++ item :: back) (before ++ p :: after)
        (front.countP Item.capturesHere) c

section

variable {s : String} {item : Item} {items : List Item} {p q k : Nat} {places : List Nat}
  {c : Capture}

theorem Item.Captures.capturesHere (h : item.Captures s p items places c) :
    item.capturesHere = true := by
  cases h with
  | position => rfl
  | text _ _ _ => rfl

/-- The first item captures what has the number 0, and numbers the captures after it. -/
theorem capturesAt_cons :
    CapturesAt s (item :: items) (p :: places) k c ↔
      (k = 0 ∧ item.Captures s p items places c) ∨
        ∃ j, k = j + (if item.capturesHere then 1 else 0) ∧ CapturesAt s items places j c := by
  constructor
  · intro h
    generalize hitems : item :: items = all at h
    generalize hplaces : p :: places = ends at h
    cases h with
    | @intro front _ _ before _ _ _ hlength hcaptures =>
      cases front with
      | nil =>
        obtain rfl := List.length_eq_zero_iff.mp hlength
        cases hitems
        cases hplaces
        exact .inl ⟨rfl, hcaptures⟩
      | cons _ front =>
        cases before with
        | nil => cases hlength
        | cons _ before =>
          cases hitems
          cases hplaces
          exact .inr ⟨_, List.countP_cons, .intro (Nat.succ.inj hlength) hcaptures⟩
  · rintro (⟨rfl, hcaptures⟩ | ⟨j, rfl, hcaptures⟩)
    · exact @CapturesAt.intro s [] items item [] places p c rfl hcaptures
    · cases hcaptures with
      | @intro front back first before after q _ hlength hcaptures =>
        rw [← List.countP_cons]
        exact @CapturesAt.intro s (item :: front) back first (p :: before) after q c
          (congrArg Nat.succ hlength) hcaptures

/-- The captures of a derivation are those after its first item, with what that item captures in
front. -/
theorem capturesAlong?_cases {captures : List Capture}
    (h : capturesAlong? s ((item, p) :: items.zip places) = some captures) :
    (item.capturesHere = false ∧ capturesAlong? s (items.zip places) = some captures) ∨
      (item.capturesHere = true ∧ ∃ c more, captures = c :: more ∧
        capturesAlong? s (items.zip places) = some more ∧
        ∀ c', item.Captures s p items places c' ↔ c' = c) := by
  cases item with
  | openCapture =>
    obtain ⟨q, more, hq, hmore, rfl⟩ := capturesAlong?_open h
    refine .inr ⟨rfl, _, more, rfl, hmore, fun c' => ⟨fun hc => ?_, ?_⟩⟩
    · cases hc with
      | text hitems hbalanced hplace =>
        have hq' := closingPlace?_eq_some_iff.mpr ⟨_, _, hitems, hbalanced, hplace⟩
        rw [hq, Option.some.injEq] at hq'
        rw [hq']
    · rintro rfl
      obtain ⟨inner, back, hitems, hbalanced, hplace⟩ := closingPlace?_eq_some_iff.mp hq
      exact .text hitems hbalanced hplace
  | position =>
    obtain ⟨more, hmore, rfl⟩ := Option.map_eq_some_iff.mp h
    refine .inr ⟨rfl, _, more, rfl, hmore, fun c' => ⟨fun hc => ?_, ?_⟩⟩
    · cases hc
      rfl
    · rintro rfl
      exact .position
  | closeCapture => exact .inl ⟨rfl, h⟩
  | one _ => exact .inl ⟨rfl, h⟩
  | repeated _ _ => exact .inl ⟨rfl, h⟩
  | endAnchor => exact .inl ⟨rfl, h⟩
  | frontier _ => exact .inl ⟨rfl, h⟩

/-- The captures of a derivation are numbered in the order in which they open. -/
theorem getElem?_captures_iff {captures : List Capture} (hlength : places.length = items.length)
    (h : capturesAlong? s (items.zip places) = some captures) :
    captures[k]? = some c ↔ CapturesAt s items places k c := by
  induction items generalizing places captures k with
  | nil =>
    cases h
    refine ⟨fun hc => (by simp at hc), fun hc => ?_⟩
    generalize hitems : ([] : List Item) = all at hc
    cases hc
    simp at hitems
  | cons item items ih =>
    cases places with
    | nil => cases hlength
    | cons p places =>
      have hplaces : places.length = items.length := Nat.succ.inj hlength
      rw [capturesAt_cons]
      obtain ⟨hnone, hmore⟩ | ⟨hhere, first, more, rfl, hmore, hfirst⟩ := capturesAlong?_cases h
      · rw [ih hplaces hmore, hnone]
        constructor
        · exact fun hc => .inr ⟨k, rfl, hc⟩
        · rintro (⟨-, hc⟩ | ⟨j, rfl, hc⟩)
          · rw [hc.capturesHere] at hnone
            cases hnone
          · exact hc
      · rw [hhere, if_pos rfl]
        cases k with
        | zero =>
          rw [List.getElem?_cons_zero, hfirst, Option.some.injEq, eq_comm]
          simp
        | succ k =>
          rw [List.getElem?_cons_succ, ih hplaces hmore]
          simp

end

/-! ## Captures of a match -/

/-- A match has a capture for each item of the pattern that starts one, in the order of these
items. -/
structure Match.CapturesInOrder (m : Match) (p : Pattern) (s : String) (start : Nat)
    (places : List Nat) : Prop where
  /-- The match is the first derivation from its start. -/
  isFirst : IsFirst s.toList p.items start places
  start_eq : m.start = .atPosition s start
  stop_eq : m.stop = .atPosition s (endOf start places)
  length_eq : m.captures.length = p.captureCount
  captured : ∀ k c, m.captures[k]? = some c ↔ CapturesAt s p.items places k c
  /-- A captured text lies inside the match, between two places of the text searched. -/
  within : ∀ first last, .text first last ∈ m.captures →
    first.IsPlace s ∧ last.IsPlace s ∧ m.start.offset ≤ first.offset ∧
      first.offset ≤ last.offset ∧ last.offset ≤ m.stop.offset

theorem Pattern.capturesInOrder_of_find {p : Pattern} (hbalanced : Balanced 0 p.items) {s : String}
    {n : Nat} (hn : n ≤ s.length) {m : Match} (h : p.find s (.atPosition s n) = some m) :
    ∃ start places, m.CapturesInOrder p s start places := by
  obtain ⟨start, places, hadmits, -, hfirst, hstart, hstop, hcaptures⟩ :=
    isLeftmost_of_find hbalanced hn h
  have hend : endOf start places ≤ s.length := by
    rw [← String.length_toList]
    exact hfirst.1.endOf_le_length hadmits.2.1
  refine ⟨start, places, hfirst, hstart, hstop, hfirst.1.length_captures hcaptures, fun k c => ?_,
    fun first last hmem => ?_⟩
  · exact getElem?_captures_iff hfirst.1.length_eq hcaptures
  · obtain ⟨a, b, ha, hab, hb, rfl, rfl⟩ := hfirst.1.captures_within hcaptures _ hmem
    rw [hstart, hstop]
    exact ⟨Cursor.isPlace_iff.mpr ⟨a, by omega, rfl⟩, Cursor.isPlace_iff.mpr ⟨b, by omega, rfl⟩,
      Cursor.offset_le ha (by omega), Cursor.offset_le hab (by omega), Cursor.offset_le hb hend⟩

end LuaRuntime
