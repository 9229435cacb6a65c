import LuaRuntime.Pattern.Compile
import LuaRuntime.Proofs.Pattern.Frontier
import LuaRuntime.Proofs.Regex.LeftmostFirst

/-!
# Groups and captures

The groups of a translation open in the order of the captures and frontiers of its pattern, and each
of them takes part in a match (`groupsAlong?_translated`).  To take them apart by their roles gives
the captures of the pattern if all frontiers hold, and nothing otherwise (`capturesOfGroups_eq`,
`capturesOfGroups_eq_none`).
-/

namespace LuaRuntime

open Regex (Span groupsAlong?)

/-- The spans of what opens a group in a derivation of a pattern: of captures, and of the places
that positions and frontiers ask for. -/
def spansAlong? (s : String) : List (Item × Nat) → Option (List Span)
  | [] => some []
  | (.openCapture, p) :: along => do
      let q ← closingPlace? 0 along
      let spans ← spansAlong? s along
      return ⟨.atPosition s p, .atPosition s q⟩ :: spans
  | (item, p) :: along =>
      if item.isPlace then (spansAlong? s along).map (⟨.atPosition s p, .atPosition s p⟩ :: ·)
      else spansAlong? s along

section

variable {s : String} {item : Item} {items : List Item} {p q : Nat} {places : List Nat}

/-! ## Translations -/

@[simp] theorem doubled_of_isPlace (h : item.isPlace = true) :
    doubled (item :: items) (q :: places) = q :: q :: doubled items places := by
  rw [doubled, if_pos h]

@[simp] theorem doubled_of_not_isPlace (h : item.isPlace = false) :
    doubled (item :: items) (q :: places) = q :: doubled items places := by
  rw [doubled, if_neg (by rw [h]; exact Bool.false_ne_true)]

theorem Item.depthAfter?_of_isPlace (h : item.isPlace = true) (depth : Nat) :
    item.depthAfter? depth = some depth := by
  cases item with
  | position => rfl
  | frontier _ => rfl
  | one _ => cases h
  | repeated _ _ => cases h
  | openCapture => cases h
  | closeCapture => cases h
  | endAnchor => cases h

/-- The groups of places close before the items after them, so that captures close where they do in
the pattern. -/
theorem closingPlace?_translated (hlength : places.length = items.length) (depth : Nat) :
    closingPlace? depth ((items.flatMap Item.translated).zip (doubled items places)) =
      closingPlace? depth (items.zip places) := by
  induction items generalizing places depth with
  | nil => rfl
  | cons item items ih =>
    cases places with
    | nil => cases hlength
    | cons q places =>
      have hrest := @ih places (Nat.succ.inj hlength)
      rw [List.flatMap_cons, List.zip_cons_cons, closingPlace?_cons]
      obtain ⟨hplace, htranslated⟩ | ⟨hplace, image, htranslated, -, -, hdepth⟩ :=
        item.translated_cases
      · rw [doubled_of_isPlace hplace, htranslated, Item.depthAfter?_of_isPlace hplace]
        exact hrest depth
      · rw [doubled_of_not_isPlace hplace, htranslated, List.singleton_append, List.zip_cons_cons,
          closingPlace?_cons, hdepth]
        cases item.depthAfter? depth with
        | none => rfl
        | some next => exact hrest next

/-- The group of a place is empty. -/
theorem groupsAlong?_place (s : String) (q : Nat) (along : List (Item × Nat)) :
    groupsAlong? s ((.openCapture, q) :: (.closeCapture, q) :: along) =
      (groupsAlong? s along).map (⟨.atPosition s q, .atPosition s q⟩ :: ·) := by
  show (groupsAlong? s along).bind _ = _
  rw [Option.map_eq_bind]
  rfl

/-- The groups of a translation are what opens a group in its pattern. -/
theorem groupsAlong?_translated (hlength : places.length = items.length) :
    groupsAlong? s ((items.flatMap Item.translated).zip (doubled items places)) =
      spansAlong? s (items.zip places) := by
  induction items generalizing places with
  | nil => rfl
  | cons item items ih =>
    cases places with
    | nil => cases hlength
    | cons q places =>
      have hplaces : places.length = items.length := Nat.succ.inj hlength
      have hrest := ih hplaces
      rw [List.zip_cons_cons]
      cases item with
      | openCapture =>
        have hzip : ((Item.openCapture :: items).flatMap Item.translated).zip
            (doubled (.openCapture :: items) (q :: places)) =
              (.openCapture, q) :: (items.flatMap Item.translated).zip (doubled items places) := rfl
        rw [hzip, groupsAlong?, spansAlong?, closingPlace?_translated hplaces, hrest]
      | position => exact (groupsAlong?_place s q _).trans (congrArg _ hrest)
      | frontier _ => exact (groupsAlong?_place s q _).trans (congrArg _ hrest)
      | one _ => exact hrest
      | repeated _ _ => exact hrest
      | closeCapture => exact hrest
      | endAnchor => exact hrest

/-! ## Roles -/

/-- Spans with the numbers of their groups, counted from one on. -/
def Numbered (span : Nat → Span) (i : Nat) (spans : List Span) : Prop :=
  ∀ k x, spans[k]? = some x → span (i + k) = x

theorem Numbered.head {span : Nat → Span} {i : Nat} {x : Span} {spans : List Span}
    (h : Numbered span i (x :: spans)) : span i = x := h 0 x rfl

theorem Numbered.tail {span : Nat → Span} {i : Nat} {x : Span} {spans : List Span}
    (h : Numbered span i (x :: spans)) : Numbered span (i + 1) spans := by
  intro k y hy
  rw [Nat.add_assoc, Nat.add_comm 1 k]
  exact h (k + 1) y hy

theorem spansAlong?_open {along : List (Item × Nat)} {spans : List Span}
    (h : spansAlong? s ((.openCapture, p) :: along) = some spans) :
    ∃ q more, closingPlace? 0 along = some q ∧ spansAlong? s along = some more ∧
      spans = ⟨.atPosition s p, .atPosition s q⟩ :: more := by
  simp only [spansAlong?, Option.bind_eq_bind, Option.bind_eq_some_iff] at h
  obtain ⟨q, hq, more, hmore, hspans⟩ := h
  exact ⟨q, more, hq, hmore, (Option.some.inj hspans).symm⟩

/-- Each capture and each frontier has a group. -/
theorem length_spansAlong? {spans : List Span} (hlength : places.length = items.length)
    (h : spansAlong? s (items.zip places) = some spans) :
    spans.length = (items.filterMap Item.role?).length := by
  induction items generalizing places spans with
  | nil =>
    cases h
    rfl
  | cons item items ih =>
    cases places with
    | nil => cases hlength
    | cons q places =>
      have hplaces : places.length = items.length := Nat.succ.inj hlength
      rw [List.zip_cons_cons] at h
      cases item with
      | openCapture =>
        obtain ⟨stop, more, -, hmore, rfl⟩ := spansAlong?_open h
        exact congrArg Nat.succ (ih hplaces hmore)
      | position =>
        obtain ⟨more, hmore, rfl⟩ := Option.map_eq_some_iff.mp h
        exact congrArg Nat.succ (ih hplaces hmore)
      | frontier _ =>
        obtain ⟨more, hmore, rfl⟩ := Option.map_eq_some_iff.mp h
        exact congrArg Nat.succ (ih hplaces hmore)
      | one _ => exact ih hplaces h
      | repeated _ _ => exact ih hplaces h
      | closeCapture => exact ih hplaces h
      | endAnchor => exact ih hplaces h

/-- Groups that are taken apart by their roles give the captures if all frontiers hold, and nothing
otherwise. -/
theorem capturesOfGroups_eq {span : Nat → Span} {i : Nat} {spans : List Span}
    (hlength : places.length = items.length) (hplaces : ∀ q ∈ places, q ≤ s.length)
    (hspans : spansAlong? s (items.zip places) = some spans) (hnumbered : Numbered span i spans) :
    CompiledPattern.capturesOfGroups s span i (items.filterMap Item.role?) =
      if FrontiersHold s.toList items places then capturesAlong? s (items.zip places)
      else none := by
  induction items generalizing places i spans with
  | nil => rfl
  | cons item items ih =>
    cases places with
    | nil => cases hlength
    | cons q places =>
      have hcount : places.length = items.length := Nat.succ.inj hlength
      obtain ⟨hq, hmost⟩ := List.forall_mem_cons.mp hplaces
      rw [List.zip_cons_cons] at hspans ⊢
      rw [if_congr frontiersHold_cons rfl rfl, ite_and]
      cases item with
      | openCapture =>
        obtain ⟨stop, more, hstop, hmore, rfl⟩ := spansAlong?_open hspans
        have hroles : (Item.openCapture :: items).filterMap Item.role? =
            .text :: items.filterMap Item.role? := rfl
        have hrest := ih hcount hmost hmore hnumbered.tail
        rw [hroles, CompiledPattern.capturesOfGroups, hrest, hnumbered.head,
          capturesAlong?, hstop]
        simp only [Item.HoldsAt, ↓reduceIte]
        split
        · rw [Option.map_eq_bind]
          rfl
        · rfl
      | position =>
        obtain ⟨more, hmore, rfl⟩ := Option.map_eq_some_iff.mp hspans
        have hroles : (Item.position :: items).filterMap Item.role? =
            .position :: items.filterMap Item.role? := rfl
        have hrest := ih hcount hmost hmore hnumbered.tail
        rw [hroles, CompiledPattern.capturesOfGroups, hrest, hnumbered.head,
          capturesAlong?]
        simp only [Item.HoldsAt, ↓reduceIte]
        split
        · rw [Cursor.position_atPosition]
        · rfl
      | frontier members =>
        obtain ⟨more, hmore, rfl⟩ := Option.map_eq_some_iff.mp hspans
        have hroles : (Item.frontier members :: items).filterMap Item.role? =
            .frontier members :: items.filterMap Item.role? := rfl
        have hrest := ih hcount hmost hmore hnumbered.tail
        rw [hroles, CompiledPattern.capturesOfGroups, hrest, hnumbered.head,
          if_congr (members.bounds_iff hq) rfl rfl]
        rfl
      | one _ | repeated _ _ | closeCapture | endAnchor =>
        simp only [Item.HoldsAt, ↓reduceIte]
        exact ih hcount hmost hspans hnumbered

end

end LuaRuntime
