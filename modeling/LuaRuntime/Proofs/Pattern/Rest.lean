import LuaRuntime.Pattern.Compile
import LuaRuntime.Proofs.Regex.LeftmostFirst

/-!
# Derivations in the rest of a text

The items of an expression read nothing before the place where they start.  So a derivation of them
in the rest of a text, from a place `n` on, is one in the whole text with all places moved by `n`
(`derives_drop`), the first one there is the first one here (`IsFirst.of_drop`), and their groups
move with it (`groupsAlong?_drop`).
-/

namespace LuaRuntime

open Regex (IsItem Span groupsAlong?)

section

variable {text : List Char} {n p q : Nat} {item : Item} {items : List Item} {places : List Nat}

/-! ## Steps -/

theorem Single.fitsAt_drop {single : Single} :
    single.FitsAt (text.drop n) p ↔ single.FitsAt text (n + p) := by
  rw [FitsAt, FitsAt, List.getElem?_drop]

theorem Single.spans_drop {single : Single} :
    single.Spans (text.drop n) p q ↔ single.Spans text (n + p) (n + q) := by
  constructor
  · rintro ⟨hle, h⟩
    refine ⟨by omega, fun m hp hq => ?_⟩
    have hm := h (m - n) (by omega) (by omega)
    rw [fitsAt_drop] at hm
    rwa [Nat.add_sub_cancel' (by omega)] at hm
  · rintro ⟨hle, h⟩
    exact ⟨by omega, fun m hp hq => fitsAt_drop.mpr (h (n + m) (by omega) (by omega))⟩

namespace Item

theorem step_one {single : Single} :
    (one single).Step text p q ↔ q = p + 1 ∧ single.FitsAt text p := by
  constructor
  · rintro ⟨h⟩
    exact ⟨rfl, h⟩
  · rintro ⟨rfl, h⟩
    exact .one h

theorem step_repeated {single : Single} {repetition : Repetition} :
    (repeated single repetition).Step text p q ↔
      single.Spans text p q ∧ repetition.Allows (q - p) := by
  constructor
  · rintro (_ | ⟨h, hallows⟩)
    exact ⟨h, hallows⟩
  · rintro ⟨h, hallows⟩
    exact .repeated h hallows

theorem step_openCapture : openCapture.Step text p q ↔ q = p := by
  constructor
  · rintro ⟨⟩
    rfl
  · rintro rfl
    exact .openCapture

theorem step_closeCapture : closeCapture.Step text p q ↔ q = p := by
  constructor
  · rintro ⟨⟩
    rfl
  · rintro rfl
    exact .closeCapture

theorem step_endAnchor : endAnchor.Step text p q ↔ q = p ∧ p = text.length := by
  constructor
  · rintro (_ | _ | _ | _ | _ | h)
    exact ⟨rfl, h⟩
  · rintro ⟨rfl, h⟩
    exact .endAnchor h

/-- A step in the rest of a text is one in the text. -/
theorem step_drop (hitem : IsItem item) (hn : n ≤ text.length) :
    item.Step (text.drop n) p q ↔ item.Step text (n + p) (n + q) := by
  cases item with
  | one single =>
    rw [step_one, step_one, Single.fitsAt_drop, Nat.add_assoc, Nat.add_left_cancel_iff]
  | repeated single repetition =>
    rw [step_repeated, step_repeated, Single.spans_drop, Nat.add_sub_add_left]
  | openCapture => rw [step_openCapture, step_openCapture, Nat.add_left_cancel_iff]
  | closeCapture => rw [step_closeCapture, step_closeCapture, Nat.add_left_cancel_iff]
  | endAnchor =>
    rw [step_endAnchor, step_endAnchor, List.length_drop, Nat.add_left_cancel_iff]
    exact and_congr_right fun _ => by omega
  | position => exact hitem.elim
  | frontier _ => exact hitem.elim

/-- No item ends before it starts. -/
theorem Step.le (h : item.Step text p q) : p ≤ q :=
  Nat.le_trans (Nat.le_add_right _ _) h.leastLength_le

end Item

/-! ## Derivations -/

/-- A derivation in the rest of a text is one in the text that starts there. -/
theorem derives_drop (hitems : ∀ item ∈ items, IsItem item) (hn : n ≤ text.length)
    {all : List Nat} :
    Derives text items (n + p) all ↔
      ∃ places, Derives (text.drop n) items p places ∧ all = places.map (n + ·) := by
  induction items generalizing p all with
  | nil =>
    constructor
    · rintro ⟨⟩
      exact ⟨[], .nil, rfl⟩
    · rintro ⟨_, ⟨⟩, rfl⟩
      exact .nil
  | cons item items ih =>
    obtain ⟨hitem, hmore⟩ := List.forall_mem_cons.mp hitems
    constructor
    · intro h
      obtain ⟨q, rest, rfl, hstep, hrest⟩ := derives_cons_iff.mp h
      obtain ⟨k, rfl⟩ : ∃ k, q = n + k := Nat.exists_eq_add_of_le (by
        have := hstep.le
        omega)
      obtain ⟨places, hplaces, rfl⟩ := (ih hmore).mp hrest
      exact ⟨k :: places, .cons ((Item.step_drop hitem hn).mpr hstep) hplaces, rfl⟩
    · rintro ⟨_, h, rfl⟩
      obtain ⟨q, places, rfl, hstep, hrest⟩ := derives_cons_iff.mp h
      exact .cons ((Item.step_drop hitem hn).mp hstep) ((ih hmore).mpr ⟨places, hrest, rfl⟩)

theorem Item.triesFirst_add : item.TriesFirst (n + p) (n + q) ↔ item.TriesFirst p q := by
  unfold TriesFirst
  split <;> omega

theorem Precedes.map_add {others : List Nat} (h : Precedes items places others) :
    Precedes items (places.map (n + ·)) (others.map (n + ·)) := by
  induction h with
  | head hq => exact .head (Item.triesFirst_add.mpr hq)
  | tail _ ih => exact .tail ih

/-- The first derivation in the rest of a text is the first one in the text that starts there. -/
theorem IsFirst.of_drop (hitems : ∀ item ∈ items, IsItem item) (hn : n ≤ text.length)
    (h : IsFirst (text.drop n) items p places) :
    IsFirst text items (n + p) (places.map (n + ·)) := by
  refine ⟨(derives_drop hitems hn).mpr ⟨places, h.1, rfl⟩, fun others hothers => ?_⟩
  obtain ⟨inside, hinside, rfl⟩ := (derives_drop hitems hn).mp hothers
  exact (h.2 inside hinside).imp (congrArg _) Precedes.map_add

theorem endOf_map_add : endOf (n + p) (places.map (n + ·)) = n + endOf p places := by
  induction places generalizing p with
  | nil => rfl
  | cons q places ih => rw [List.map_cons, endOf_cons, endOf_cons, ih]

/-! ## Groups -/

theorem closingPlace?_map_add (depth : Nat) :
    closingPlace? depth (items.zip (places.map (n + ·))) =
      (closingPlace? depth (items.zip places)).map (n + ·) := by
  induction items generalizing places depth with
  | nil => rfl
  | cons item items ih =>
    cases places with
    | nil => rfl
    | cons q places =>
      rw [List.map_cons, List.zip_cons_cons, List.zip_cons_cons, closingPlace?_cons,
        closingPlace?_cons]
      cases item.depthAfter? depth with
      | none => rfl
      | some next => exact ih next

/-- The groups of a derivation in the rest of a text, as spans of the text. -/
theorem groupsAlong?_map_add {s rest : String} {base : Cursor} {last : Nat}
    (hbase : ∀ k ≤ last, base.plus (.atPosition rest k) = .atPosition s (n + k))
    (hplaces : ∀ q ∈ places, q ≤ last) {spans : List Span}
    (h : groupsAlong? rest (items.zip places) = some spans) :
    groupsAlong? s (items.zip (places.map (n + ·))) = some (spans.map (·.plus base)) := by
  induction items generalizing places spans with
  | nil =>
    cases h
    rfl
  | cons item items ih =>
    cases places with
    | nil =>
      cases h
      rfl
    | cons q places =>
      obtain ⟨hq, hmore⟩ := List.forall_mem_cons.mp hplaces
      rw [List.zip_cons_cons] at h
      rw [List.map_cons, List.zip_cons_cons]
      cases item with
      | openCapture =>
        obtain ⟨stop, spans, hstop, hspans, rfl⟩ := Regex.groupsAlong?_open h
        obtain ⟨inner, back, -, -, hplace⟩ := closingPlace?_eq_some_iff.mp hstop
        have hlast : stop ≤ last := hmore stop (List.mem_of_getElem? hplace)
        rw [groupsAlong?, closingPlace?_map_add, hstop, ih hmore hspans]
        show some _ = some _
        rw [List.map_cons, Regex.Span.plus, hbase q hq, hbase stop hlast]
      | one _ => exact ih hmore h
      | repeated _ _ => exact ih hmore h
      | position => exact ih hmore h
      | closeCapture => exact ih hmore h
      | endAnchor => exact ih hmore h
      | frontier _ => exact ih hmore h

end

end LuaRuntime
