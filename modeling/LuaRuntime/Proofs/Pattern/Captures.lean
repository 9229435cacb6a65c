import LuaRuntime.Proofs.Pattern.Derivation

/-!
# Captures of a derivation

The captures of a derivation are read off its items and places: a capture of text reaches from its
opening item to the closing item that belongs to it, by counting the captures opened and closed in
between (`closingPlace?`).  The search keeps a stack of open captures instead.
`capturesOf_marksAlong` says that both give the same.

Balanced items open no capture that they do not close, so that each derivation of them has captures
(`capturesAlong?_isSome`).
-/

namespace LuaRuntime

/-! ## Captures by counting -/

/-- Whether an item starts a capture. -/
def Item.capturesHere : Item → Bool
  | .openCapture | .position => true
  | _ => false

/-- Where a derivation closes a capture, if `depth` captures opened after it are still open. -/
def closingPlace? : (depth : Nat) → List (Item × Nat) → Option Nat
  | _, [] => none
  | depth, (.openCapture, _) :: along => closingPlace? (depth + 1) along
  | depth, (.closeCapture, q) :: along =>
      match depth with
      | 0 => some q
      | depth + 1 => closingPlace? depth along
  | depth, _ :: along => closingPlace? depth along

theorem closingPlace?_cons (item : Item) (p depth : Nat) (along : List (Item × Nat)) :
    closingPlace? depth ((item, p) :: along) =
      (item.depthAfter? depth).elim (some p) fun next => closingPlace? next along := by
  cases item with
  | closeCapture => cases depth <;> rfl
  | one _ => rfl
  | repeated _ _ => rfl
  | position => rfl
  | openCapture => rfl
  | endAnchor => rfl
  | frontier _ => rfl

/-- The captures of a derivation, in the order in which they open.  The derivation is given as the
items with the places where they end. -/
def capturesAlong? (s : String) : List (Item × Nat) → Option (List Capture)
  | [] => some []
  | (.openCapture, p) :: along => do
      let q ← closingPlace? 0 along
      let captures ← capturesAlong? s along
      return .text (.atPosition s p) (.atPosition s q) :: captures
  | (.position, p) :: along => (capturesAlong? s along).map (.position (p + 1) :: ·)
  | _ :: along => capturesAlong? s along

theorem capturesAlong?_open {s : String} {p : Nat} {along : List (Item × Nat)}
    {captures : List Capture} (h : capturesAlong? s ((.openCapture, p) :: along) = some captures) :
    ∃ q more, closingPlace? 0 along = some q ∧ capturesAlong? s along = some more ∧
      captures = .text (.atPosition s p) (.atPosition s q) :: more := by
  simp only [capturesAlong?, Option.bind_eq_bind, Option.bind_eq_some_iff] at h
  obtain ⟨q, hq, more, hmore, hcaptures⟩ := h
  exact ⟨q, more, hq, hmore, (Option.some.inj hcaptures).symm⟩

/-! ## Captures by a stack -/

/-- The mark an item leaves at its place. -/
def Item.mark? (place : Cursor) : Item → Option Mark
  | .position => some (.captured place)
  | .openCapture => some (.opened place)
  | .closeCapture => some (.closed place)
  | _ => none

/-- The marks a derivation leaves. -/
def marksAlong (s : String) (along : List (Item × Nat)) : List Mark :=
  along.filterMap fun (item, q) => item.mark? (.atPosition s q)

/-- An item without a mark plays no part in the captures. -/
theorem along_cons_of_none {item : Item} {q : Nat} {s : String}
    (h : item.mark? (.atPosition s q) = none) (along : List (Item × Nat)) :
    (∀ depth, closingPlace? depth ((item, q) :: along) = closingPlace? depth along) ∧
      capturesAlong? s ((item, q) :: along) = capturesAlong? s along ∧
      marksAlong s ((item, q) :: along) = marksAlong s along := by
  cases item with
  | one _ => exact ⟨fun _ => rfl, rfl, rfl⟩
  | repeated _ _ => exact ⟨fun _ => rfl, rfl, rfl⟩
  | endAnchor => exact ⟨fun _ => rfl, rfl, rfl⟩
  | frontier _ => exact ⟨fun _ => rfl, rfl, rfl⟩
  | position => cases h
  | openCapture => cases h
  | closeCapture => cases h

namespace Slot

/-- The captures of a stack, with the open ones closed where a derivation closes them. -/
def settle (s : String) (along : List (Item × Nat)) : (depth : Nat) → List Slot → List Capture
  | _, [] => []
  | depth, .opened start :: slots =>
      .text start (((closingPlace? depth along).map (.atPosition s)).getD start) ::
        settle s along (depth + 1) slots
  | depth, .done capture :: slots => capture :: settle s along depth slots

variable {s : String} {along : List (Item × Nat)}

theorem settle_nil (depth : Nat) (slots : List Slot) :
    settle s [] depth slots = slots.map toCapture := by
  induction slots generalizing depth with
  | nil => rfl
  | cons slot slots ih =>
    cases slot with
    | opened start => rw [settle, ih]; rfl
    | done capture => rw [settle, ih]; rfl

/-- Stacks settle alike at two depths if all their open captures close alike. -/
theorem settle_congr {along' : List (Item × Nat)} {depth depth' : Nat}
    (h : ∀ d, closingPlace? (depth + d) along = closingPlace? (depth' + d) along')
    (slots : List Slot) : settle s along depth slots = settle s along' depth' slots := by
  induction slots generalizing depth depth' with
  | nil => rfl
  | cons slot slots ih =>
    cases slot with
    | opened start =>
      have hhead := h 0
      simp only [Nat.add_zero] at hhead
      rw [settle, settle, hhead, ih fun d => ?_]
      rw [Nat.add_assoc, Nat.add_assoc]
      exact h (1 + d)
    | done capture => rw [settle, settle, ih h]

/-- Closing the capture opened last settles the stack as a closing item ahead does. -/
theorem settle_close (q : Nat) (slots : List Slot) :
    settle s along 0 (close (.atPosition s q) slots) =
      settle s ((.closeCapture, q) :: along) 0 slots := by
  induction slots with
  | nil => rfl
  | cons slot slots ih =>
    cases slot with
    | opened start =>
      rw [close, settle, settle]
      refine congrArg₂ List.cons rfl (settle_congr (fun d => ?_) slots)
      rw [Nat.zero_add, Nat.add_assoc, Nat.add_comm 0, Nat.add_comm 1 d]
      rfl
    | done capture =>
      rw [close, settle, settle, ih]
      intro start h
      cases h

/-- The stack and the items ahead together give the captures. -/
theorem foldl_add_marks {captures : List Capture} (slots : List Slot)
    (h : capturesAlong? s along = some captures) :
    (((marksAlong s along).foldl add slots).map toCapture).reverse =
      (settle s along 0 slots).reverse ++ captures := by
  -- The items ahead close the captures of the stack from its top, and add their own above it.
  induction along generalizing slots captures with
  | nil =>
    cases h
    rw [settle_nil, List.append_nil]
    rfl
  | cons head along ih =>
    obtain ⟨item, q⟩ := head
    cases hmark : item.mark? (.atPosition s q) with
    | none =>
      obtain ⟨hclosing, hcaptures, hmarks⟩ := along_cons_of_none hmark along
      rw [hcaptures] at h
      rw [hmarks, ih slots h, settle_congr fun d => (hclosing _).symm]
    | some m =>
      cases item with
      | openCapture =>
        have hmarks : marksAlong s ((.openCapture, q) :: along) =
            .opened (.atPosition s q) :: marksAlong s along := rfl
        obtain ⟨stop, more, hstop, hmore, rfl⟩ := capturesAlong?_open h
        have hslots : settle s ((.openCapture, q) :: along) 0 slots = settle s along 1 slots :=
          settle_congr (fun d => by rw [Nat.zero_add, Nat.add_comm 1 d]; rfl) slots
        rw [hmarks, List.foldl_cons, add, ih _ hmore, settle, hstop, hslots]
        simp
      | closeCapture =>
        have hmarks : marksAlong s ((.closeCapture, q) :: along) =
            .closed (.atPosition s q) :: marksAlong s along := rfl
        rw [hmarks, List.foldl_cons, ← settle_close]
        exact ih _ h
      | position =>
        have hmarks : marksAlong s ((.position, q) :: along) =
            .captured (.atPosition s q) :: marksAlong s along := rfl
        obtain ⟨more, hmore, rfl⟩ := Option.map_eq_some_iff.mp h
        have hslots : settle s ((.position, q) :: along) 0 slots = settle s along 0 slots :=
          settle_congr (fun _ => by simp [closingPlace?]) slots
        rw [hmarks, List.foldl_cons, add, ih _ hmore, settle, hslots]
        simp
      | one _ => cases hmark
      | repeated _ _ => cases hmark
      | endAnchor => cases hmark
      | frontier _ => cases hmark

end Slot

/-- The marks of a derivation stand for its captures. -/
theorem capturesOf_marksAlong {s : String} {along : List (Item × Nat)} {captures : List Capture}
    (h : capturesAlong? s along = some captures) :
    capturesOf (marksAlong s along) = captures := by
  rw [capturesOf, Slot.foldl_add_marks [] h]
  rfl

/-! ## Balanced items -/

/-- Items close all captures that they open and those that are open before. -/
def Balanced : (depth : Nat) → List Item → Prop
  | depth, [] => depth = 0
  | depth, item :: items => ∃ next, item.depthAfter? depth = some next ∧ Balanced next items

theorem Item.depthAfter?_eq_none {item : Item} {depth : Nat} (h : item.depthAfter? depth = none) :
    item = .closeCapture ∧ depth = 0 := by
  cases item with
  | closeCapture =>
    simp only [depthAfter?] at h
    split at h
    · next hdepth => exact ⟨rfl, hdepth⟩
    · cases h
  | one _ => cases h
  | repeated _ _ => cases h
  | position => cases h
  | openCapture => cases h
  | endAnchor => cases h
  | frontier _ => cases h

/-- A capture is closed by the item before which all captures opened after it are closed. -/
theorem closingPlace?_eq_some_iff {items : List Item} {places : List Nat} {depth q : Nat} :
    closingPlace? depth (items.zip places) = some q ↔
      ∃ inner back, items = inner ++ .closeCapture :: back ∧ Balanced depth inner ∧
        places[inner.length]? = some q := by
  induction items generalizing places depth with
  | nil => simp [closingPlace?]
  | cons item items ih =>
    cases places with
    | nil => simp [closingPlace?]
    | cons p places =>
      rw [List.zip_cons_cons, closingPlace?_cons]
      cases hnext : item.depthAfter? depth with
      | none =>
        obtain ⟨rfl, rfl⟩ := Item.depthAfter?_eq_none hnext
        constructor
        · intro hq
          exact ⟨[], items, rfl, rfl, hq⟩
        · rintro ⟨inner, back, heq, hbalanced, hq⟩
          cases inner with
          | nil => exact hq
          | cons _ inner =>
            cases heq
            obtain ⟨next, hnext', -⟩ := hbalanced
            cases hnext'
      | some next =>
        constructor
        · intro hq
          obtain ⟨inner, back, rfl, hbalanced, hq⟩ := ih.mp hq
          exact ⟨item :: inner, back, rfl, ⟨next, hnext, hbalanced⟩, hq⟩
        · rintro ⟨inner, back, heq, hbalanced, hq⟩
          cases inner with
          | nil =>
            obtain rfl : depth = 0 := hbalanced
            cases heq
            cases hnext
          | cons _ inner =>
            cases heq
            obtain ⟨next', hnext', hbalanced⟩ := hbalanced
            rw [hnext, Option.some.injEq] at hnext'
            subst hnext'
            exact ih.mpr ⟨inner, back, rfl, hbalanced, hq⟩

/-- Balanced items close each capture that is open before them. -/
theorem closingPlace?_isSome {items : List Item} {places : List Nat} {depth k : Nat}
    (h : Balanced depth items) (hlength : places.length = items.length) (hk : k < depth) :
    (closingPlace? k (items.zip places)).isSome = true := by
  induction items generalizing places depth k with
  | nil =>
    have : depth = 0 := h
    omega
  | cons item items ih =>
    obtain ⟨next, hnext, h⟩ := h
    cases places with
    | nil => cases hlength
    | cons q places =>
      have hplaces : places.length = items.length := Nat.succ.inj hlength
      rw [List.zip_cons_cons]
      cases item with
      | openCapture =>
        cases hnext
        exact ih h hplaces (by omega)
      | closeCapture =>
        simp only [Item.depthAfter?] at hnext
        split at hnext
        · cases hnext
        · cases hnext
          cases k with
          | zero => rfl
          | succ k => exact ih h hplaces (by omega)
      | one _ => cases hnext; exact ih h hplaces hk
      | repeated _ _ => cases hnext; exact ih h hplaces hk
      | position => cases hnext; exact ih h hplaces hk
      | endAnchor => cases hnext; exact ih h hplaces hk
      | frontier _ => cases hnext; exact ih h hplaces hk

/-- Every derivation of balanced items has captures. -/
theorem capturesAlong?_isSome (s : String) {items : List Item} {places : List Nat} {depth : Nat}
    (h : Balanced depth items) (hlength : places.length = items.length) :
    ∃ captures, capturesAlong? s (items.zip places) = some captures := by
  induction items generalizing places depth with
  | nil => exact ⟨[], rfl⟩
  | cons item items ih =>
    obtain ⟨next, hnext, h⟩ := h
    cases places with
    | nil => cases hlength
    | cons q places =>
      have hplaces : places.length = items.length := Nat.succ.inj hlength
      obtain ⟨captures, hcaptures⟩ := ih h hplaces
      rw [List.zip_cons_cons]
      cases item with
      | openCapture =>
        cases hnext
        obtain ⟨stop, hstop⟩ :=
          Option.isSome_iff_exists.mp (closingPlace?_isSome h hplaces (Nat.succ_pos depth))
        exact ⟨_, by rw [capturesAlong?, hstop, hcaptures]; rfl⟩
      | position => exact ⟨_, by rw [capturesAlong?, hcaptures]; rfl⟩
      | closeCapture => exact ⟨captures, hcaptures⟩
      | one _ => exact ⟨captures, hcaptures⟩
      | repeated _ _ => exact ⟨captures, hcaptures⟩
      | endAnchor => exact ⟨captures, hcaptures⟩
      | frontier _ => exact ⟨captures, hcaptures⟩

end LuaRuntime
