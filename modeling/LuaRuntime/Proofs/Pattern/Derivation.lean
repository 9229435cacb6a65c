import LuaRuntime.Pattern.Match
import LuaRuntime.Proofs.Text.Place

/-!
# Derivations

A derivation of items against a text says where each item ends.  It is given by the list of
these places, and the places where the items begin follow from it.  The derivations from one
place are ordered as backtracking tries them: at the first item where two of them differ, the
longer run goes first, and for the repetition `fewest` the shorter one.

`IsFirst` singles out the first derivation.  It is taken apart item by item (`isFirst_cons`): the
first derivation of some items takes the first end of the first item from which the rest has a
derivation, and then the first derivation of the rest.
-/

namespace LuaRuntime

/-! ## Single characters -/

/-- Whether the character after a place is there and is matched. -/
def Single.FitsAt (single : Single) (text : List Char) (n : Nat) : Prop :=
  ∃ c, text[n]? = some c ∧ single.accepts c = true

/-- All characters between two places are there and are matched. -/
def Single.Spans (single : Single) (text : List Char) (p q : Nat) : Prop :=
  p ≤ q ∧ ∀ n, p ≤ n → n < q → single.FitsAt text n

namespace Single

variable {single : Single} {text : List Char} {p q r : Nat}

theorem FitsAt.lt_length (h : single.FitsAt text p) : p < text.length := by
  obtain ⟨c, hc, _⟩ := h
  exact (List.getElem?_eq_some_iff.mp hc).1

theorem Spans.refl (single : Single) (text : List Char) (p : Nat) : single.Spans text p p :=
  ⟨Nat.le_refl p, fun n h h' => by omega⟩

theorem FitsAt.spans (h : single.FitsAt text p) : single.Spans text p (p + 1) := by
  refine ⟨by omega, fun n hp hn => ?_⟩
  have : n = p := by omega
  exact this ▸ h

theorem Spans.trans (hpq : single.Spans text p q) (hqr : single.Spans text q r) :
    single.Spans text p r := by
  refine ⟨Nat.le_trans hpq.1 hqr.1, fun n hp hr => ?_⟩
  by_cases hq : n < q
  · exact hpq.2 n hp hq
  · exact hqr.2 n (by omega) hr

theorem Spans.drop (h : single.Spans text p r) (hpq : p ≤ q) (hqr : q ≤ r) :
    single.Spans text q r :=
  ⟨hqr, fun n hq hr => h.2 n (Nat.le_trans hpq hq) hr⟩

theorem Spans.fitsAt (h : single.Spans text p q) (hpq : p < q) : single.FitsAt text p :=
  h.2 p (Nat.le_refl p) hpq

theorem Spans.le_length (h : single.Spans text p q) (hp : p ≤ text.length) :
    q ≤ text.length := by
  by_cases hpq : p = q
  · omega
  · have := h.1
    have := (h.2 (q - 1) (by omega) (by omega)).lt_length
    omega

end Single

/-! ## Derivations -/

/-- Whether a repetition may match a number of times. -/
def Repetition.Allows : Repetition → Nat → Prop
  | .some, count => 1 ≤ count
  | .optional, count => count ≤ 1
  | .many, _ => True
  | .fewest, _ => True

/-- An item matches what stands between two places. -/
inductive Item.Step (text : List Char) : Item → Nat → Nat → Prop
  | one {single : Single} {p : Nat} :
      single.FitsAt text p →
      Step text (.one single) p (p + 1)
  | repeated {single : Single} {repetition : Repetition} {p q : Nat} :
      single.Spans text p q →
      repetition.Allows (q - p) →
      Step text (.repeated single repetition) p q
  | position {p : Nat} : Step text .position p p
  | openCapture {p : Nat} : Step text .openCapture p p
  | closeCapture {p : Nat} : Step text .closeCapture p p
  | endAnchor {p : Nat} :
      p = text.length →
      Step text .endAnchor p p
  | frontier {members : CharSet} {p : Nat} :
      members.contains (priorChar text p) = false →
      members.contains (nextChar text p) = true →
      Step text (.frontier members) p p

/-- Items match one after the other from a place on, and end at the places listed. -/
inductive Derives (text : List Char) : List Item → Nat → List Nat → Prop
  | nil {p : Nat} : Derives text [] p []
  | cons {item : Item} {items : List Item} {p q : Nat} {places : List Nat} :
      item.Step text p q →
      Derives text items q places →
      Derives text (item :: items) p (q :: places)

/-- The place where a derivation ends. -/
def endOf (start : Nat) (places : List Nat) : Nat := places.getLastD start

/-! ## The order of backtracking -/

/-- Which of two ends of an item is tried first. -/
def Item.TriesFirst : Item → Nat → Nat → Prop
  | .repeated _ .fewest, q, r => q < r
  | _, q, r => r < q

/-- Which of two derivations from one place is tried first. -/
inductive Precedes : List Item → List Nat → List Nat → Prop
  | head {item : Item} {items : List Item} {q r : Nat} {places others : List Nat} :
      item.TriesFirst q r →
      Precedes (item :: items) (q :: places) (r :: others)
  | tail {item : Item} {items : List Item} {q : Nat} {places others : List Nat} :
      Precedes items places others →
      Precedes (item :: items) (q :: places) (q :: others)

/-- The derivation that is tried before all others. -/
def IsFirst (text : List Char) (items : List Item) (p : Nat) (places : List Nat) : Prop :=
  Derives text items p places ∧
    ∀ others, Derives text items p others → others = places ∨ Precedes items places others

/-- There is no derivation from a place on. -/
def Fails (text : List Char) (items : List Item) (p : Nat) : Prop :=
  ∀ places, ¬ Derives text items p places

section

variable {text : List Char} {item : Item} {items : List Item} {p q : Nat} {places : List Nat}

theorem derives_cons_iff {all : List Nat} :
    Derives text (item :: items) p all ↔
      ∃ q places, all = q :: places ∧ item.Step text p q ∧ Derives text items q places := by
  constructor
  · rintro ⟨⟩
    exact ⟨_, _, rfl, ‹_›, ‹_›⟩
  · rintro ⟨q, places, rfl, hstep, hrest⟩
    exact .cons hstep hrest

theorem derives_cons :
    Derives text (item :: items) p (q :: places) ↔
      item.Step text p q ∧ Derives text items q places := by
  rw [derives_cons_iff]
  constructor
  · rintro ⟨_, _, ⟨⟩, h⟩
    exact h
  · exact fun h => ⟨q, places, rfl, h⟩

/-- Items fail where the items after the first one fail at each end of it. -/
theorem fails_cons :
    Fails text (item :: items) p ↔ ∀ q, item.Step text p q → Fails text items q := by
  constructor
  · intro h q hstep places hrest
    exact h (q :: places) (.cons hstep hrest)
  · intro h places hd
    cases hd with
    | cons hstep hrest => exact h _ hstep _ hrest

theorem Item.triesFirst_total (item : Item) (q r : Nat) :
    q = r ∨ item.TriesFirst q r ∨ item.TriesFirst r q := by
  unfold TriesFirst
  split <;> omega

theorem Item.not_triesFirst_self (item : Item) (q : Nat) : ¬ item.TriesFirst q q := by
  unfold TriesFirst
  split <;> omega

theorem Item.triesFirst_asymm (item : Item) {q r : Nat} (h : item.TriesFirst q r) :
    ¬ item.TriesFirst r q := by
  unfold TriesFirst at *
  split at h <;> omega

theorem isFirst_nil : IsFirst text [] p [] := by
  refine ⟨.nil, fun others h => ?_⟩
  cases h
  exact .inl rfl

/-- The first derivation takes the first end of its first item from which the rest has a
derivation, and goes on with the first one of the rest. -/
theorem isFirst_cons (hstep : item.Step text p q) (hrest : IsFirst text items q places)
    (hfail : ∀ r, item.Step text p r → item.TriesFirst r q → Fails text items r) :
    IsFirst text (item :: items) p (q :: places) := by
  refine ⟨.cons hstep hrest.1, fun others h => ?_⟩
  cases h with
  | @cons _ _ _ r others hr ho =>
    -- Another derivation agrees on the first item, or ends it later in the order, or earlier, where
    -- the rest fails.
    obtain rfl | hq | hq := item.triesFirst_total q r
    · obtain rfl | hp := hrest.2 _ ho
      · exact .inl rfl
      · exact .inr (.tail hp)
    · exact .inr (.head hq)
    · exact absurd ho (hfail r hr hq _)

/-- An item with one end only leaves the choice to the rest. -/
theorem isFirst_cons_of_unique (hstep : item.Step text p q)
    (hunique : ∀ r, item.Step text p r → r = q) (hrest : IsFirst text items q places) :
    IsFirst text (item :: items) p (q :: places) := by
  refine isFirst_cons hstep hrest fun r hr hq => ?_
  exact absurd (hunique r hr ▸ hq) (item.not_triesFirst_self q)

theorem Precedes.asymm {others : List Nat} (h : Precedes items places others) :
    ¬ Precedes items others places := by
  induction h with
  | @head item _ q r _ _ hq =>
    intro h'
    cases h' with
    | head hr => exact item.triesFirst_asymm hq hr
    | tail _ => exact item.not_triesFirst_self _ hq
  | @tail item _ q _ _ _ ih =>
    intro h'
    cases h' with
    | head hq => exact item.not_triesFirst_self _ hq
    | tail h' => exact ih h'

/-- There is one first derivation at most. -/
theorem IsFirst.unique {others : List Nat} (h : IsFirst text items p places)
    (h' : IsFirst text items p others) : places = others := by
  obtain rfl | hp := h.2 others h'.1
  · rfl
  · obtain rfl | hp' := h'.2 places h.1
    · rfl
    · exact absurd hp' hp.asymm

/-! ## Lengths -/

theorem Item.Step.le_length (h : item.Step text p q) (hp : p ≤ text.length) :
    q ≤ text.length := by
  cases h with
  | one hfits => exact hfits.lt_length
  | repeated hspan _ => exact hspan.le_length hp
  | position => exact hp
  | openCapture => exact hp
  | closeCapture => exact hp
  | endAnchor _ => exact hp
  | frontier _ _ => exact hp

theorem Item.Step.leastLength_le (h : item.Step text p q) : p + item.leastLength ≤ q := by
  cases h with
  | one _ => exact Nat.le_refl _
  | @repeated single repetition p q hspan hallows =>
    have hle := hspan.1
    cases repetition with
    | some =>
      have : 1 ≤ q - p := hallows
      simp only [Item.leastLength]
      omega
    | many => exact hle
    | optional => exact hle
    | fewest => exact hle
  | position => exact Nat.le_refl _
  | openCapture => exact Nat.le_refl _
  | closeCapture => exact Nat.le_refl _
  | endAnchor _ => exact Nat.le_refl _
  | frontier _ _ => exact Nat.le_refl _

@[simp] theorem endOf_cons (p q : Nat) (places : List Nat) :
    endOf p (q :: places) = endOf q places := by
  cases places <;> rfl

/-- All places of a derivation lie in the text. -/
theorem Derives.places_le (h : Derives text items p places) (hp : p ≤ text.length) :
    ∀ q ∈ places, q ≤ text.length := by
  induction h with
  | nil => simp
  | cons hstep _ ih =>
    have hq := hstep.le_length hp
    exact List.forall_mem_cons.mpr ⟨hq, ih hq⟩

theorem Derives.endOf_le_length (h : Derives text items p places) (hp : p ≤ text.length) :
    endOf p places ≤ text.length := by
  induction h with
  | nil => exact hp
  | cons hstep _ ih =>
    rw [endOf_cons]
    exact ih (hstep.le_length hp)

/-- A derivation passes at least as many characters as its items must match. -/
theorem Derives.leastLength_le (h : Derives text items p places) :
    p + items.foldr (fun item total => item.leastLength + total) 0 ≤ endOf p places := by
  induction h with
  | nil => exact Nat.le_refl _
  | cons hstep _ ih =>
    have := hstep.leastLength_le
    rw [endOf_cons, List.foldr_cons]
    omega

theorem Derives.le_endOf (h : Derives text items p places) : p ≤ endOf p places :=
  Nat.le_trans (Nat.le_add_right _ _) h.leastLength_le

theorem Derives.length_eq (h : Derives text items p places) : places.length = items.length := by
  induction h with
  | nil => rfl
  | cons _ _ ih => rw [List.length_cons, List.length_cons, ih]

end

end LuaRuntime
