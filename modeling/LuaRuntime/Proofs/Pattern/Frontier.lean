import LuaRuntime.Proofs.Pattern.Grammar
import LuaRuntime.Proofs.Pattern.Translation

/-!
# Derivations of translations

In a translation two things are lost: the two items of a group stand for one place, and a frontier
may be anywhere.  `Item.relaxed` drops the second without the first.  A derivation of a translation
is one of the relaxed items with the places of such groups told twice (`derives_translated`), and
it is one of the items themselves if all frontiers hold where they are asked for
(`derives_iff_relaxed`).

Before a frontier stands no repetition, so that all derivations from a place agree on where the
frontiers are (`frontiersHold_iff`).  So the first derivation of a translation decides: if its
frontiers hold, it is the first one of the items, and if not, there is none
(`isFirst_or_fails`).
-/

namespace LuaRuntime

/-! ## Places -/

/-- Whether an item asks for a place alone, and is a group in a translation. -/
def Item.isPlace : Item → Bool
  | .position | .frontier _ => true
  | _ => false

/-- An item without its condition, if it is a frontier. -/
def Item.relaxed : Item → Item
  | .frontier _ => .position
  | item => item

/-- The places of a derivation, with each place of a group told twice. -/
def doubled : List Item → List Nat → List Nat
  | item :: items, q :: places =>
      if item.isPlace then q :: q :: doubled items places else q :: doubled items places
  | _, _ => []

/-- The condition of an item at a place. -/
def Item.HoldsAt (text : List Char) (p : Nat) : Item → Prop
  | .frontier members =>
      members.contains (priorChar text p) = false ∧ members.contains (nextChar text p) = true
  | _ => True

/-- All frontiers hold at the places of a derivation. -/
def FrontiersHold (text : List Char) (items : List Item) (places : List Nat) : Prop :=
  ∀ pair ∈ items.zip places, pair.1.HoldsAt text pair.2

instance (text : List Char) (p : Nat) : (item : Item) → Decidable (item.HoldsAt text p)
  | .frontier _ => inferInstanceAs (Decidable (_ ∧ _))
  | .one _ => isTrue trivial
  | .repeated _ _ => isTrue trivial
  | .position => isTrue trivial
  | .openCapture => isTrue trivial
  | .closeCapture => isTrue trivial
  | .endAnchor => isTrue trivial

instance (text : List Char) (items : List Item) (places : List Nat) :
    Decidable (FrontiersHold text items places) :=
  inferInstanceAs (Decidable (∀ pair ∈ items.zip places, pair.1.HoldsAt text pair.2))

section

variable {text : List Char} {item : Item} {items : List Item} {p q r : Nat}
  {places others : List Nat}

theorem frontiersHold_cons :
    FrontiersHold text (item :: items) (q :: places) ↔
      item.HoldsAt text q ∧ FrontiersHold text items places := by
  rw [FrontiersHold, List.zip_cons_cons, List.forall_mem_cons]
  exact Iff.rfl

/-! ## Steps -/

theorem Single.fitsAt_translated {single : Single} :
    single.translated.FitsAt text p ↔ single.FitsAt text p := by
  rw [FitsAt, FitsAt]
  simp only [translated_accepts]

theorem Single.spans_translated {single : Single} :
    single.translated.Spans text p q ↔ single.Spans text p q := by
  rw [Spans, Spans]
  simp only [fitsAt_translated]

/-- An item is translated to one that takes the same steps in the same order, or to a group. -/
theorem Item.translated_cases (item : Item) :
    (item.isPlace = true ∧ item.translated = [.openCapture, .closeCapture]) ∨
      (item.isPlace = false ∧ ∃ image : Item, item.translated = [image] ∧
        (∀ {text p q}, image.Step text p q ↔ item.relaxed.Step text p q) ∧
        (∀ {q r}, image.TriesFirst q r ↔ item.TriesFirst q r) ∧
        (∀ {depth}, image.depthAfter? depth = item.depthAfter? depth)) := by
  cases item with
  | position => exact .inl ⟨rfl, rfl⟩
  | frontier _ => exact .inl ⟨rfl, rfl⟩
  | one single =>
    refine .inr ⟨rfl, _, rfl, ?_, .rfl, rfl⟩
    intro text p q
    constructor
    · rintro ⟨h⟩
      exact .one (Single.fitsAt_translated.mp h)
    · rintro ⟨h⟩
      exact .one (Single.fitsAt_translated.mpr h)
  | repeated single repetition =>
    refine .inr ⟨rfl, _, rfl, ?_, ?_, rfl⟩
    · intro text p q
      constructor
      · rintro (_ | ⟨h, hallows⟩)
        exact .repeated (Single.spans_translated.mp h) hallows
      · rintro (_ | ⟨h, hallows⟩)
        exact .repeated (Single.spans_translated.mpr h) hallows
    · intro q r
      cases repetition <;> exact .rfl
  | openCapture => exact .inr ⟨rfl, _, rfl, .rfl, .rfl, rfl⟩
  | closeCapture => exact .inr ⟨rfl, _, rfl, .rfl, .rfl, rfl⟩
  | endAnchor => exact .inr ⟨rfl, _, rfl, .rfl, .rfl, rfl⟩

theorem Item.step_relaxed_of_isPlace (h : item.isPlace = true) :
    item.relaxed.Step text p q ↔ q = p := by
  cases item with
  | position =>
    constructor
    · rintro ⟨⟩
      rfl
    · rintro rfl
      exact .position
  | frontier _ =>
    constructor
    · rintro ⟨⟩
      rfl
    · rintro rfl
      exact .position
  | one _ => cases h
  | repeated _ _ => cases h
  | openCapture => cases h
  | closeCapture => cases h
  | endAnchor => cases h

/-- A step of an item is one without its condition, where the condition holds. -/
theorem Item.step_iff_relaxed :
    item.Step text p q ↔ item.relaxed.Step text p q ∧ item.HoldsAt text q := by
  cases item with
  | frontier members =>
    constructor
    · rintro (_ | _ | _ | _ | _ | _ | ⟨hprior, hnext⟩)
      exact ⟨.position, hprior, hnext⟩
    · rintro ⟨⟨⟩, hprior, hnext⟩
      exact .frontier hprior hnext
  | one _ => exact (and_iff_left trivial).symm
  | repeated _ _ => exact (and_iff_left trivial).symm
  | position => exact (and_iff_left trivial).symm
  | openCapture => exact (and_iff_left trivial).symm
  | closeCapture => exact (and_iff_left trivial).symm
  | endAnchor => exact (and_iff_left trivial).symm

/-! ## Derivations -/

/-- A derivation of some items is one of the relaxed items at which all frontiers hold. -/
theorem derives_iff_relaxed :
    Derives text items p places ↔
      Derives text (items.map Item.relaxed) p places ∧ FrontiersHold text items places := by
  induction items generalizing p places with
  | nil =>
    refine (and_iff_left ?_).symm
    rintro _ ⟨⟩
  | cons item items ih =>
    cases places with
    | nil =>
      constructor
      · rintro ⟨⟩
      · rintro ⟨⟨⟩, -⟩
    | cons q places =>
      rw [List.map_cons, derives_cons, derives_cons, frontiersHold_cons, Item.step_iff_relaxed, ih]
      exact and_and_and_comm

/-- The group of a place is passed at that place. -/
theorem derives_group {all : List Nat} :
    Derives text (.openCapture :: .closeCapture :: items) p all ↔
      ∃ places, all = p :: p :: places ∧ Derives text items p places := by
  constructor
  · rintro (_ | ⟨⟨⟩, _ | ⟨⟨⟩, hrest⟩⟩)
    exact ⟨_, rfl, hrest⟩
  · rintro ⟨places, rfl, hrest⟩
    exact .cons .openCapture (.cons .closeCapture hrest)

/-- A derivation of a translation is one of the relaxed items, with the places of groups told
twice. -/
theorem derives_translated {all : List Nat} :
    Derives text (items.flatMap Item.translated) p all ↔
      ∃ places, Derives text (items.map Item.relaxed) p places ∧ all = doubled items places := by
  induction items generalizing p all with
  | nil =>
    constructor
    · rintro ⟨⟩
      exact ⟨[], .nil, rfl⟩
    · rintro ⟨_, ⟨⟩, rfl⟩
      exact .nil
  | cons item items ih =>
    rw [List.flatMap_cons, List.map_cons]
    obtain ⟨hplace, htranslated⟩ | ⟨hplace, image, htranslated, hstep, -⟩ := item.translated_cases
    · rw [htranslated]
      constructor
      · intro h
        obtain ⟨rest, rfl, hrest⟩ := derives_group.mp h
        obtain ⟨places, hplaces, rfl⟩ := ih.mp hrest
        refine ⟨p :: places, .cons ((item.step_relaxed_of_isPlace hplace).mpr rfl) hplaces, ?_⟩
        rw [doubled, if_pos hplace]
      · rintro ⟨_, hd, rfl⟩
        obtain ⟨q, places, rfl, hq, hplaces⟩ := derives_cons_iff.mp hd
        obtain rfl := (item.step_relaxed_of_isPlace hplace).mp hq
        rw [doubled, if_pos hplace]
        exact derives_group.mpr ⟨_, rfl, ih.mpr ⟨places, hplaces, rfl⟩⟩
    · rw [htranslated]
      constructor
      · intro h
        obtain ⟨q, rest, rfl, hq, hrest⟩ := derives_cons_iff.mp h
        obtain ⟨places, hplaces, rfl⟩ := ih.mp hrest
        refine ⟨q :: places, .cons (hstep.mp hq) hplaces, ?_⟩
        rw [doubled, if_neg (by rw [hplace]; exact Bool.false_ne_true)]
      · rintro ⟨_, hd, rfl⟩
        obtain ⟨q, places, rfl, hq, hplaces⟩ := derives_cons_iff.mp hd
        rw [doubled, if_neg (by rw [hplace]; exact Bool.false_ne_true)]
        exact .cons (hstep.mpr hq) (ih.mpr ⟨places, hplaces, rfl⟩)

/-! ## The order of backtracking -/

theorem doubled_injective (hplaces : places.length = items.length)
    (hothers : others.length = items.length) (h : doubled items places = doubled items others) :
    places = others := by
  induction items generalizing places others with
  | nil =>
    rw [List.length_eq_zero_iff.mp hplaces, List.length_eq_zero_iff.mp hothers]
  | cons item items ih =>
    cases places with
    | nil => cases hplaces
    | cons q places =>
      cases others with
      | nil => cases hothers
      | cons r others =>
        have hrest := @ih places others (Nat.succ.inj hplaces) (Nat.succ.inj hothers)
        rw [doubled, doubled] at h
        split at h
        · injection h with hq h
          injection h with _ h
          rw [hq, hrest h]
        · injection h with hq h
          rw [hq, hrest h]

theorem Item.triesFirst_of_isPlace (h : item.isPlace = true) : item.TriesFirst q r ↔ r < q := by
  cases item with
  | position => exact .rfl
  | frontier _ => exact .rfl
  | one _ => cases h
  | repeated _ _ => cases h
  | openCapture => cases h
  | closeCapture => cases h
  | endAnchor => cases h

/-- A translation is searched in the order of its pattern. -/
theorem precedes_of_translated (hplaces : places.length = items.length)
    (hothers : others.length = items.length)
    (h : Precedes (items.flatMap Item.translated) (doubled items places) (doubled items others)) :
    Precedes items places others := by
  induction items generalizing places others with
  | nil => cases h
  | cons item items ih =>
    cases places with
    | nil => cases hplaces
    | cons q places =>
      cases others with
      | nil => cases hothers
      | cons r others =>
        have hrest := @ih places others (Nat.succ.inj hplaces) (Nat.succ.inj hothers)
        rw [List.flatMap_cons, doubled, doubled] at h
        obtain ⟨hplace, htranslated⟩ | ⟨hplace, image, htranslated, -, htries, -⟩ :=
          item.translated_cases
        · rw [if_pos hplace, if_pos hplace, htranslated] at h
          cases h with
          | head hq => exact .head ((Item.triesFirst_of_isPlace hplace).mpr hq)
          | tail h =>
            cases h with
            | head hq => exact absurd hq (Item.not_triesFirst_self _ _)
            | tail h => exact .tail (hrest h)
        · have hne : ¬ item.isPlace = true := by
            rw [hplace]
            exact Bool.false_ne_true
          rw [if_neg hne, if_neg hne, htranslated] at h
          cases h with
          | head hq => exact .head (htries.mp hq)
          | tail h => exact .tail (hrest h)

/-! ## Places of frontiers -/

theorem frontiersHold_of_forall (h : ∀ item ∈ items, ∀ members, item ≠ .frontier members) :
    FrontiersHold text items places := by
  rintro ⟨item, q⟩ hmem
  cases item with
  | frontier members => exact absurd rfl (h _ (List.of_mem_zip hmem).1 members)
  | one _ => trivial
  | repeated _ _ => trivial
  | position => trivial
  | openCapture => trivial
  | closeCapture => trivial
  | endAnchor => trivial

/-- All items but repetitions have one end. -/
theorem Item.step_relaxed_unique (h : item.isRepetition = false)
    (hq : item.relaxed.Step text p q) (hr : item.relaxed.Step text p r) : q = r := by
  cases item with
  | repeated _ _ => cases h
  | one _ => cases hq; cases hr; rfl
  | position => cases hq; cases hr; rfl
  | openCapture => cases hq; cases hr; rfl
  | closeCapture => cases hq; cases hr; rfl
  | endAnchor => cases hq; cases hr; rfl
  | frontier _ => cases hq; cases hr; rfl

/-- No frontier stands after a repetition. -/
def FrontiersFixed (items : List Item) : Prop :=
  items.Pairwise fun a b => a.isRepetition = true → ∀ members, b ≠ .frontier members

/-- All derivations from a place agree on whether the frontiers hold, if no repetition stands before
one of them. -/
theorem frontiersHold_iff (hfixed : FrontiersFixed items)
    (hplaces : Derives text (items.map Item.relaxed) p places)
    (hothers : Derives text (items.map Item.relaxed) p others) :
    FrontiersHold text items places ↔ FrontiersHold text items others := by
  induction items generalizing p places others with
  | nil =>
    cases hplaces
    cases hothers
    exact .rfl
  | cons item items ih =>
    obtain ⟨hitem, hfixed⟩ := List.pairwise_cons.mp hfixed
    obtain ⟨q, places, rfl, hq, hplaces⟩ := derives_cons_iff.mp hplaces
    obtain ⟨r, others, rfl, hr, hothers⟩ := derives_cons_iff.mp hothers
    rw [frontiersHold_cons, frontiersHold_cons]
    cases hrepetition : item.isRepetition with
    | true =>
      have hrest : ∀ other ∈ items, ∀ members, other ≠ .frontier members :=
        fun other hother => hitem other hother hrepetition
      cases item with
      | repeated _ _ =>
        exact and_congr .rfl (iff_of_true (frontiersHold_of_forall hrest)
          (frontiersHold_of_forall hrest))
      | one _ => cases hrepetition
      | position => cases hrepetition
      | openCapture => cases hrepetition
      | closeCapture => cases hrepetition
      | endAnchor => cases hrepetition
      | frontier _ => cases hrepetition
    | false =>
      obtain rfl := Item.step_relaxed_unique hrepetition hq hr
      rw [ih hfixed hplaces hothers]

/-- The first derivation of a translation is the first one of the pattern if its frontiers hold, and
else the pattern has none. -/
theorem isFirst_or_fails {all : List Nat} (hfixed : FrontiersFixed items)
    (h : IsFirst text (items.flatMap Item.translated) p all) :
    ∃ places, all = doubled items places ∧ Derives text (items.map Item.relaxed) p places ∧
      ((FrontiersHold text items places ∧ IsFirst text items p places) ∨
        (¬ FrontiersHold text items places ∧ Fails text items p)) := by
  obtain ⟨places, hplaces, rfl⟩ := derives_translated.mp h.1
  have hlength : places.length = items.length := by rw [hplaces.length_eq, List.length_map]
  refine ⟨places, rfl, hplaces, ?_⟩
  by_cases hholds : FrontiersHold text items places
  · refine .inl ⟨hholds, derives_iff_relaxed.mpr ⟨hplaces, hholds⟩, fun others hothers => ?_⟩
    have hrelaxed := (derives_iff_relaxed.mp hothers).1
    obtain heq | hprecedes := h.2 _ (derives_translated.mpr ⟨others, hrelaxed, rfl⟩)
    · exact .inl (doubled_injective hothers.length_eq hlength heq)
    · exact .inr (precedes_of_translated hlength hothers.length_eq hprecedes)
  · refine .inr ⟨hholds, fun others hothers => ?_⟩
    obtain ⟨hrelaxed, hothers⟩ := derives_iff_relaxed.mp hothers
    exact hholds ((frontiersHold_iff hfixed hplaces hrelaxed).mpr hothers)

/-- Where a translation fails the pattern does. -/
theorem fails_of_translated (h : Fails text (items.flatMap Item.translated) p) :
    Fails text items p := fun places hplaces =>
  h _ (derives_translated.mpr ⟨places, (derives_iff_relaxed.mp hplaces).1, rfl⟩)

end

end LuaRuntime
