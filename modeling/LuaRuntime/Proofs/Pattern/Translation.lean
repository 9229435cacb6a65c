import LuaRuntime.Pattern.Translate
import LuaRuntime.Proofs.Number.Digits
import LuaRuntime.Proofs.Pattern.Captures

/-!
# Translations are read back

`Pattern.translated` says which expression the translation of a pattern stands for: single items
that match the same characters, and a group for each capture and for each place.  Its text is the
regular expression of the pattern (`parse?_regexText`).  There is one lemma for each reader, which
gives back what is written in front of a text and leaves the text after it.
-/

namespace LuaRuntime

/-! ## What a translation stands for -/

/-- Whether a member of a set is a range whose first character is the greater. -/
def SetItem.isReversed : SetItem → Bool
  | .range first last => !decide (first ≤ last)
  | _ => false

/-- The item that the regular expression of a set is. -/
def CharSet.translated (set : CharSet) : Single :=
  match set.items.filter (!·.isReversed), set.negated with
  | [], true => .any
  | items, negated => .set ⟨items, negated⟩

/-- The item that the regular expression of a single item is. -/
def Single.translated : Single → Single
  | .class named inverted => .set ⟨[.class named false], inverted⟩
  | .set members => members.translated
  | single => single

/-- The items that the regular expression of an item is. -/
def Item.translated : Item → List Item
  | .one single => [.one single.translated]
  | .repeated single repetition => [.repeated single.translated repetition]
  | .position => [.openCapture, .closeCapture]
  | .frontier _ => [.openCapture, .closeCapture]
  | item => [item]

/-- The expression that a pattern is translated to. -/
def Pattern.translated (p : Pattern) : Regex.Expression :=
  ⟨p.anchored, p.items.flatMap Item.translated⟩

theorem SetItem.contains_of_isReversed {item : SetItem} (h : item.isReversed = true) (c : Char) :
    item.contains c = false := by
  cases item with
  | range first last =>
    rw [Bool.eq_false_iff]
    intro hc
    rw [contains, Bool.and_eq_true, decide_eq_true_iff, decide_eq_true_iff] at hc
    rw [isReversed, Bool.not_eq_true', decide_eq_false_iff_not] at h
    exact h (Char.le_trans hc.1 hc.2)
  | char _ => cases h
  | «class» _ _ => cases h

theorem CharSet.any_filter (items : List SetItem) (c : Char) :
    (items.filter (!·.isReversed)).any (·.contains c) = items.any (·.contains c) := by
  induction items with
  | nil => rfl
  | cons item items ih =>
    rw [List.filter_cons]
    split
    · rw [List.any_cons, List.any_cons, ih]
    · next h =>
      rw [Bool.not_eq_true', Bool.not_eq_false] at h
      rw [List.any_cons, SetItem.contains_of_isReversed h, Bool.false_or, ih]

theorem CharSet.translated_accepts (set : CharSet) (c : Char) :
    set.translated.accepts c = set.contains c := by
  rw [CharSet.contains, ← any_filter]
  unfold translated
  split
  · next hitems hnegated =>
    rw [hitems, hnegated]
    rfl
  · rfl

/-- A single item and its translation match the same characters. -/
@[simp] theorem Single.translated_accepts (single : Single) (c : Char) :
    single.translated.accepts c = single.accepts c := by
  cases single with
  | char d => rfl
  | any => rfl
  | «class» named inverted =>
    simp [translated, accepts, CharSet.contains, SetItem.contains]
  | set members => exact members.translated_accepts c

namespace Regex

variable {rest : List Char}

/-! ## Members of a class -/

theorem readClass?_regexBody (named : CharClass) (rest : List Char) :
    readClass? (named.regexBody.toList ++ rest) = some (named, rest) := by
  cases named <;> rfl

theorem readNamed?_eq_none {text : List Char} {names : List (String × CharClass)}
    (h : ∀ entry ∈ names, ¬ entry.1.toList <+: text) : readNamed? text names = none := by
  induction names with
  | nil => rfl
  | cons entry more ih =>
    obtain ⟨hfirst, hmore⟩ := List.forall_mem_cons.mp h
    rw [readNamed?, textAfter?, if_neg (by rwa [List.isPrefixOf_iff_prefix])]
    exact ih hmore

/-- A class does not start with a letter or a digit. -/
theorem readClass?_of_isAlphanum {c : Char} (hc : c.isAlphanum = true) (rest : List Char) :
    readClass? (c :: rest) = none := by
  have hnames : ∀ entry ∈ classNames, entry.1.toList.head?.any Char.isAlphanum = false := by decide
  have hnonempty : ∀ entry ∈ classNames, entry.1.toList ≠ [] := by decide
  refine readNamed?_eq_none fun entry hentry hfront => ?_
  obtain ⟨d, front, hname⟩ := List.exists_cons_of_ne_nil (hnonempty entry hentry)
  have hd := hnames entry hentry
  rw [hname, List.head?_cons, Option.any_some] at hd
  rw [hname, List.cons_prefix_cons] at hfront
  rw [hfront.1, hc] at hd
  cases hd

theorem readClass?_setChar (c : Char) (rest : List Char) :
    readClass? (setChar c ++ rest) = none := by
  rw [setChar]
  split
  · next hc => exact readClass?_of_isAlphanum hc rest
  · rw [List.append_assoc, List.append_assoc]
    rfl

theorem readCode?_toDigits (c : Char) (rest : List Char) :
    readCode? ((Nat.toDigits 16 c.toNat).map Char.toUpper ++ '\x7d' :: rest) = some (c, rest) := by
  have hvalue : Numeral.naturalValue? 16 ((Nat.toDigits 16 c.toNat).map Char.toUpper) =
      some c.toNat :=
    Numeral.naturalValue?_toDigits (by decide)
      (fun d hd => (Numeral.digit?_digitChar 16 (by decide) d hd).2) _
  have hdigits : ∀ d ∈ (Nat.toDigits 16 c.toNat).map Char.toUpper, (d != '\x7d') = true := by
    intro d hd
    rw [bne_iff_ne]
    rintro rfl
    exact absurd (Numeral.isSome_digit?_of_mem hvalue hd) (by decide)
  have hchar : charOf? c.toNat = some c := by
    rw [charOf?, if_pos (show c.toNat.isValidChar from c.valid), Char.ofNat_toNat]
  rw [readCode?, List.dropWhile_append_of_pos hdigits, List.takeWhile_append_of_pos hdigits]
  simp [hvalue, hchar]

theorem readChar?_setChar (c : Char) (rest : List Char) :
    readChar? (setChar c ++ rest) = some (c, rest) := by
  rw [setChar]
  split
  · next hc =>
    rw [List.singleton_append]
    unfold readChar?
    split
    · next h => cases h
    · next h =>
      cases h
      cases hc
    · next h =>
      cases h
      rw [if_pos hc]
  · rw [List.append_assoc, List.append_assoc]
    exact readCode?_toDigits c rest

/-- A character of a set starts with a letter, a digit or a backslash. -/
theorem head_setChar (c : Char) (rest : List Char) :
    ∃ d tail, setChar c ++ rest = d :: tail ∧ (d.isAlphanum = true ∨ d = '\\') := by
  rw [setChar]
  split
  · next hc => exact ⟨c, rest, rfl, .inl hc⟩
  · exact ⟨'\\', _, rfl, .inr rfl⟩

theorem readMember?_setChar (c : Char) (rest : List Char) :
    readMember? (setChar c ++ rest) = rangeFrom? c rest := by
  unfold readMember?
  rw [readClass?_setChar]
  obtain ⟨d, tail, htext, hd⟩ := head_setChar c rest
  dsimp only
  split
  · next inner heq =>
    rw [htext] at heq
    cases heq
    obtain hd | hd := hd
    · cases hd
    · cases hd
  · rw [readChar?_setChar]
    rfl

/-- A character of a set is a member by itself if no hyphen follows. -/
theorem rangeFrom?_of_ne (c : Char) (hrest : rest.head? ≠ some '-') :
    rangeFrom? c rest = some (.char c, rest) := by
  unfold rangeFrom?
  split
  · exact absurd rfl hrest
  · rfl

theorem rangeFrom?_hyphen {first last : Char} (hle : first ≤ last) (rest : List Char) :
    rangeFrom? first ('-' :: (setChar last ++ rest)) = some (.range first last, rest) := by
  rw [rangeFrom?, readChar?_setChar]
  exact if_pos hle

/-- A member of a set is read back, unless it is left out. -/
theorem readMember?_regexText {item : SetItem} (hitem : item.isReversed = false)
    (hrest : rest.head? ≠ some '-') :
    readMember? (item.regexText ++ rest) = some (item, rest) := by
  cases item with
  | char c => exact (readMember?_setChar c rest).trans (rangeFrom?_of_ne c hrest)
  | range first last =>
    rw [SetItem.isReversed, Bool.not_eq_false', decide_eq_true_iff] at hitem
    rw [SetItem.regexText, if_pos hitem, List.append_assoc, readMember?_setChar]
    exact rangeFrom?_hyphen hitem rest
  | «class» named inverted =>
    cases inverted with
    | false =>
      unfold readMember?
      rw [SetItem.regexText, readClass?_regexBody]
    | true => cases named <;> rfl

/-- A member of a set is written with a letter, a digit, a backslash or a bracket in front. -/
theorem head_regexText {item : SetItem} (hitem : item.isReversed = false) (rest : List Char) :
    ∃ d tail, item.regexText ++ rest = d :: tail ∧
      (d.isAlphanum = true ∨ d = '\\' ∨ d = '[') := by
  cases item with
  | char c =>
    obtain ⟨d, tail, htext, hd⟩ := head_setChar c rest
    exact ⟨d, tail, htext, hd.imp_right .inl⟩
  | range first last =>
    rw [SetItem.isReversed, Bool.not_eq_false', decide_eq_true_iff] at hitem
    rw [SetItem.regexText, if_pos hitem, List.append_assoc]
    obtain ⟨d, tail, htext, hd⟩ := head_setChar first ('-' :: setChar last ++ rest)
    exact ⟨d, tail, htext, hd.imp_right .inl⟩
  | «class» named inverted =>
    cases inverted with
    | false => cases named <;> exact ⟨_, _, rfl, by decide⟩
    | true => exact ⟨'[', _, rfl, .inr (.inr rfl)⟩

theorem regexText_of_isReversed {item : SetItem} (hitem : item.isReversed = true) :
    item.regexText = [] := by
  cases item with
  | range first last =>
    rw [SetItem.isReversed, Bool.not_eq_true', decide_eq_false_iff_not] at hitem
    rw [SetItem.regexText, if_neg hitem]
  | char _ => cases hitem
  | «class» _ _ => cases hitem

/-- What is written between the brackets of a class starts neither with a hyphen nor with a
caret. -/
theorem head_flatMap_regexText (items : List SetItem) (rest : List Char) :
    ∃ d tail, items.flatMap SetItem.regexText ++ ']' :: rest = d :: tail ∧ d ≠ '-' ∧ d ≠ '^' := by
  induction items with
  | nil => exact ⟨']', rest, rfl, by decide⟩
  | cons item items ih =>
    rw [List.flatMap_cons, List.append_assoc]
    cases hitem : item.isReversed with
    | true =>
      rw [regexText_of_isReversed hitem]
      exact ih
    | false =>
      obtain ⟨d, tail, htext, hd⟩ :=
        head_regexText hitem (items.flatMap SetItem.regexText ++ ']' :: rest)
      refine ⟨d, tail, htext, ?_, ?_⟩
      · rintro rfl
        revert hd
        decide
      · rintro rfl
        revert hd
        decide

theorem readMembers?_cons {text rest : List Char} {item : SetItem}
    (h : readMember? text = some (item, rest)) :
    readMembers? text = (readMembers? rest).map fun (items, tail) => (item :: items, tail) := by
  rw [readMembers?.eq_def]
  split
  · cases h
  · cases h
  · split
    · next item' rest' h' =>
      rw [h] at h'
      cases h'
      rfl
    · next h' =>
      rw [h] at h'
      cases h'

/-- The members of a set are read back, but for those that are left out. -/
theorem readMembers?_regexText (items : List SetItem) (rest : List Char) :
    readMembers? (items.flatMap SetItem.regexText ++ ']' :: rest) =
      some (items.filter (!·.isReversed), rest) := by
  induction items with
  | nil => rw [List.flatMap_nil, List.nil_append, readMembers?, List.filter_nil]
  | cons item items ih =>
    rw [List.flatMap_cons, List.append_assoc, List.filter_cons]
    cases hitem : item.isReversed with
    | true =>
      rw [regexText_of_isReversed hitem]
      exact ih
    | false =>
      obtain ⟨d, tail, htext, hd, -⟩ := head_flatMap_regexText items rest
      rw [readMembers?_cons (readMember?_regexText hitem ?_), ih]
      · rfl
      · rw [htext]
        exact fun h => hd (Option.some.inj h)

/-! ## Single items -/

/-- Nothing is written between the brackets of a set if and only if all members are left out. -/
theorem flatMap_regexText_eq_nil_iff {items : List SetItem} :
    items.flatMap SetItem.regexText = [] ↔ items.filter (!·.isReversed) = [] := by
  rw [List.flatMap_eq_nil_iff, List.filter_eq_nil_iff]
  refine forall₂_congr fun item _ => ?_
  rw [Bool.not_eq_true', Bool.not_eq_false]
  refine ⟨fun h => ?_, regexText_of_isReversed⟩
  cases hitem : item.isReversed with
  | true => rfl
  | false =>
    obtain ⟨d, tail, htext, -⟩ := head_regexText hitem []
    rw [h] at htext
    cases htext

theorem readBrackets?_regexText {items : List SetItem}
    (hitems : items.filter (!·.isReversed) ≠ []) (negated : Bool) (rest : List Char) :
    readBrackets? negated (items.flatMap SetItem.regexText ++ ']' :: rest) =
      some (.set ⟨items.filter (!·.isReversed), negated⟩, rest) := by
  rw [readBrackets?, readMembers?_regexText]
  cases hfilter : items.filter (!·.isReversed) with
  | nil => exact absurd hfilter hitems
  | cons item others => rfl

theorem readSingle?_bracket {c : Char} (hc : c ≠ '^') (rest : List Char) :
    readSingle? ('[' :: c :: rest) = readBrackets? false (c :: rest) := by
  unfold readSingle?
  split
  · next heq => cases textAfter?_eq_some_iff.mp heq
  · split
    · next heq => cases heq
    · next heq =>
      cases heq
      exact absurd rfl hc
    · next heq =>
      cases heq
      rfl
    · next heq => cases heq
    · next hset _ heq =>
      cases heq
      exact (hset rfl).elim
    · next heq => cases heq

/-- A set is read back, but for the members that are left out. -/
theorem readSingle?_set (set : CharSet) (rest : List Char) :
    readSingle? (set.regexText ++ rest) = some (set.translated, rest) := by
  obtain ⟨items, negated⟩ := set
  by_cases hitems : items.filter (!·.isReversed) = []
  · have hbody := flatMap_regexText_eq_nil_iff.mpr hitems
    cases negated with
    | false => simp only [CharSet.regexText, CharSet.translated, hbody, hitems]; rfl
    | true => simp only [CharSet.regexText, CharSet.translated, hbody, hitems]; rfl
  · have hbody : (items.flatMap SetItem.regexText).isEmpty = false := by
      rw [List.isEmpty_eq_false_iff]
      exact mt flatMap_regexText_eq_nil_iff.mp hitems
    have htranslated : (CharSet.mk items negated).translated =
        .set ⟨items.filter (!·.isReversed), negated⟩ := by
      unfold CharSet.translated
      split
      · next h _ => exact absurd h hitems
      · rfl
    rw [htranslated, ← readBrackets?_regexText hitems negated rest]
    obtain ⟨d, tail, htext, -, hcaret⟩ := head_flatMap_regexText items rest
    cases negated with
    | false =>
      have hset : (CharSet.mk items false).regexText ++ rest =
          '[' :: (items.flatMap SetItem.regexText ++ ']' :: rest) := by
        simp [CharSet.regexText, hbody]
      rw [hset, htext]
      exact readSingle?_bracket hcaret tail
    | true =>
      have hset : (CharSet.mk items true).regexText ++ rest =
          '[' :: '^' :: (items.flatMap SetItem.regexText ++ ']' :: rest) := by
        simp [CharSet.regexText, hbody]
      rw [hset]
      rfl

theorem readSingle?_char (c : Char) (rest : List Char) :
    readSingle? (escapedChar c ++ rest) = some (.char c, rest) := by
  rw [escapedChar]
  split
  · next hc =>
    show (if isMeta c then some (Single.char c, rest) else none) = _
    rw [if_pos hc]
  · next hc =>
    rw [List.singleton_append]
    have hmeta : ∀ d, isMeta d = true → c ≠ d := fun d hd heq => hc (heq ▸ hd)
    unfold readSingle?
    split
    · next heq =>
      have hfirst := (List.cons.inj (textAfter?_eq_some_iff.mp heq)).1
      exact absurd hfirst (hmeta '(' (by decide))
    · split
      · next heq => exact absurd (List.cons.inj heq).1 (hmeta '.' (by decide))
      · next heq => exact absurd (List.cons.inj heq).1 (hmeta '[' (by decide))
      · next heq => exact absurd (List.cons.inj heq).1 (hmeta '[' (by decide))
      · next heq => exact absurd (List.cons.inj heq).1 (hmeta '\\' (by decide))
      · next heq =>
        cases heq
        exact if_neg hc
      · next heq => cases heq

/-- A single item is read back as its translation. -/
theorem readSingle?_regexText (single : Single) (rest : List Char) :
    readSingle? (single.regexText ++ rest) = some (single.translated, rest) := by
  cases single with
  | char c => exact readSingle?_char c rest
  | any => rfl
  | «class» named inverted =>
    have hset : (Single.class named inverted).regexText =
        CharSet.regexText ⟨[.class named false], inverted⟩ := by
      cases named <;> cases inverted <;> rfl
    rw [hset, readSingle?_set]
    cases inverted <;> rfl
  | set members => exact readSingle?_set members rest

/-! ## Items -/

/-- A text that does not start with a quantifier. -/
def NotQuantified (text : List Char) : Prop := ∀ c ∈ text.head?, c ∉ ['*', '+', '?']

theorem readQuantifier_none (hrest : NotQuantified rest) : readQuantifier rest = (none, rest) := by
  unfold readQuantifier
  split
  · exact absurd (by simp) (hrest '*' rfl)
  · exact absurd (by simp) (hrest '*' rfl)
  · exact absurd (by simp) (hrest '+' rfl)
  · exact absurd (by simp) (hrest '?' rfl)
  · rfl

theorem readQuantifier_regexText (repetition : Repetition) (hrest : NotQuantified rest) :
    readQuantifier (repetition.regexText ++ rest) = (some repetition, rest) := by
  cases repetition with
  | many =>
    show readQuantifier ('*' :: rest) = _
    rw [readQuantifier]
    intro tail heq
    exact absurd (by simp) (hrest '?' (by rw [heq]; rfl))
  | some => rfl
  | optional => rfl
  | fewest => rfl

/-- What is written for a single item does not start with a quantifier. -/
theorem notQuantified_single (single : Single) (rest : List Char) :
    NotQuantified (single.regexText ++ rest) := by
  intro c hc hmem
  have hread := readSingle?_regexText single rest
  obtain ⟨tail, htext⟩ := List.head?_eq_some_iff.mp hc
  rw [htext] at hread
  simp only [List.mem_cons, List.not_mem_nil, or_false] at hmem
  obtain rfl | rfl | rfl := hmem <;> cases hread

/-- What is written for an item does not start with a quantifier. -/
theorem notQuantified_item (item : Item) (rest : List Char) :
    NotQuantified (item.regexText ++ rest) := by
  cases item with
  | one single => exact notQuantified_single single rest
  | repeated single repetition =>
    rw [Item.regexText, List.append_assoc]
    exact notQuantified_single single _
  | position => rintro _ ⟨⟩; decide
  | openCapture => rintro _ ⟨⟩; decide
  | closeCapture => rintro _ ⟨⟩; decide
  | endAnchor => rintro _ ⟨⟩; decide
  | frontier _ => rintro _ ⟨⟩; decide

/-- The items of a text are read one by one. -/
theorem readItems?_cons {text rest : List Char} {item : Item} {depth next : Nat}
    (hitem : readItem? text = some (item, rest)) (hdepth : item.depthAfter? depth = some next) :
    readItems? depth text = (readItems? next rest).map (item :: ·) := by
  cases text with
  | nil => cases hitem
  | cons c text =>
    rw [readItems?]
    split
    · next item' rest' h =>
      rw [hitem] at h
      cases h
      rw [hdepth]
    · next h =>
      rw [hitem] at h
      cases h

theorem readItem?_one (single : Single) (hrest : NotQuantified rest) :
    readItem? (single.regexText ++ rest) = some (.one single.translated, rest) := by
  unfold readItem?
  rw [readSingle?_regexText]
  show some (quantified single.translated rest) = _
  rw [quantified, readQuantifier_none hrest]

theorem readItem?_repeated (single : Single) (repetition : Repetition)
    (hrest : NotQuantified rest) :
    readItem? (single.regexText ++ (repetition.regexText ++ rest)) =
      some (.repeated single.translated repetition, rest) := by
  unfold readItem?
  rw [readSingle?_regexText]
  show some (quantified single.translated (repetition.regexText ++ rest)) = _
  rw [quantified, readQuantifier_regexText repetition hrest]

theorem readItem?_openCapture (hrest : NotQuantified rest) :
    readItem? ('(' :: rest) = some (.openCapture, rest) := by
  have hsingle : readSingle? ('(' :: rest) = none := by
    unfold readSingle?
    split
    · next heq =>
      rw [(List.cons.inj (textAfter?_eq_some_iff.mp heq)).2] at hrest
      exact absurd (by simp) (hrest '?' rfl)
    · rfl
  unfold readItem?
  rw [hsingle]
  rfl

theorem readItem?_closeCapture (rest : List Char) :
    readItem? (')' :: rest) = some (.closeCapture, rest) := rfl

theorem readItem?_endAnchor (rest : List Char) :
    readItem? ('\\' :: 'z' :: rest) = some (.endAnchor, rest) := rfl

/-- The group of a place is read as two items. -/
theorem readItems?_place (depth : Nat) (text : List Char) :
    readItems? depth ('(' :: ')' :: text) =
      (readItems? depth text).map fun more => .openCapture :: .closeCapture :: more := by
  rw [readItems?_cons (readItem?_openCapture (by rintro _ ⟨⟩; decide)) rfl,
    readItems?_cons (readItem?_closeCapture _) rfl, Option.map_map]
  rfl

/-- The items of a pattern are read back as their translations. -/
theorem readItems?_regexText {items : List Item} {depth : Nat} (h : Balanced depth items) :
    readItems? depth (items.flatMap Item.regexText) = some (items.flatMap Item.translated) := by
  induction items generalizing depth with
  | nil =>
    obtain rfl : depth = 0 := h
    rw [List.flatMap_nil, readItems?]
    rfl
  | cons item items ih =>
    obtain ⟨next, hnext, h⟩ := h
    have hrest : NotQuantified (items.flatMap Item.regexText) := by
      cases items with
      | nil => rintro _ ⟨⟩
      | cons second more => exact notQuantified_item second _
    rw [List.flatMap_cons, List.flatMap_cons]
    have hplace := readItems?_place depth (items.flatMap Item.regexText)
    cases item with
    | one single =>
      cases hnext
      rw [Item.regexText, readItems?_cons (readItem?_one single hrest) rfl, ih h]
      rfl
    | repeated single repetition =>
      cases hnext
      rw [Item.regexText, List.append_assoc,
        readItems?_cons (readItem?_repeated single repetition hrest) rfl, ih h]
      rfl
    | position =>
      cases hnext
      rw [ih h] at hplace
      exact hplace
    | openCapture =>
      have hread := readItems?_cons (readItem?_openCapture hrest) hnext
      rw [ih h] at hread
      exact hread
    | closeCapture =>
      have hread := readItems?_cons (readItem?_closeCapture (items.flatMap Item.regexText)) hnext
      rw [ih h] at hread
      exact hread
    | endAnchor =>
      have hread := readItems?_cons (readItem?_endAnchor (items.flatMap Item.regexText)) hnext
      rw [ih h] at hread
      exact hread
    | frontier _ =>
      cases hnext
      rw [ih h] at hplace
      exact hplace

/-- The regular expression of a balanced pattern is read as its translation. -/
theorem parse?_regexText {p : Pattern} (h : Balanced 0 p.items) :
    parse? p.regexText.toList = some p.translated := by
  have hitems := readItems?_regexText h
  have hfront (text : List Char) : textAfter? "(?s)".toList ("(?s)".toList ++ text) = some text :=
    textAfter?_eq_some_iff.mpr rfl
  obtain ⟨anchored, items⟩ := p
  have htext : (Pattern.regexText ⟨anchored, items⟩).toList = "(?s)".toList ++
      ((if anchored then "\\A".toList else []) ++ items.flatMap Item.regexText) :=
    String.toList_ofList.trans (List.append_assoc _ _ _)
  rw [htext, parse?, hfront]
  cases anchored with
  | true =>
    show (readItems? 0 (items.flatMap Item.regexText)).map _ = _
    rw [hitems]
    rfl
  | false =>
    -- No item is written like the start of the text.
    simp only [Bool.false_eq_true, if_false, List.nil_append]
    split
    · next heq =>
      rw [Option.some.inj heq, readItems?] at hitems
      cases hitems
    · next heq =>
      rw [← Option.some.inj heq, hitems]
      rfl
    · next heq => cases heq

end Regex

end LuaRuntime
