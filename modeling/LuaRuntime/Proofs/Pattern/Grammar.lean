import LuaRuntime.Pattern.Parse
import LuaRuntime.Proofs.Format.Reading
import LuaRuntime.Proofs.Pattern.Captures

/-!
# The grammar of patterns

`SpellsPattern` says which texts spell which patterns.  A repetition is spelled by one
single-character item and one quantifier.  What a character spells depends on the text after it: a
single-character item is not followed by a quantifier, since it would be repeated then, and a dollar
sign with nothing after it is an end anchor.

What the reader of items does with one of them is told once (`Reads`), and a whole text is a run of
such steps (`ReadsAll`).  From this follow, by induction over the run, that the text spells the
items and that they are well formed (`WellFormed`).
-/

namespace LuaRuntime

namespace Pattern

/-! ## Texts of sets -/

/-- A text spells the members of a set, up to and with the closing bracket.  A hyphen between two
characters makes them a range. -/
inductive SpellsMembers (classes : Bool) : List Char → List SetItem → Prop
  | close : SpellsMembers classes [']'] []
  | char {c : Char} {rest : List Char} {items : List SetItem} :
      c ≠ '%' →
      c ≠ ']' →
      (∀ last more, rest = '-' :: last :: more → last = ']') →
      SpellsMembers classes rest items →
      SpellsMembers classes (c :: rest) (.char c :: items)
  | range {first last : Char} {rest : List Char} {items : List SetItem} :
      first ≠ '%' →
      first ≠ ']' →
      last ≠ ']' →
      SpellsMembers classes rest items →
      SpellsMembers classes (first :: '-' :: last :: rest) (.range first last :: items)
  | escaped {c : Char} {rest : List Char} {items : List SetItem} :
      CharClass.ofLetter? c = none →
      SpellsMembers classes rest items →
      SpellsMembers classes ('%' :: c :: rest) (.char c :: items)
  | class {c : Char} {named : CharClass} {rest : List Char} {items : List SetItem} :
      classes = true →
      CharClass.ofLetter? c = some named →
      SpellsMembers classes rest items →
      SpellsMembers classes ('%' :: c :: rest) (.class named c.isUpper :: items)

/-- A text spells the members of a set.  A closing bracket in the first place is one of them. -/
inductive SpellsBody (classes : Bool) : List Char → List SetItem → Prop
  | plain {text : List Char} {items : List SetItem} :
      text.head? ≠ some ']' →
      SpellsMembers classes text items →
      SpellsBody classes text items
  | bracket {text : List Char} {items : List SetItem} :
      SpellsMembers classes text items →
      SpellsBody classes (']' :: text) (.char ']' :: items)

/-- A text spells a set, after its opening bracket. -/
inductive SpellsSet (classes : Bool) : List Char → CharSet → Prop
  | members {text : List Char} {items : List SetItem} :
      text.head? ≠ some '^' →
      SpellsBody classes text items →
      SpellsSet classes text ⟨items, false⟩
  | complement {text : List Char} {items : List SetItem} :
      SpellsBody classes text items →
      SpellsSet classes ('^' :: text) ⟨items, true⟩

/-! ## Texts of items -/

/-- A text spells a single-character item. -/
inductive SpellsSingle : List Char → Single → Prop
  | char {c : Char} : c ∉ ['(', ')', '[', '.', '%'] → SpellsSingle [c] (.char c)
  | escaped {c : Char} :
      c ≠ 'b' →
      c ≠ 'f' →
      c.isDigit = false →
      CharClass.ofLetter? c = none →
      SpellsSingle ['%', c] (.char c)
  | any : SpellsSingle ['.'] .any
  | class {c : Char} {named : CharClass} :
      CharClass.ofLetter? c = some named →
      SpellsSingle ['%', c] (.class named c.isUpper)
  | set {text : List Char} {members : CharSet} :
      SpellsSet false text members →
      SpellsSingle ('[' :: text) (.set members)

/-- A text spells an item, if the last text comes after it. -/
inductive SpellsItem : List Char → Item → List Char → Prop
  | one {text rest : List Char} {single : Single} :
      SpellsSingle text single →
      (∀ c ∈ rest.head?, quantifier? c = none) →
      ¬ (text = ['$'] ∧ rest = []) →
      SpellsItem text (.one single) rest
  | repeated {text rest : List Char} {single : Single} {c : Char} {repetition : Repetition} :
      SpellsSingle text single →
      quantifier? c = some repetition →
      SpellsItem (text ++ [c]) (.repeated single repetition) rest
  | position {rest : List Char} : SpellsItem ['(', ')'] .position rest
  | openCapture {rest : List Char} :
      rest.head? ≠ some ')' →
      SpellsItem ['('] .openCapture rest
  | closeCapture {rest : List Char} : SpellsItem [')'] .closeCapture rest
  | endAnchor : SpellsItem ['$'] .endAnchor []
  | frontier {text rest : List Char} {members : CharSet} :
      SpellsSet true text members →
      SpellsItem ('%' :: 'f' :: '[' :: text) (.frontier members) rest

/-- A text spells a sequence of items. -/
inductive SpellsItems : List Char → List Item → Prop
  | nil : SpellsItems [] []
  | cons {text rest : List Char} {item : Item} {items : List Item} :
      SpellsItem text item rest →
      SpellsItems rest items →
      SpellsItems (text ++ rest) (item :: items)

theorem SpellsItems.exists_of_mem {text : List Char} {items : List Item}
    (h : SpellsItems text items) {item : Item} (hmem : item ∈ items) :
    ∃ front rest, SpellsItem front item rest := by
  induction h with
  | nil => cases hmem
  | cons hspells _ ih =>
    obtain rfl | hmem := List.mem_cons.mp hmem
    · exact ⟨_, _, hspells⟩
    · exact ih hmem

/-- A text spells a pattern.  A caret in the first place anchors it. -/
inductive SpellsPattern : List Char → Pattern → Prop
  | anchored {text : List Char} {items : List Item} :
      SpellsItems text items →
      SpellsPattern ('^' :: text) ⟨true, items⟩
  | free {text : List Char} {items : List Item} :
      text.head? ≠ some '^' →
      SpellsItems text items →
      SpellsPattern text ⟨false, items⟩

/-! ## Reading a set -/

theorem eq_cons_of_reading {item : SetItem} {reading : SetReading} {items : List SetItem}
    {tail : List Char} (h : SetReading.cons item reading = .ok (items, tail)) :
    ∃ others, reading = .ok (others, tail) ∧ items = item :: others := by
  obtain ⟨others, rfl⟩ := SetReading.cons_eq_ok h
  cases h
  exact ⟨others, rfl, rfl⟩

theorem setItems_spells {classes : Bool} {text : List Char} {items : List SetItem}
    {tail : List Char} (h : setItems classes text = .ok (items, tail)) :
    ∃ front, text = front ++ tail ∧ SpellsMembers classes front items := by
  fun_induction setItems classes text generalizing items tail with
  | case1 => cases h
  | case2 rest =>
    cases h
    exact ⟨[']'], rfl, .close⟩
  | case3 => cases h
  | case4 c rest named hnamed hclasses ih =>
    obtain ⟨others, hothers, rfl⟩ := eq_cons_of_reading h
    obtain ⟨front, rfl, hspells⟩ := ih hothers
    exact ⟨'%' :: c :: front, rfl, .class hclasses hnamed hspells⟩
  | case5 => cases h
  | case6 c rest hnone ih =>
    obtain ⟨others, hothers, rfl⟩ := eq_cons_of_reading h
    obtain ⟨front, rfl, hspells⟩ := ih hothers
    exact ⟨'%' :: c :: front, rfl, .escaped hnone hspells⟩
  | case7 first rest hbracket hpercent =>
    -- A hyphen before the closing bracket is a member.
    cases h
    refine ⟨[first, '-', ']'], rfl, .char hpercent hbracket (fun last more heq => ?_) ?_⟩
    · cases heq
      rfl
    · exact .char (by decide) (by decide) (fun last more heq => by cases heq) .close
  | case8 first last rest hbracket hpercent hlast ih =>
    obtain ⟨others, hothers, rfl⟩ := eq_cons_of_reading h
    obtain ⟨front, rfl, hspells⟩ := ih hothers
    exact ⟨first :: '-' :: last :: front, rfl, .range hpercent hbracket hlast hspells⟩
  | case9 c rest hbracket hend hescape hrange ih =>
    obtain ⟨others, hothers, rfl⟩ := eq_cons_of_reading h
    have hpercent : c ≠ '%' := by
      intro heq
      cases rest with
      | nil => exact hend heq rfl
      | cons d more => exact hescape d more heq rfl
    obtain ⟨front, rfl, hspells⟩ := ih hothers
    refine ⟨c :: front, rfl, .char hpercent hbracket (fun last more heq => ?_) hspells⟩
    subst heq
    exact absurd rfl (hrange last (more ++ tail))

theorem members_spells {classes : Bool} {text : List Char} {items : List SetItem}
    {tail : List Char} (h : members classes text = .ok (items, tail)) :
    ∃ front, text = front ++ tail ∧ SpellsBody classes front items := by
  unfold members at h
  split at h
  · obtain ⟨others, hothers, rfl⟩ := eq_cons_of_reading h
    obtain ⟨front, rfl, hspells⟩ := setItems_spells hothers
    exact ⟨']' :: front, rfl, .bracket hspells⟩
  · next hbracket =>
    obtain ⟨front, rfl, hspells⟩ := setItems_spells h
    refine ⟨front, rfl, .plain (fun heq => ?_) hspells⟩
    obtain ⟨more, rfl⟩ := List.head?_eq_some_iff.mp heq
    exact hbracket (more ++ tail) rfl

theorem charSet_spells {classes : Bool} {text : List Char} {set : CharSet} {tail : List Char}
    (h : charSet classes text = .ok (set, tail)) :
    ∃ front, text = front ++ tail ∧ SpellsSet classes front set := by
  unfold charSet at h
  split at h
  · obtain ⟨⟨items, tail⟩, hmembers, heq⟩ := Format.map_eq_ok.mp h
    cases heq
    obtain ⟨front, rfl, hspells⟩ := members_spells hmembers
    exact ⟨'^' :: front, rfl, .complement hspells⟩
  · next hcaret =>
    obtain ⟨⟨items, tail⟩, hmembers, heq⟩ := Format.map_eq_ok.mp h
    cases heq
    obtain ⟨front, rfl, hspells⟩ := members_spells hmembers
    refine ⟨front, rfl, .members (fun heq => ?_) hspells⟩
    obtain ⟨more, rfl⟩ := List.head?_eq_some_iff.mp heq
    exact hcaret (more ++ tail) rfl

/-! ## Reading an item -/

/-- What the reader does with the first item of a text. -/
structure Reads (context : Context) (text : List Char) (first : Item) (rest : List Char)
    (next : Context) : Prop where
  spells : ∃ front, text = front ++ rest ∧ SpellsItem front first rest
  depth_eq : first.depthAfter? context.opened = some next.opened
  captures_eq : next.captures = context.captures + if first.capturesHere then 1 else 0
  captures_le : context.captures ≤ captureLimit → next.captures ≤ captureLimit
  repeated_eq : next.repeated = (context.repeated || first.isRepetition)
  frontier : ∀ members, first = .frontier members → context.repeated = false

section

variable {context next : Context} {text rest : List Char} {first : Item}

/-- A single-character item is repeated if a quantifier comes after it. -/
theorem quantified_reads {front : List Char} {single : Single} (hspells : SpellsSingle front single)
    (hend : ¬ (front = ['$'] ∧ text = []))
    (h : quantified context single text = (first, rest, next)) :
    Reads context (front ++ text) first rest next := by
  unfold quantified at h
  split at h
  · cases h
    exact
      { spells := ⟨front, rfl, .one hspells (by simp) hend⟩
        depth_eq := rfl
        captures_eq := rfl
        captures_le := id
        repeated_eq := (Bool.or_false _).symm
        frontier := by simp }
  · next c tail =>
    split at h
    · next repetition hquantifier =>
      cases h
      exact
        { spells := ⟨front ++ [c], by simp, .repeated hspells hquantifier⟩
          depth_eq := rfl
          captures_eq := rfl
          captures_le := id
          repeated_eq := (Bool.or_true _).symm
          frontier := by simp }
    · next hquantifier =>
      cases h
      exact
        { spells := ⟨front, rfl, .one hspells (by simpa using hquantifier) hend⟩
          depth_eq := rfl
          captures_eq := rfl
          captures_le := id
          repeated_eq := (Bool.or_false _).symm
          frontier := by simp }

theorem capture_reads (h : capture context text = .ok (first, rest, next)) :
    Reads context ('(' :: text) first rest next := by
  unfold capture at h
  split at h
  · cases h
  · next hlimit =>
    have hle : context.captures + 1 ≤ captureLimit := by omega
    split at h
    · cases h
      exact
        { spells := ⟨['(', ')'], rfl, .position⟩
          depth_eq := rfl
          captures_eq := rfl
          captures_le := fun _ => hle
          repeated_eq := (Bool.or_false _).symm
          frontier := by simp }
    · next hclose =>
      cases h
      have hfollows : text.head? ≠ some ')' := by
        intro heq
        obtain ⟨more, rfl⟩ := List.head?_eq_some_iff.mp heq
        exact hclose more rfl
      exact
        { spells := ⟨['('], rfl, .openCapture hfollows⟩
          depth_eq := rfl
          captures_eq := rfl
          captures_le := fun _ => hle
          repeated_eq := (Bool.or_false _).symm
          frontier := by simp }

theorem closing_reads (h : closing context text = .ok (first, rest, next)) :
    Reads context (')' :: text) first rest next := by
  unfold closing at h
  split at h
  · cases h
  · next hopened =>
    split at h
    · cases h
    · cases h
      exact
        { spells := ⟨[')'], rfl, .closeCapture⟩
          depth_eq := if_neg hopened
          captures_eq := rfl
          captures_le := id
          repeated_eq := (Bool.or_false _).symm
          frontier := by simp }

theorem set_reads (h : set context text = .ok (first, rest, next)) :
    Reads context ('[' :: text) first rest next := by
  unfold set at h
  split at h
  · cases h
  · next members tail hset =>
    split at h
    · cases h
    · obtain ⟨front, rfl, hspells⟩ := charSet_spells hset
      exact quantified_reads (.set hspells) (by simp) (Except.ok.inj h)

theorem frontier_reads (h : frontier context text = .ok (first, rest, next)) :
    Reads context ('%' :: 'f' :: text) first rest next := by
  unfold frontier at h
  split at h
  · split at h
    · cases h
    · next hrepeated =>
      split at h
      · cases h
      · next members tail hset =>
        cases h
        obtain ⟨front, rfl, hspells⟩ := charSet_spells hset
        exact
          { spells := ⟨'%' :: 'f' :: '[' :: front, rfl, .frontier hspells⟩
            depth_eq := rfl
            captures_eq := rfl
            captures_le := id
            repeated_eq := (Bool.or_false _).symm
            frontier := fun _ _ => Bool.eq_false_iff.mpr hrepeated }
  · cases h

theorem escaped_reads {c : Char} (h : escaped context c text = .ok (first, rest, next)) :
    Reads context ('%' :: c :: text) first rest next := by
  unfold escaped at h
  split at h
  · cases h
  · next hb =>
    split at h
    · next hf =>
      subst hf
      exact frontier_reads h
    · next hf =>
      split at h
      · cases h
      · next hdigit =>
        split at h
        · next named hnamed =>
          split at h
          · cases h
          · exact quantified_reads (.class hnamed) (by simp) (Except.ok.inj h)
        · next hnone =>
          exact quantified_reads (.escaped hb hf (by simpa using hdigit) hnone) (by simp)
            (Except.ok.inj h)

/-- The first item of a text is spelled by a part in front of it, and counts as what it is. -/
theorem item_reads {c : Char} (h : item context c text = .ok (first, rest, next)) :
    Reads context (c :: text) first rest next := by
  unfold item at h
  split at h
  · exact capture_reads h
  · exact closing_reads h
  · exact set_reads h
  · exact quantified_reads .any (by simp) (Except.ok.inj h)
  · split at h
    · cases h
    · exact escaped_reads h
  · split at h
    · next hempty =>
      cases h
      rw [List.isEmpty_iff.mp hempty]
      exact
        { spells := ⟨['$'], rfl, .endAnchor⟩
          depth_eq := rfl
          captures_eq := rfl
          captures_le := id
          repeated_eq := (Bool.or_false _).symm
          frontier := by simp }
    · next hempty =>
      exact quantified_reads (.char (by decide)) (by simpa using hempty) (Except.ok.inj h)
  · next hopen hclose hset hany hpercent hdollar =>
    refine quantified_reads (.char ?_) (fun hend => ?_) (Except.ok.inj h)
    · simp only [List.mem_cons, List.not_mem_nil, or_false, not_or]
      exact ⟨hopen, hclose, hset, hany, hpercent⟩
    · exact hdollar (List.singleton_inj.mp hend.1)

end

/-! ## Reading all items -/

/-- The reader reads a whole text, one item after the other. -/
inductive ReadsAll : Context → List Char → List Item → Prop
  | nil {context : Context} :
      context.opened = 0 →
      ReadsAll context [] []
  | cons {context next : Context} {c : Char} {text rest : List Char} {first : Item}
      {items : List Item} :
      Reads context (c :: text) first rest next →
      ReadsAll next rest items →
      ReadsAll context (c :: text) (first :: items)

theorem parseItems_readsAll {context : Context} {text : List Char} {items : List Item}
    (h : parseItems context text = .ok items) : ReadsAll context text items := by
  fun_induction parseItems context text generalizing items with
  | case1 => cases h
  | case2 context hopened =>
    cases h
    exact .nil (Nat.eq_zero_of_not_pos hopened)
  | case3 => cases h
  | case4 context c text first rest next hitem ih =>
    obtain ⟨more, hmore, rfl⟩ := Format.map_eq_ok.mp h
    exact .cons (item_reads hitem) (ih hmore)

namespace ReadsAll

variable {context : Context} {text : List Char} {items : List Item}

theorem spells (h : ReadsAll context text items) : SpellsItems text items := by
  induction h with
  | nil _ => exact .nil
  | cons hreads _ ih =>
    obtain ⟨front, heq, hspells⟩ := hreads.spells
    rw [heq]
    exact .cons hspells ih

theorem balanced (h : ReadsAll context text items) : Balanced context.opened items := by
  induction h with
  | nil hopened => exact hopened
  | cons hreads _ ih => exact ⟨_, hreads.depth_eq, ih⟩

/-- The captures counted before and those of the items keep within the limit. -/
theorem captures_le (h : ReadsAll context text items) (hle : context.captures ≤ captureLimit) :
    context.captures + items.countP Item.capturesHere ≤ captureLimit := by
  induction h with
  | nil _ => exact hle
  | cons hreads _ ih =>
    have hrest := ih (hreads.captures_le hle)
    rw [hreads.captures_eq] at hrest
    rw [List.countP_cons]
    omega

/-- Nothing is read after an end anchor. -/
theorem pairwise_endAnchor (h : ReadsAll context text items) :
    items.Pairwise fun a _ => a ≠ .endAnchor := by
  induction h with
  | nil _ => exact .nil
  | cons hreads hrest ih =>
    refine .cons (fun item hitem heq => ?_) ih
    obtain ⟨front, -, hspells⟩ := hreads.spells
    subst heq
    cases hspells
    cases hrest
    cases hitem

theorem frontier_not_mem (h : ReadsAll context text items) (hrepeated : context.repeated = true)
    (members : CharSet) : .frontier members ∉ items := by
  induction h with
  | nil _ => exact List.not_mem_nil
  | cons hreads _ ih =>
    intro hmem
    obtain heq | hmem := List.mem_cons.mp hmem
    · have hnone := hreads.frontier members heq.symm
      rw [hrepeated] at hnone
      cases hnone
    · refine ih ?_ hmem
      rw [hreads.repeated_eq, hrepeated, Bool.true_or]

/-- No frontier is read after a repetition. -/
theorem pairwise_frontier (h : ReadsAll context text items) :
    items.Pairwise fun a b => a.isRepetition = true → ∀ members, b ≠ .frontier members := by
  induction h with
  | nil _ => exact .nil
  | cons hreads hrest ih =>
    refine .cons (fun item hitem hrepetition members heq => ?_) ih
    refine hrest.frontier_not_mem ?_ members (heq ▸ hitem)
    rw [hreads.repeated_eq, hrepetition, Bool.or_true]

end ReadsAll

/-! ## Well-formed items -/

theorem depthAfter?_eq {item : Item} {depth next : Nat} (h : item.depthAfter? depth = some next) :
    next + (if item == .closeCapture then 1 else 0) =
      depth + if item == .openCapture then 1 else 0 := by
  cases item with
  | openCapture => cases h; rfl
  | closeCapture =>
    simp only [Item.depthAfter?] at h
    split at h
    · cases h
    · cases h
      show depth - 1 + 1 = depth
      omega
  | one _ => cases h; rfl
  | repeated _ _ => cases h; rfl
  | position => cases h; rfl
  | endAnchor => cases h; rfl
  | frontier _ => cases h; rfl

/-- Balanced items close what they open and what is open before them, and nothing earlier. -/
theorem count_of_balanced {items : List Item} {depth : Nat} (h : Balanced depth items) :
    items.count .closeCapture = items.count .openCapture + depth ∧
      ∀ front, front <+: items →
        front.count .closeCapture ≤ front.count .openCapture + depth := by
  induction items generalizing depth with
  | nil =>
    obtain rfl : depth = 0 := h
    refine ⟨rfl, fun front hfront => ?_⟩
    rw [List.prefix_nil.mp hfront]
    exact Nat.le_refl _
  | cons item items ih =>
    obtain ⟨next, hnext, h⟩ := h
    obtain ⟨hcount, hle⟩ := ih h
    have hstep := depthAfter?_eq hnext
    refine ⟨?_, fun front hfront => ?_⟩
    · rw [List.count_cons, List.count_cons]
      omega
    · obtain rfl | ⟨more, rfl, hmore⟩ := List.prefix_cons_iff.mp hfront
      · exact Nat.zero_le _
      · have hrest := hle more hmore
        rw [List.count_cons, List.count_cons]
        omega

/-- Items of which a pattern may consist. -/
structure WellFormed (items : List Item) : Prop where
  /-- No capture is closed before it is opened. -/
  closes_le : ∀ front, front <+: items → front.count .closeCapture ≤ front.count .openCapture
  /-- Each capture that is opened is closed. -/
  closes_eq : items.count .closeCapture = items.count .openCapture
  /-- There are at most 32 captures, those of positions included. -/
  captures_le : items.countP Item.capturesHere ≤ 32
  /-- What is repeated is one single-character item, with a quantifier after it. -/
  repeated_single : ∀ single repetition, .repeated single repetition ∈ items →
    ∃ text c, SpellsSingle text single ∧ quantifier? c = some repetition
  /-- An end anchor has no item after it. -/
  endAnchor_last : items.Pairwise fun a _ => a ≠ .endAnchor
  /-- A frontier has no repetition before it. -/
  frontier_fixed : items.Pairwise fun a b =>
    a.isRepetition = true → ∀ members, b ≠ .frontier members

theorem ReadsAll.wellFormed {text : List Char} {items : List Item} (h : ReadsAll {} text items) :
    WellFormed items := by
  obtain ⟨hcount, hfront⟩ := count_of_balanced h.balanced
  have hle := h.captures_le (Nat.zero_le _)
  refine ⟨hfront, hcount, by simpa [captureLimit] using hle, fun single repetition hmem => ?_,
    h.pairwise_endAnchor, h.pairwise_frontier⟩
  obtain ⟨front, rest, hspells⟩ := h.spells.exists_of_mem hmem
  cases hspells with
  | repeated hsingle hquantifier => exact ⟨_, _, hsingle, hquantifier⟩

/-- A pattern that can be read is spelled by its text, item by item. -/
theorem parse_readsAll {source : String} {p : Pattern} (h : parse source = .ok p) :
    SpellsPattern source.toList p ∧ ∃ text, ReadsAll {} text p.items := by
  unfold parse at h
  split at h
  · next tail heq =>
    obtain ⟨items, hitems, rfl⟩ := Format.map_eq_ok.mp h
    have hreads := parseItems_readsAll hitems
    rw [heq]
    exact ⟨.anchored hreads.spells, tail, hreads⟩
  · next hcaret =>
    obtain ⟨items, hitems, rfl⟩ := Format.map_eq_ok.mp h
    have hreads := parseItems_readsAll hitems
    refine ⟨.free (fun heq => ?_) hreads.spells, _, hreads⟩
    obtain ⟨tail, heq⟩ := List.head?_eq_some_iff.mp heq
    exact hcaret tail heq

/-- A pattern that can be read closes the captures it opens, and no others. -/
theorem parse_balanced {source : String} {p : Pattern} (h : parse source = .ok p) :
    Balanced 0 p.items := by
  obtain ⟨-, text, hreads⟩ := parse_readsAll h
  exact hreads.balanced

end Pattern

end LuaRuntime
