import LuaRuntime.Proofs.Pattern.Leftmost
import LuaRuntime.Regex.Engine

/-!
# Leftmost-first engines

Of the matches of an expression an engine tells the leftmost one, and of those that start there the
one that backtracking comes to first (`Engine.IsLeftmostFirst`).  This is what is documented of the
engine, for the expressions that `parse?` reads.  The engine that searches by backtracking is one
of these (`backtracking_isLeftmostFirst`).
-/

namespace LuaRuntime

namespace Regex

/-! ## What an engine finds -/

/-- The spans of the groups of a derivation, in the order in which they open. -/
def groupsAlong? (s : String) : List (Item × Nat) → Option (List Span)
  | [] => some []
  | (.openCapture, p) :: along => do
      let q ← closingPlace? 0 along
      let spans ← groupsAlong? s along
      return ⟨.atPosition s p, .atPosition s q⟩ :: spans
  | _ :: along => groupsAlong? s along

theorem groupsAlong?_open {s : String} {p : Nat} {along : List (Item × Nat)} {spans : List Span}
    (h : groupsAlong? s ((.openCapture, p) :: along) = some spans) :
    ∃ q more, closingPlace? 0 along = some q ∧ groupsAlong? s along = some more ∧
      spans = ⟨.atPosition s p, .atPosition s q⟩ :: more := by
  simp only [groupsAlong?, Option.bind_eq_bind, Option.bind_eq_some_iff] at h
  obtain ⟨q, hq, more, hmore, hspans⟩ := h
  exact ⟨q, more, hq, hmore, (Option.some.inj hspans).symm⟩

/-- An expression matches from a place on, in a search that starts at another one.  If it is tied to
the start of the text, it matches only there. -/
def Admits (e : Expression) (text : List Char) (first start : Nat) : Prop :=
  first ≤ start ∧ start ≤ text.length ∧ (e.anchored = true → start = 0) ∧
    ∃ places, Derives text e.items start places

/-- What a search must tell: nothing if no place is admitted, and else the first derivation from the
first place that is. -/
inductive Finds (e : Expression) (s : String) (first : Nat) : Option Captures → Prop
  | none : (∀ start, ¬ Admits e s.toList first start) → Finds e s first none
  | some {start : Nat} {places : List Nat} {spans : List Span} :
      Admits e s.toList first start →
      (∀ other, Admits e s.toList first other → start ≤ other) →
      IsFirst s.toList e.items start places →
      groupsAlong? s (e.items.zip places) = some spans →
      Finds e s first
        (some ⟨some ⟨.atPosition s start, .atPosition s (endOf start places)⟩ :: spans.map some⟩)

/-- Whatever an engine builds finds the leftmost match, and the first one there. -/
def Engine.IsLeftmostFirst (engine : Engine) : Prop :=
  ∀ {source : String} {e : Expression} {r : Regex}, engine source = .ok r →
    parse? source.toList = some e →
    ∀ (s : String) (n : Nat), n ≤ s.length → Finds e s n (r.capturesAt s (.atPosition s n))

/-! ## Expressions that are read -/

/-- Whether an item is one of an expression. -/
def IsItem : Item → Prop
  | .position | .frontier _ => False
  | _ => True

theorem readItem?_isItem {text rest : List Char} {item : Item}
    (h : readItem? text = some (item, rest)) : IsItem item := by
  unfold readItem? at h
  split at h
  · next single tail _ =>
    unfold quantified at h
    split at h
    · cases h
      trivial
    · cases h
      trivial
  · split at h
    · cases h
      trivial
    · cases h
      trivial
    · cases h
      trivial
    · cases h

/-- The groups of an expression that is read are closed, and it has only items of expressions. -/
theorem readItems?_balanced {depth : Nat} {text : List Char} {items : List Item}
    (h : readItems? depth text = some items) :
    Balanced depth items ∧ ∀ item ∈ items, IsItem item := by
  fun_induction readItems? depth text generalizing items with
  | case1 =>
    cases h
    exact ⟨rfl, by simp⟩
  | case2 => cases h
  | case3 depth c text item rest hitem next hnext ih =>
    obtain ⟨more, hmore, rfl⟩ := Option.map_eq_some_iff.mp h
    obtain ⟨hbalanced, hall⟩ := ih hmore
    exact ⟨⟨next, hnext, hbalanced⟩, List.forall_mem_cons.mpr ⟨readItem?_isItem hitem, hall⟩⟩
  | case4 => cases h
  | case5 => cases h

theorem parse?_balanced {text : List Char} {e : Expression} (h : parse? text = some e) :
    Balanced 0 e.items ∧ ∀ item ∈ e.items, IsItem item := by
  unfold parse? at h
  split at h
  · obtain ⟨items, hitems, rfl⟩ := Option.map_eq_some_iff.mp h
    exact readItems?_balanced hitems
  · obtain ⟨items, hitems, rfl⟩ := Option.map_eq_some_iff.mp h
    exact readItems?_balanced hitems
  · cases h

/-! ## The engine that backtracks -/

/-- All captures of an expression are groups. -/
theorem groupsAlong?_of_captures {s : String} {items : List Item}
    (hitems : ∀ item ∈ items, IsItem item) {places : List Nat} {captures : List Capture}
    (h : capturesAlong? s (items.zip places) = some captures) :
    ∃ spans, groupsAlong? s (items.zip places) = some spans ∧
      captures.map spanOf? = spans.map some := by
  induction items generalizing places captures with
  | nil =>
    cases h
    exact ⟨[], rfl, rfl⟩
  | cons item items ih =>
    obtain ⟨hitem, hmore⟩ := List.forall_mem_cons.mp hitems
    cases places with
    | nil =>
      cases h
      exact ⟨[], rfl, rfl⟩
    | cons p places =>
      rw [List.zip_cons_cons] at h ⊢
      cases item with
      | openCapture =>
        obtain ⟨q, others, hq, hothers, rfl⟩ := capturesAlong?_open h
        obtain ⟨spans, hspans, hmap⟩ := ih hmore hothers
        refine ⟨⟨.atPosition s p, .atPosition s q⟩ :: spans, ?_, ?_⟩
        · rw [groupsAlong?, hq, hspans]
          rfl
        · rw [List.map_cons, List.map_cons, hmap]
          rfl
      | one _ => exact ih hmore h
      | repeated _ _ => exact ih hmore h
      | closeCapture => exact ih hmore h
      | endAnchor => exact ih hmore h
      | position => exact hitem.elim
      | frontier _ => exact hitem.elim

theorem admits_iff {e : Expression} {text : List Char} {n start : Nat}
    (hanchored : e.anchored = true → n = 0) : Admits e text n start ↔ e.Admits text n start := by
  refine and_congr_right fun _ => and_congr_right fun _ => and_congr_left fun _ => ?_
  exact forall_congr' fun h => by rw [hanchored h]

/-- An expression that is searched for by backtracking finds what it must. -/
theorem ofExpression_finds {e : Expression} (hbalanced : Balanced 0 e.items)
    (hitems : ∀ item ∈ e.items, IsItem item) {s : String} {n : Nat} (hn : n ≤ s.length) :
    Finds e s n ((ofExpression e).capturesAt s (.atPosition s n)) := by
  by_cases hanchored : e.anchored = true → n = 0
  · have hcaptures : (ofExpression e).capturesAt s (.atPosition s n) =
        (e.find s (.atPosition s n)).map capturesOfMatch := by
      refine if_neg ?_
      rw [Cursor.position_atPosition, Bool.and_eq_true, bne_iff_ne]
      exact fun h => h.2 (hanchored h.1)
    rw [hcaptures]
    cases hfind : e.find s (.atPosition s n) with
    | none =>
      refine .none fun start h => ?_
      exact (Pattern.find_eq_none_iff hn).mp hfind start ((admits_iff hanchored).mp h)
    | some m =>
      obtain ⟨start, places, hadmits, hleast, hfirst, hstart, hstop, hmarks⟩ :=
        Pattern.isLeftmost_of_find hbalanced hn hfind
      obtain ⟨spans, hspans, hmap⟩ := groupsAlong?_of_captures hitems hmarks
      rw [Option.map_some, capturesOfMatch, hmap, hstart, hstop]
      exact .some ((admits_iff hanchored).mpr hadmits)
        (fun other h => hleast other ((admits_iff hanchored).mp h)) hfirst hspans
  · obtain ⟨hanchored, hne⟩ := Classical.not_imp.mp hanchored
    have hcaptures : (ofExpression e).capturesAt s (.atPosition s n) = none := by
      refine if_pos ?_
      rw [Cursor.position_atPosition, hanchored, Bool.true_and, bne_iff_ne]
      exact hne
    rw [hcaptures]
    refine .none fun start h => ?_
    have := h.1
    have := h.2.2.1 hanchored
    omega

/-- The engine that searches by backtracking is leftmost-first. -/
theorem backtracking_isLeftmostFirst : backtracking.IsLeftmostFirst := by
  intro source e r hr he s n hn
  rw [backtracking, he] at hr
  dsimp only at hr
  split at hr
  · cases hr
  · cases hr
    obtain ⟨hbalanced, hitems⟩ := parse?_balanced he
    exact ofExpression_finds hbalanced hitems hn

end Regex

end LuaRuntime
