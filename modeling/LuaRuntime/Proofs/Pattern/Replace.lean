import LuaRuntime.Pattern.Replace
import LuaRuntime.Proofs.Pattern.Walk
import Mathlib.Data.List.Chain

/-!
# Replacing the matches of a sequence

`splicedFrom` says which characters a text with its matches replaced has: what stands between the
matches, unchanged, and the replacements in their places.  `replaceMatches` gives these characters
for matches that stand in order.  A match replaced by itself changes nothing.

Of the templates, `%0` stands for the match, and a text with its percent signs doubled for that
text.
-/

namespace LuaRuntime

/-! ## Matches in order -/

/-- Matches stand one after the other, from a position on. -/
def InOrder (s : String) : (position : Nat) → List Match → Prop
  | n, [] => n ≤ s.length
  | n, m :: more => ∃ a b, n ≤ a ∧ m.Between s a b ∧ InOrder s b more

theorem inOrder_of_isChain {s : String} {n : Nat} {found : List Match} (hn : n ≤ s.length)
    (hall : ∀ m ∈ found, ∃ a b, m.Between s a b) (hchain : found.IsChain Match.Follows)
    (hhead : ∀ m ∈ found.head?, n ≤ m.start.position) : InOrder s n found := by
  induction found generalizing n with
  | nil => exact hn
  | cons m more ih =>
    obtain ⟨a, b, hbetween⟩ := hall m List.mem_cons_self
    have ⟨hab, hb, hstart, hstop⟩ := hbetween
    refine ⟨a, b, ?_, hbetween, ih hb (fun m' hm' => ?_) hchain.tail fun m' hm' => ?_⟩
    · have := hhead m rfl
      rwa [hstart, Cursor.position_atPosition] at this
    · exact hall m' (List.mem_cons_of_mem m hm')
    · cases more with
      | nil => cases hm'
      | cons _ _ =>
        cases hm'
        have hfollows := (List.isChain_cons_cons.mp hchain).1.1
        rwa [hstop, Cursor.position_atPosition] at hfollows

/-- The matches that a cap leaves of a sequence stand in order. -/
theorem inOrder_capped {s : String} {found : List Match}
    (hall : ∀ m ∈ found, ∃ a b, m.Between s a b) (hchain : found.IsChain Match.Follows)
    (cap : Option Int) : InOrder s 0 (capped found cap) := by
  cases cap with
  | none => exact inOrder_of_isChain (Nat.zero_le _) hall hchain fun _ _ => Nat.zero_le _
  | some n =>
    refine inOrder_of_isChain (Nat.zero_le _) (fun m hm => ?_) (hchain.take _)
      fun _ _ => Nat.zero_le _
    exact hall m (List.mem_of_mem_take hm)

/-! ## Splicing -/

/-- The characters of a text from a position on, with texts in the places of matches. -/
def splicedFrom (text : List Char) : (position : Nat) → List (Match × String) → List Char
  | n, [] => text.drop n
  | n, (m, replacement) :: more =>
      (text.take m.start.position).drop n ++
        (replacement.toList ++ splicedFrom text m.stop.position more)

/-- The text with texts in the places of matches. -/
def spliced (s : String) (replacements : List (Match × String)) : String :=
  String.ofList (splicedFrom s.toList 0 replacements)

theorem flatMap_replacedParts {s : String} {n : Nat} {replacements : List (Match × String)}
    (h : InOrder s n (replacements.map Prod.fst)) :
    (replacedParts s (.atPosition s n) replacements).flatMap String.toList =
      splicedFrom s.toList n replacements := by
  induction replacements generalizing n with
  | nil =>
    have hn : n ≤ s.length := h
    rw [replacedParts, ← Cursor.atPosition_length, Cursor.textTo_atPosition hn (Nat.le_refl _),
      List.flatMap_singleton, String.toList_ofList, ← String.length_toList, List.take_length,
      splicedFrom]
  | cons head more ih =>
    obtain ⟨m, replacement⟩ := head
    obtain ⟨a, b, hna, ⟨hab, hb, hstart, hstop⟩, hmore⟩ := h
    rw [replacedParts, hstart, hstop, Cursor.textTo_atPosition hna (by omega), List.flatMap_cons,
      List.flatMap_cons, ih hmore, String.toList_ofList, splicedFrom, hstart, hstop,
      Cursor.position_atPosition, Cursor.position_atPosition]

/-- Replacing matches that stand in order splices the text. -/
theorem replaceMatches_eq_spliced {s : String} {replacements : List (Match × String)}
    (h : InOrder s 0 (replacements.map Prod.fst)) :
    replaceMatches s replacements = spliced s replacements := by
  rw [replaceMatches, spliced, ← Cursor.atPosition_zero s, ← flatMap_replacedParts h,
    ← String.toList_join, String.ofList_toList]

theorem Match.Between.whole {m : Match} {s : String} {a b : Nat} (h : m.Between s a b) :
    m.whole s = String.ofList ((s.toList.take b).drop a) := by
  obtain ⟨hab, hb, hstart, hstop⟩ := h
  rw [Match.whole, hstart, hstop, Cursor.textTo_atPosition hab hb]

theorem drop_take_append_drop {a b : Nat} (h : a ≤ b) (text : List Char) :
    (text.take b).drop a ++ text.drop b = text.drop a := by
  have hdrop : text.drop b = (text.drop a).drop (b - a) := by
    rw [List.drop_drop, Nat.add_sub_cancel' h]
  rw [List.drop_take, hdrop, List.take_append_drop]

/-- Matches that are replaced by themselves leave the text as it is. -/
theorem splicedFrom_whole {s : String} {n : Nat} {found : List Match} (h : InOrder s n found) :
    splicedFrom s.toList n (found.map fun m => (m, m.whole s)) = s.toList.drop n := by
  induction found generalizing n with
  | nil => rfl
  | cons m more ih =>
    obtain ⟨a, b, hna, hbetween, hmore⟩ := h
    have ⟨hab, hb, hstart, hstop⟩ := hbetween
    -- The gap before the match, the match and the rest are put together again.
    rw [List.map_cons, splicedFrom, hstart, hstop, Cursor.position_atPosition,
      Cursor.position_atPosition, ih hmore, hbetween.whole, String.toList_ofList,
      drop_take_append_drop hab, drop_take_append_drop hna]

theorem spliced_whole {s : String} {found : List Match} (h : InOrder s 0 found) :
    spliced s (found.map fun m => (m, m.whole s)) = s := by
  rw [spliced, splicedFrom_whole h, List.drop_zero, String.ofList_toList]

/-! ## Templates -/

/-- A text with its percent signs doubled. -/
def doublePercents : List Char → List Char
  | [] => []
  | c :: text => if c = '%' then '%' :: '%' :: doublePercents text else c :: doublePercents text

theorem expandTemplate_whole (s : String) (m : Match) :
    expandTemplate s m ['%', '0'] = .ok (m.whole s).toList := by
  have hescape : templateEscape s m '0' = .ok (m.whole s).toList := rfl
  rw [expandTemplate, hescape]
  exact congrArg Except.ok (List.append_nil _)

/-- A template with doubled percent signs stands for the text as it is, at every match. -/
theorem expandTemplate_doublePercents (s : String) (m : Match) (text : List Char) :
    expandTemplate s m (doublePercents text) = .ok text := by
  induction text with
  | nil => rfl
  | cons c text ih =>
    rw [doublePercents]
    split
    · next hc =>
      rw [expandTemplate, ih, hc]
      rfl
    · next hc =>
      rw [expandTemplate, ih]
      · rfl
      · intro d rest h _
        exact hc h
      · intro h _
        exact hc h

end LuaRuntime
