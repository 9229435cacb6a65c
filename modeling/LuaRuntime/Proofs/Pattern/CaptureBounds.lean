import LuaRuntime.Proofs.Pattern.Leftmost
import LuaRuntime.Proofs.Pattern.Walk

/-!
# Where captures lie

The places of a derivation ascend, so that everything a derivation captures lies between its start
and its end.  A pattern that closes what it opens has one capture for each item that opens one or
captures a position, whatever the text (`find_captures`).
-/

namespace LuaRuntime

/-- The number of captures of a pattern. -/
def Pattern.captureCount (p : Pattern) : Nat := p.items.countP Item.capturesHere

/-- A capture lies between two positions of a text.  A captured position counts from 1. -/
def Capture.Within (s : String) (a b : Nat) : Capture → Prop
  | .text start stop =>
      ∃ p q, a ≤ p ∧ p ≤ q ∧ q ≤ b ∧ start = .atPosition s p ∧ stop = .atPosition s q
  | .position place => a + 1 ≤ place ∧ place ≤ b + 1

theorem Capture.Within.mono {s : String} {a a' b : Nat} {c : Capture} (h : c.Within s a b)
    (ha : a' ≤ a) : c.Within s a' b := by
  cases c with
  | text start stop =>
    obtain ⟨p, q, hp, hrest⟩ := h
    exact ⟨p, q, Nat.le_trans ha hp, hrest⟩
  | position place => exact ⟨Nat.le_trans (Nat.succ_le_succ ha) h.1, h.2⟩

section

variable {s : String} {text : List Char} {items : List Item} {p : Nat} {places : List Nat}

/-- A capture is closed after the place where a derivation starts, and not after its end. -/
theorem Derives.closingPlace?_between (h : Derives text items p places) {depth q : Nat}
    (hq : closingPlace? depth (items.zip places) = some q) : p ≤ q ∧ q ≤ endOf p places := by
  induction h generalizing depth with
  | nil => simp [closingPlace?] at hq
  | @cons item items p r places hstep hrest ih =>
    have hle : p ≤ r := Nat.le_trans (Nat.le_add_right _ _) hstep.leastLength_le
    have hafter {depth : Nat} (h : closingPlace? depth (items.zip places) = some q) :
        p ≤ q ∧ q ≤ endOf p (r :: places) := by
      rw [endOf_cons]
      exact ⟨Nat.le_trans hle (ih h).1, (ih h).2⟩
    rw [List.zip_cons_cons] at hq
    cases item with
    | closeCapture =>
      cases depth with
      | zero =>
        obtain rfl : r = q := Option.some.inj hq
        exact ⟨hle, by rw [endOf_cons]; exact hrest.le_endOf⟩
      | succ depth => exact hafter hq
    | openCapture => exact hafter hq
    | one _ => exact hafter hq
    | repeated _ _ => exact hafter hq
    | position => exact hafter hq
    | endAnchor => exact hafter hq
    | frontier _ => exact hafter hq

/-- What a derivation captures lies between its start and its end. -/
theorem Derives.captures_within (h : Derives text items p places) {captures : List Capture}
    (hcaptures : capturesAlong? s (items.zip places) = some captures) :
    ∀ c ∈ captures, c.Within s p (endOf p places) := by
  induction h generalizing captures with
  | nil =>
    obtain rfl : captures = [] := (Option.some.inj hcaptures).symm
    simp
  | @cons item items p q places hstep hrest ih =>
    have hle : p ≤ q := Nat.le_trans (Nat.le_add_right _ _) hstep.leastLength_le
    have hafter {more : List Capture} (h : capturesAlong? s (items.zip places) = some more) :
        ∀ c ∈ more, c.Within s p (endOf p (q :: places)) := by
      intro c hc
      rw [endOf_cons]
      exact (ih h c hc).mono hle
    rw [List.zip_cons_cons] at hcaptures
    cases item with
    | openCapture =>
      obtain ⟨stop, more, hstop, hmore, rfl⟩ := capturesAlong?_open hcaptures
      obtain ⟨hfrom, hto⟩ := hrest.closingPlace?_between hstop
      refine List.forall_mem_cons.mpr ⟨?_, hafter hmore⟩
      exact ⟨q, stop, hle, hfrom, by rwa [endOf_cons], rfl, rfl⟩
    | position =>
      obtain ⟨more, hmore, rfl⟩ := Option.map_eq_some_iff.mp hcaptures
      refine List.forall_mem_cons.mpr ⟨⟨Nat.succ_le_succ hle, ?_⟩, hafter hmore⟩
      rw [endOf_cons]
      exact Nat.succ_le_succ hrest.le_endOf
    | closeCapture => exact hafter hcaptures
    | one _ => exact hafter hcaptures
    | repeated _ _ => exact hafter hcaptures
    | endAnchor => exact hafter hcaptures
    | frontier _ => exact hafter hcaptures

/-- A derivation has one capture for each item that starts one. -/
theorem Derives.length_captures (h : Derives text items p places) {captures : List Capture}
    (hcaptures : capturesAlong? s (items.zip places) = some captures) :
    captures.length = items.countP Item.capturesHere := by
  induction h generalizing captures with
  | nil =>
    obtain rfl : captures = [] := (Option.some.inj hcaptures).symm
    rfl
  | @cons item items p q places hstep hrest ih =>
    rw [List.zip_cons_cons] at hcaptures
    cases item with
    | openCapture =>
      obtain ⟨stop, more, hstop, hmore, rfl⟩ := capturesAlong?_open hcaptures
      rw [List.length_cons, ih hmore, List.countP_cons_of_pos rfl]
    | position =>
      obtain ⟨more, hmore, rfl⟩ := Option.map_eq_some_iff.mp hcaptures
      rw [List.length_cons, ih hmore, List.countP_cons_of_pos rfl]
    | closeCapture => simpa [Item.capturesHere] using ih hcaptures
    | one _ => simpa [Item.capturesHere] using ih hcaptures
    | repeated _ _ => simpa [Item.capturesHere] using ih hcaptures
    | endAnchor => simpa [Item.capturesHere] using ih hcaptures
    | frontier _ => simpa [Item.capturesHere] using ih hcaptures

end

/-- A match that a search finds lies between two positions, neither of them before the start of
the search, with as many captures as the pattern has, and all of them in between. -/
theorem Pattern.find_captures {p : Pattern} (hbalanced : Balanced 0 p.items) {s : String} {n : Nat}
    (hn : n ≤ s.length) {m : Match} (h : p.find s (.atPosition s n) = some m) :
    ∃ a b, n ≤ a ∧ m.Between s a b ∧ m.captures.length = p.captureCount ∧
      ∀ c ∈ m.captures, c.Within s a b := by
  obtain ⟨start, places, hadmits, -, hfirst, hstart, hstop, hcaptures⟩ :=
    isLeftmost_of_find hbalanced hn h
  have hle : start ≤ s.toList.length := hadmits.2.1
  have hend := hfirst.1.endOf_le_length hle
  rw [String.length_toList] at hend
  exact ⟨start, endOf start places, hadmits.1, ⟨hfirst.1.le_endOf, hend, hstart, hstop⟩,
    hfirst.1.length_captures hcaptures, hfirst.1.captures_within hcaptures⟩

end LuaRuntime
