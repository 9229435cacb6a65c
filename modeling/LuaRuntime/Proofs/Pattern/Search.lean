import LuaRuntime.Proofs.Pattern.Repetition

/-!
# The search finds the first derivation

Every attempt meets its items (`attempt_meets`), by induction over the items.  A search from place
to place keeps the failures it knows, and so it finds the first place that has a derivation and the
first derivation there (`find_found`).
-/

namespace LuaRuntime

/-! ## Items -/

/-- Every attempt tells the truth about its items. -/
theorem attempt_meets (s : String) (base i : Nat) (items : List Item) :
    Meets s base i items (attempt s i items) := by
  induction items generalizing i with
  | nil =>
    intro facts _ p known _ _ _
    exact ⟨[], isFirst_nil, rfl⟩
  | cons item rest ih =>
    intro facts hnotes p known hp hle hknown
    cases item with
    | one single =>
      rw [attempt]
      split
      · next hfits =>
        rw [single.fits_iff hle] at hfits
        have hlt := hfits.lt_stringLength
        rw [Cursor.next_atPosition]
        refine (ih i facts hnotes (p + 1) known (by omega) hlt hknown).cons (.one hfits) ?_ rfl
        rintro r ⟨⟩
        rfl
      · next hfits =>
        rw [single.fits_iff hle] at hfits
        refine Trial.tells_failure hknown fun q hstep => ?_
        cases hstep with
        | one h => exact hfits h
    | repeated single repetition =>
      cases repetition with
      | many =>
        rw [attempt]
        exact tryLongest_tells (ih (i + 1)) hnotes hp hle hknown
      | some =>
        rw [attempt]
        split
        · next hfits =>
          rw [single.fits_iff hle] at hfits
          have hlt := hfits.lt_stringLength
          rw [Cursor.next_atPosition]
          exact (tryLongest_tells (ih (i + 1)) hnotes (by omega) hlt hknown).some_of_many hfits
        · next hfits =>
          rw [single.fits_iff hle] at hfits
          exact ⟨fun places hd => hfits (derives_some.mp hd).1, hknown⟩
      | optional =>
        rw [attempt]
        exact tryOptional_tells (ih (i + 1)) hnotes hp hle hknown
      | fewest =>
        rw [attempt, Cursor.position_atPosition]
        refine tryShortest_tells (ih (i + 1)) hnotes hp _ (by omega) (.refl single s.toList p) ?_
          (hknown.mono fun _ _ => .inl)
        intro r hr hlt
        omega
    | position =>
      rw [attempt]
      refine (ih i facts hnotes p known hp hle hknown).mark .position ?_ rfl
      rintro r ⟨⟩
      rfl
    | openCapture =>
      rw [attempt]
      refine (ih i facts hnotes p known hp hle hknown).mark .openCapture ?_ rfl
      rintro r ⟨⟩
      rfl
    | closeCapture =>
      rw [attempt]
      refine (ih i facts hnotes p known hp hle hknown).mark .closeCapture ?_ rfl
      rintro r ⟨⟩
      rfl
    | endAnchor =>
      rw [attempt]
      split
      · next hend =>
        rw [Cursor.isEnd_atPosition hle, decide_eq_true_iff, ← String.length_toList] at hend
        refine (ih i facts hnotes p known hp hle hknown).cons (.endAnchor hend) ?_ rfl
        rintro r ⟨⟩
        rfl
      · next hend =>
        rw [Cursor.isEnd_atPosition hle, decide_eq_true_iff, ← String.length_toList] at hend
        refine Trial.tells_failure hknown fun q hstep => ?_
        cases hstep with
        | endAnchor h => exact hend h
    | frontier members =>
      rw [attempt]
      split
      · next hbounds =>
        rw [members.bounds_iff hle] at hbounds
        refine (ih i facts hnotes p known hp hle hknown).cons
          (.frontier hbounds.1 hbounds.2) ?_ rfl
        rintro r ⟨⟩
        rfl
      · next hbounds =>
        rw [members.bounds_iff hle] at hbounds
        refine Trial.tells_failure hknown fun q hstep => ?_
        cases hstep with
        | frontier hprior hnext => exact hbounds ⟨hprior, hnext⟩

/-! ## All places -/

/-- The facts that the repetitions of some items, numbered from one on, fail. -/
def failsFrom (text : List Char) : Nat → List Item → Nat → Nat → Prop
  | _, [], _, _ => False
  | i, .repeated single repetition :: rest, r, n =>
      if r = i then Fails text (.repeated single repetition.noted :: rest) n
      else failsFrom text (i + 1) rest r n
  | i, _ :: rest, r, n => failsFrom text i rest r n

theorem notes_failsFrom (text : List Char) (i : Nat) (items : List Item) :
    Notes text (failsFrom text i items) i items := by
  induction items generalizing i with
  | nil => trivial
  | cons item rest ih =>
    cases item with
    | repeated single repetition =>
      refine ⟨fun n => by simp [failsFrom], (ih (i + 1)).congr fun r n hr => ?_⟩
      rw [failsFrom, if_neg (by omega)]
    | one _ => exact ih i
    | position => exact ih i
    | openCapture => exact ih i
    | closeCapture => exact ih i
    | endAnchor => exact ih i
    | frontier _ => exact ih i

namespace Pattern

/-- What a search of the places from one to another must give: the first derivation from the
first place that has one, or nothing if there is none. -/
def Found (s : String) (items : List Item) (first last : Nat) : Option Match → Prop
  | some m => ∃ start places, first ≤ start ∧ start ≤ last ∧
      (∀ q, first ≤ q → q < start → Fails s.toList items q) ∧
      IsFirst s.toList items start places ∧
      m = (endingAlong s items start places).toMatch (.atPosition s start)
  | none => ∀ q, first ≤ q → q ≤ last → Fails s.toList items q

variable {s : String} {items : List Item}

/-- A search may start before a place if there is no derivation from the places passed. -/
theorem Found.of_fails {first middle last : Nat} {result : Option Match}
    (h : Found s items middle last result) (hle : first ≤ middle)
    (hfails : ∀ q, first ≤ q → q < middle → Fails s.toList items q) :
    Found s items first last result := by
  cases result with
  | some m =>
    obtain ⟨start, places, hmiddle, hlast, hleast, hfirst, hm⟩ := h
    refine ⟨start, places, Nat.le_trans hle hmiddle, hlast, fun q hq hlt => ?_, hfirst, hm⟩
    by_cases hq' : middle ≤ q
    · exact hleast q hq' hlt
    · exact hfails q hq (Nat.lt_of_not_le hq')
  | none =>
    intro q hq hlast
    by_cases hq' : middle ≤ q
    · exact h q hq' hlast
    · exact hfails q hq (Nat.lt_of_not_le hq')

theorem Found.extend {first middle last : Nat} {result : Option Match}
    (h : Found s items first middle result) (hle : middle ≤ last)
    (hfails : ∀ q, middle < q → q ≤ last → Fails s.toList items q) :
    Found s items first last result := by
  cases result with
  | some m =>
    obtain ⟨start, places, hfrom, hto, hrest⟩ := h
    exact ⟨start, places, hfrom, by omega, hrest⟩
  | none =>
    intro q hq hlast
    by_cases hmiddle : q ≤ middle
    · exact h q hq hmiddle
    · exact hfails q (by omega) hlast

theorem firstMatch_found {base : Nat} (further : Nat) {p : Nat} {known : Failures}
    (hp : base ≤ p) (hle : p + further ≤ s.length)
    (hknown : known.Holds base (failsFrom s.toList 0 items)) :
    Found s items p (p + further) (firstMatch s items further (.atPosition s p) known) := by
  have hnotes := notes_failsFrom s.toList 0 items
  generalize hc : Cursor.atPosition s p = c
  fun_induction firstMatch s items further c known generalizing p with
  | case1 further c known ending hsuccess =>
    subst hc
    obtain ⟨places, hfirst, rfl⟩ :=
      (attempt_meets s base 0 items).of_success hnotes hp (by omega) hknown hsuccess
    exact ⟨p, places, by omega, by omega, fun q _ _ => by omega, hfirst, rfl⟩
  | case2 c known known' hfailure =>
    subst hc
    intro q hq hq'
    have : q = p := by omega
    exact this ▸ ((attempt_meets s base 0 items).of_failure hnotes hp hle hknown hfailure).1
  | case3 c known known' hfailure further ih =>
    subst hc
    obtain ⟨hfail, hnow⟩ :=
      (attempt_meets s base 0 items).of_failure hnotes hp (by omega) hknown hfailure
    have hnext := ih (p := p + 1) (by omega) (by omega) hnow (Cursor.next_atPosition s p).symm
    rw [Nat.add_assoc, Nat.add_comm 1 further] at hnext
    refine hnext.of_fails (Nat.le_succ p) fun q hq hlt => ?_
    obtain rfl : q = p := by omega
    exact hfail

/-- The last place a search looks at. -/
def lastStart (p : Pattern) (s : String) (n : Nat) : Nat := if p.anchored then n else s.length

/-- A search looks for a derivation at all places from its start on, or at the start alone. -/
theorem find_found (p : Pattern) {n : Nat} (hn : n ≤ s.length) :
    Found s p.items n (p.lastStart s n) (p.find s (.atPosition s n)) := by
  -- Where fewer characters are left than a match has, there is no derivation.
  have hshort : ∀ q, q ≤ s.length → s.length < q + p.leastLength → Fails s.toList p.items q := by
    intro q hq hlt places hd
    have hleast := hd.leastLength_le
    have hend := hd.endOf_le_length (by rwa [String.length_toList])
    rw [String.length_toList] at hend
    rw [leastLength] at hlt
    omega
  by_cases hleft : s.length - n < p.leastLength
  · rw [find, Cursor.position_atPosition, if_pos hleft]
    intro q hq hlast
    have hlast : q ≤ s.length := by
      unfold lastStart at hlast
      split at hlast <;> omega
    exact hshort q hlast (by omega)
  · rw [find, Cursor.position_atPosition, if_neg hleft]
    have hknown := Failures.holds_none n p.repetitions (failsFrom s.toList 0 p.items)
    cases hanchored : p.anchored with
    | true =>
      rw [lastStart, hanchored, if_pos rfl, if_pos rfl]
      exact firstMatch_found 0 (Nat.le_refl n) hn hknown
    | false =>
      rw [lastStart, hanchored, if_neg Bool.false_ne_true, if_neg Bool.false_ne_true]
      refine (firstMatch_found _ (Nat.le_refl n) (by omega) hknown).extend (by omega) ?_
      intro q hq hlast
      exact hshort q hlast (by omega)

/-- A match lies between two places of the text, neither of them before the start of the
search. -/
theorem places_of_find {p : Pattern} {n : Nat} (hn : n ≤ s.length) {m : Match}
    (h : p.find s (.atPosition s n) = some m) :
    ∃ a b, n ≤ a ∧ a ≤ b ∧ b ≤ s.length ∧ m.start = .atPosition s a ∧
      m.stop = .atPosition s b := by
  have hfound := p.find_found hn
  rw [h] at hfound
  obtain ⟨start, places, hle, hlast, _, hfirst, rfl⟩ := hfound
  have hstart : start ≤ s.length := by
    unfold lastStart at hlast
    split at hlast <;> omega
  have hstop := hfirst.1.endOf_le_length (by rwa [String.length_toList])
  rw [String.length_toList] at hstop
  exact ⟨start, endOf start places, hle, hfirst.1.le_endOf, hstop, rfl, rfl⟩

end Pattern

end LuaRuntime
