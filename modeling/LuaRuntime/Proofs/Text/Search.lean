import LuaRuntime.Text.Search
import LuaRuntime.Proofs.Text.Place

/-!
# The first place of a text in another

`Text.find?` gives the first place from its start on at which the wanted text stands
(`find?_finds`).  A place at which the fingerprints differ is passed over without a look at the
text.  That is right because the window moves with the place: it always is the fingerprint of as
many characters from there on as the wanted text has (`fingerprint_roll`).
-/

namespace LuaRuntime

namespace Text

/-! ## Fingerprints -/

/-- A fingerprint continued by the characters of a list. -/
def fingerprintList (sum : UInt64) (text : List Char) : UInt64 :=
  text.foldl (fun sum c => sum * fingerprintBase + charWeight c) sum

theorem leadingWeight_succ (n : Nat) :
    leadingWeight (n + 1) * fingerprintBase = leadingWeight (n + 2) := rfl

/-- A sum in front of some characters counts as many powers of the base as there are
characters. -/
theorem fingerprintList_eq (sum : UInt64) (text : List Char) :
    fingerprintList sum text =
      sum * leadingWeight (text.length + 1) + fingerprintList 0 text := by
  induction text generalizing sum with
  | nil =>
    have hone : leadingWeight 1 = 1 := rfl
    simp only [fingerprintList, List.foldl_nil, List.length_nil, Nat.zero_add, hone]
    grind
  | cons c rest ih =>
    have hcons (sum : UInt64) : fingerprintList sum (c :: rest) =
        fingerprintList (sum * fingerprintBase + charWeight c) rest := rfl
    rw [hcons, hcons, ih, ih (0 * fingerprintBase + charWeight c), List.length_cons,
      ← leadingWeight_succ]
    grind

/-- The window of the next place: one character leaves and one enters. -/
theorem fingerprint_roll (c d : Char) (rest : List Char) :
    (fingerprintList 0 (c :: rest) - charWeight c * leadingWeight (rest.length + 1)) *
        fingerprintBase + charWeight d =
      fingerprintList 0 (rest ++ [d]) := by
  have hcons : fingerprintList 0 (c :: rest) =
      fingerprintList (0 * fingerprintBase + charWeight c) rest := rfl
  have happend : fingerprintList 0 (rest ++ [d]) =
      fingerprintList 0 rest * fingerprintBase + charWeight d := by
    rw [fingerprintList, List.foldl_append]
    rfl
  rw [hcons, fingerprintList_eq, happend]
  grind

theorem fingerprintFrom_succ (s : String) (count : Nat) (offset : String.Pos.Raw) (sum : UInt64) :
    fingerprintFrom s (count + 1) offset sum =
      fingerprintFrom s count (offset.next s)
        (sum * fingerprintBase + charWeight (offset.get s)) := by
  -- Without this step the kernel compares the two sums first, and counts the base down to zero.
  delta fingerprintFrom
  rfl

theorem fingerprintFrom_atPosition {s : String} (count : Nat) {n : Nat}
    (h : n + count ≤ s.length) (sum : UInt64) :
    fingerprintFrom s count (Cursor.atPosition s n).offset sum =
      fingerprintList sum ((s.toList.drop n).take count) := by
  induction count generalizing n sum with
  | zero => rfl
  | succ count ih =>
    have hn : n < s.toList.length := by
      rw [String.length_toList]
      omega
    have hget : (Cursor.atPosition s n).offset.get s = s.toList[n] := Cursor.get_atPosition hn
    have hnext : (Cursor.atPosition s n).offset.next s = (Cursor.atPosition s (n + 1)).offset := by
      rw [← Cursor.next_atPosition]
      rfl
    rw [fingerprintFrom_succ, hget, hnext, ih (by omega), List.drop_eq_getElem_cons hn,
      List.take_succ_cons]
    rfl

/-! ## Places at which a text stands -/

/-- A list of characters stands in another one at a position. -/
def StandsAt (text wanted : List Char) (n : Nat) : Prop := wanted <+: text.drop n

theorem standsAt_iff_take {text wanted : List Char} {n : Nat} :
    StandsAt text wanted n ↔ (text.drop n).take wanted.length = wanted := by
  rw [StandsAt, List.prefix_iff_eq_take, eq_comm]

theorem StandsAt.le_length {text wanted : List Char} {n : Nat} (h : StandsAt text wanted n)
    (hn : n ≤ text.length) : n + wanted.length ≤ text.length := by
  have := List.IsPrefix.length_le h
  rw [List.length_drop] at this
  omega

/-- The text between two places is the wanted one if that stands at the first place. -/
theorem textTo_beq_iff {s wanted : String} {n : Nat} (h : n + wanted.length ≤ s.length) :
    ((Cursor.atPosition s n).textTo s (.atPosition s (n + wanted.length)) == wanted) = true ↔
      StandsAt s.toList wanted.toList n := by
  rw [beq_iff_eq, Cursor.textTo_atPosition (by omega) h, standsAt_iff_take,
    ← String.toList_inj, String.toList_ofList, List.drop_take, String.length_toList,
    Nat.add_sub_cancel_left]

/-! ## The search -/

theorem forward_atPosition (s : String) (count n : Nat) :
    (Cursor.atPosition s n).forward s count = .atPosition s (n + count) := by
  induction count generalizing n with
  | zero => rfl
  | succ count ih =>
    have hnext := ih (n + 1)
    rw [← Cursor.next_atPosition, Nat.add_assoc, Nat.add_comm 1 count] at hnext
    rw [← hnext]
    simp only [Cursor.forward, Cursor.next, Cursor.offsetAfter, Nat.add_assoc, Nat.add_comm 1]

/-- What a search of the places from one to another must give: the first one at which the wanted
text stands, or nothing if there is none. -/
def Finds (s wanted : String) (first last : Nat) : Option Cursor → Prop
  | some c => ∃ n, first ≤ n ∧ n ≤ last ∧ c = .atPosition s n ∧
      StandsAt s.toList wanted.toList n ∧
      ∀ k, first ≤ k → k < n → ¬ StandsAt s.toList wanted.toList k
  | none => ∀ k, first ≤ k → k ≤ last → ¬ StandsAt s.toList wanted.toList k

theorem Finds.of_not_stands {s wanted : String} {first last : Nat} {result : Option Cursor}
    (h : Finds s wanted (first + 1) last result)
    (hfirst : ¬ StandsAt s.toList wanted.toList first) : Finds s wanted first last result := by
  have hbefore : ∀ {k}, first ≤ k → ¬ first + 1 ≤ k → ¬ StandsAt s.toList wanted.toList k := by
    intro k hk hk'
    have : k = first := by omega
    exact this ▸ hfirst
  cases result with
  | some c =>
    obtain ⟨n, hle, hlast, hc, hstands, hleast⟩ := h
    refine ⟨n, by omega, hlast, hc, hstands, fun k hk hlt => ?_⟩
    by_cases hk' : first + 1 ≤ k
    · exact hleast k hk' hlt
    · exact hbefore hk hk'
  | none =>
    intro k hk hlast
    by_cases hk' : first + 1 ≤ k
    · exact h k hk' hlast
    · exact hbefore hk hk'

theorem Finds.extend {s wanted : String} {first middle last : Nat} {result : Option Cursor}
    (h : Finds s wanted first middle result) (hle : middle ≤ last)
    (hnot : ∀ k, middle < k → k ≤ last → ¬ StandsAt s.toList wanted.toList k) :
    Finds s wanted first last result := by
  cases result with
  | some c =>
    obtain ⟨n, hfrom, hto, hrest⟩ := h
    exact ⟨n, hfrom, by omega, hrest⟩
  | none =>
    intro k hk hlast
    by_cases hmiddle : k ≤ middle
    · exact h k hk hmiddle
    · exact hnot k (by omega) hlast

/-- The fingerprint of the characters that stand where the wanted text may stand. -/
def window (s wanted : String) (n : Nat) : UInt64 :=
  fingerprintList 0 ((s.toList.drop n).take wanted.length)

/-- The fingerprints are compared for speed only: where the text stands, they agree. -/
theorem found_iff {s wanted : String} {n : Nat} (h : n + wanted.length ≤ s.length) :
    (window s wanted n == fingerprintList 0 wanted.toList &&
        (Cursor.atPosition s n).textTo s (.atPosition s (n + wanted.length)) == wanted) = true ↔
      StandsAt s.toList wanted.toList n := by
  rw [Bool.and_eq_true, textTo_beq_iff h, and_iff_right_iff_imp]
  intro hstands
  rw [standsAt_iff_take, String.length_toList] at hstands
  rw [window, hstands, beq_self_eq_true]

theorem window_succ {s wanted : String} {n : Nat} (hpos : 0 < wanted.length)
    (h : n + wanted.length < s.length) :
    (window s wanted n - charWeight ((Cursor.atPosition s n).get s) * leadingWeight wanted.length) *
          fingerprintBase + charWeight ((Cursor.atPosition s (n + wanted.length)).get s) =
      window s wanted (n + 1) := by
  obtain ⟨length, hlength⟩ := Nat.exists_eq_add_one_of_ne_zero (Nat.ne_of_gt hpos)
  rw [← String.length_toList (s := s)] at h
  have hn : n < s.toList.length := by omega
  have hlt : length < (s.toList.drop (n + 1)).length := by
    rw [List.length_drop]
    omega
  have hlast : (s.toList.drop (n + 1))[length] = s.toList[n + wanted.length] := by
    rw [List.getElem_drop]
    congr 1
    omega
  have hroll := fingerprint_roll s.toList[n] s.toList[n + wanted.length]
    ((s.toList.drop (n + 1)).take length)
  rw [List.length_take_of_le (Nat.le_of_lt hlt), ← hlast, ← List.take_succ_eq_append_getElem hlt,
    ← List.take_succ_cons, ← List.drop_eq_getElem_cons hn, hlast, ← hlength] at hroll
  rw [window, window, Cursor.get_atPosition hn, Cursor.get_atPosition h]
  exact hroll

theorem findFrom_finds (s wanted : String) (further : Nat) {n : Nat}
    (h : n + further + wanted.length ≤ s.length) :
    Finds s wanted n (n + further)
      (findFrom s wanted (fingerprintList 0 wanted.toList) (leadingWeight wanted.length) further
        (window s wanted n) (.atPosition s n) (.atPosition s (n + wanted.length))) := by
  induction further generalizing n with
  | zero =>
    rw [findFrom]
    split
    · next hfound =>
      rw [found_iff (by omega)] at hfound
      exact ⟨n, Nat.le_refl n, Nat.le_refl n, rfl, hfound, fun k _ _ => by omega⟩
    · next hfound =>
      rw [found_iff (by omega)] at hfound
      intro k hk hk'
      have : k = n := by omega
      exact this ▸ hfound
  | succ further ih =>
    rw [findFrom]
    split
    · next hfound =>
      rw [found_iff (by omega)] at hfound
      exact ⟨n, Nat.le_refl n, by omega, rfl, hfound, fun k _ _ => by omega⟩
    · next hfound =>
      rw [found_iff (by omega)] at hfound
      -- The empty text stands everywhere, so the window has a character that leaves.
      have hpos : 0 < wanted.length := by
        rw [← String.length_toList, List.length_pos_iff]
        intro hnil
        exact hfound (by rw [StandsAt, hnil]; exact List.nil_prefix)
      dsimp only
      rw [window_succ hpos (by omega), Cursor.next_atPosition, Cursor.next_atPosition]
      have hnext := ih (n := n + 1) (by omega)
      rw [Nat.add_right_comm n 1 wanted.length, Nat.add_assoc, Nat.add_comm 1 further] at hnext
      exact hnext.of_not_stands hfound

/-- A search gives the first place from its start on at which the wanted text stands. -/
theorem find?_finds (s wanted : String) {n : Nat} (hn : n ≤ s.length) :
    Finds s wanted n s.length (find? s wanted (.atPosition s n)) := by
  have hshort : ∀ k, k ≤ s.length → StandsAt s.toList wanted.toList k →
      k + wanted.length ≤ s.length := by
    intro k hk hstands
    have := hstands.le_length (by rwa [String.length_toList])
    rwa [String.length_toList, String.length_toList] at this
  rw [find?, Cursor.position_atPosition]
  split
  · next hleft =>
    intro k hk hlast hstands
    have := hshort k hlast hstands
    omega
  · next hleft =>
    have hmark : fingerprintFrom wanted wanted.length 0 0 = fingerprintList 0 wanted.toList := by
      have := fingerprintFrom_atPosition (s := wanted) wanted.length (n := 0) (by omega) 0
      rwa [List.drop_zero, ← String.length_toList, List.take_length, String.length_toList] at this
    have hfound := findFrom_finds s wanted (s.length - n - wanted.length)
      (n := n) (by omega)
    rw [hmark, fingerprintFrom_atPosition _ (by omega), forward_atPosition]
    refine hfound.extend (by omega) fun k hk hlast hstands => ?_
    have := hshort k hlast hstands
    omega

end Text

end LuaRuntime
