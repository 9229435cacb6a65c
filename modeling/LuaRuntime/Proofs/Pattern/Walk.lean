import LuaRuntime.Pattern.Walk
import LuaRuntime.Proofs.Pattern.Compiled

/-!
# The sequence of matches

A walk is *ready* if it stands where its last match ended.  A step from a ready walk finds a match
that lies after the last one and is not empty at its end, and leaves the walk ready
(`Ready.step`).  Each step uses up some of the characters that are left, so that a walk comes to an
end (`exists_yields`), and taking a number of matches is taking them from that one sequence
(`Yields.take_eq`).
-/

namespace LuaRuntime

/-- A match lies between two positions of a text. -/
def Match.Between (m : Match) (s : String) (a b : Nat) : Prop :=
  a ≤ b ∧ b ≤ s.length ∧ m.start = .atPosition s a ∧ m.stop = .atPosition s b

/-- A match comes after another one, and is not empty at its end. -/
def Match.Follows (m m' : Match) : Prop :=
  m.stop.position ≤ m'.start.position ∧
    ¬ (m'.start.position = m.stop.position ∧ m'.stop.position = m.stop.position)

namespace MatchWalk

/-- The matches that a walk gives from now on are these, and no more. -/
inductive Yields : MatchWalk → List Match → Prop
  | done {w : MatchWalk} :
      w.next? = none →
      Yields w []
  | more {w : MatchWalk} {m : Match} {found : List Match} :
      w.next? = some m →
      Yields (w.after m) found →
      Yields w (m :: found)

/-- A walk that may go on stands where its last match ended. -/
def Ready (w : MatchWalk) : Prop :=
  ∀ c, w.place = some c → ∃ n, n ≤ w.text.length ∧ c = .atPosition w.text n ∧
    (w.last = none ∨ (w.last = some n ∧ w.pattern.anchored = false))

/-- The most matches that a walk can still give. -/
def budget (w : MatchWalk) : Nat :=
  match w.place with
  | none => 0
  | some c => if w.last.isNone then w.text.length + 1 - c.position else w.text.length - c.position

theorem ready_start (text : String) (c : CompiledPattern) : Ready { text, pattern := c } := by
  intro place hplace
  cases hplace
  exact ⟨0, Nat.zero_le _, rfl, .inl rfl⟩

section

variable {w : MatchWalk} {p : Pattern} (hp : w.pattern.Searches p)
include hp

/-- Beyond the end of the last match the first match counts, so that no round follows the second
one. -/
theorem matchFrom_of_lt {n k : Nat} (hlast : w.last = some n) (hlt : n < k)
    (hk : k ≤ w.text.length) (further : Nat) :
    w.matchFrom further (.atPosition w.text k) =
      w.pattern.findAt w.text (.atPosition w.text k) := by
  rw [matchFrom]
  cases hfind : w.pattern.findAt w.text (.atPosition w.text k) with
  | none => rfl
  | some m =>
    obtain ⟨a, b, hka, hab, -, -, hstop⟩ := hp.places hk hfind
    refine if_pos ?_
    rw [hlast, hstop, Cursor.position_atPosition, Ne, Option.some.injEq]
    omega

/-- The next match is found from the place of the walk on, and does not end where the last one
did. -/
theorem Ready.next? (h : w.Ready) {m : Match} (hm : w.next? = some m) :
    ∃ n a b, w.place = some (.atPosition w.text n) ∧ n ≤ a ∧ m.Between w.text a b ∧
      (w.last = none ∨ (w.last = some n ∧ n < b)) := by
  obtain ⟨c, hc, hmatch⟩ := Option.bind_eq_some_iff.mp hm
  obtain ⟨n, hn, rfl, hlast⟩ := h c hc
  refine ⟨n, ?_⟩
  rw [matchFrom] at hmatch
  cases hfind : w.pattern.findAt w.text (.atPosition w.text n) with
  | none =>
    rw [hfind] at hmatch
    cases hmatch
  | some m' =>
    obtain ⟨a, b, hna, hab, hb, hstart, hstop⟩ := hp.places hn hfind
    rw [hfind] at hmatch
    simp only [hstop, Cursor.position_atPosition, ne_eq] at hmatch
    split at hmatch
    · next hne =>
      cases hmatch
      refine ⟨a, b, hc, hna, ⟨hab, hb, hstart, hstop⟩, ?_⟩
      obtain hnone | ⟨hsome, _⟩ := hlast
      · exact .inl hnone
      · rw [hsome, Option.some.injEq] at hne
        exact .inr ⟨hsome, by omega⟩
    · next heq =>
      -- The match found first ends where the last one did, so it is empty there.
      rw [Classical.not_not] at heq
      obtain hnone | ⟨hsome, hanchored⟩ := hlast
      · rw [hnone] at heq
        cases heq
      · rw [hsome, Option.some.injEq] at heq
        obtain rfl : a = n := by omega
        rw [hanchored, Bool.false_or, hstart, Cursor.isEnd_atPosition hn] at hmatch
        split at hmatch
        · cases hmatch
        · next hend =>
          rw [decide_eq_true_iff] at hend
          split at hmatch
          · cases hmatch
          · rw [Cursor.next_atPosition,
              matchFrom_of_lt hp hsome (Nat.lt_succ_self a) (by omega)] at hmatch
            obtain ⟨a', b', hna', hab', hb', hstart', hstop'⟩ := hp.places (by omega) hmatch
            exact ⟨a', b', hc, by omega, ⟨hab', hb', hstart', hstop'⟩, .inr ⟨hsome, by omega⟩⟩

/-- A step leaves the walk ready, with fewer matches to come. -/
theorem Ready.step (h : w.Ready) {m : Match} (hm : w.next? = some m) :
    (w.after m).Ready ∧ (w.after m).budget < w.budget := by
  obtain ⟨n, a, b, hplace, hna, ⟨hab, hb, hstart, hstop⟩, hlast⟩ := h.next? hp hm
  have hn : n ≤ w.text.length := by omega
  have hbudget : w.text.length - b < w.budget := by
    rw [budget, hplace]
    obtain hnone | ⟨hsome, hlt⟩ := hlast
    · simp only [hnone, Option.isNone_none, if_true, Cursor.position_atPosition]
      omega
    · simp only [hsome, Option.isNone_some, Cursor.position_atPosition]
      simp only [Bool.false_eq_true, if_false]
      omega
  cases hanchored : w.pattern.anchored with
  | true =>
    have hafter : (w.after m).place = none := by simp [after, hanchored]
    refine ⟨fun c hc => ?_, ?_⟩
    · rw [hafter] at hc
      cases hc
    · rw [budget, hafter]
      exact Nat.lt_of_le_of_lt (Nat.zero_le _) hbudget
  | false =>
    have hafter : (w.after m).place = some (.atPosition w.text b) := by
      simp [after, hanchored, hstop]
    have hafter' : (w.after m).last = some b := by simp [after, hstop]
    refine ⟨fun c hc => ?_, ?_⟩
    · rw [hafter] at hc
      cases hc
      exact ⟨b, hb, rfl, .inr ⟨hafter', hanchored⟩⟩
    · rw [budget, hafter, hafter']
      simpa [after] using hbudget

/-- A ready walk comes to an end.  Its matches are places of the text, each of them follows the
one before, and there are not more of them than the budget allows. -/
theorem Ready.exists_yields (h : w.Ready) :
    ∃ found, w.Yields found ∧ found.length ≤ w.budget ∧
      (∀ m ∈ found, ∃ a b, m.Between w.text a b) ∧ found.IsChain Match.Follows ∧
      ∀ m ∈ found.head?, ∀ n, w.last = some n → n ≤ m.start.position ∧ n < m.stop.position := by
  -- Each step uses up some of the budget.  The last part says how the first match stands to the
  -- match before the walk, which is what makes the chain go through.
  induction hbudget : w.budget using Nat.strong_induction_on generalizing w with
  | _ k ih =>
    cases hm : w.next? with
    | none =>
      exact ⟨[], .done hm, Nat.zero_le _, by simp, .nil, by simp⟩
    | some m =>
      obtain ⟨n, a, b, hplace, hna, hbetween, hlast⟩ := h.next? hp hm
      obtain ⟨hready, hless⟩ := h.step hp hm
      obtain ⟨found, hyields, hlength, hall, hchain, hhead⟩ :=
        ih _ (hbudget ▸ hless) (show (w.after m).pattern.Searches p from hp) hready rfl
      refine ⟨m :: found, .more hm hyields, ?_, ?_, ?_, ?_⟩
      · rw [List.length_cons]
        omega
      · intro m' hm'
        rcases List.mem_cons.mp hm' with rfl | hm'
        · exact ⟨a, b, hbetween⟩
        · exact hall m' hm'
      · cases found with
        | nil => exact .singleton m
        | cons m' found =>
          obtain ⟨hle, hlt⟩ := hhead m' rfl m.stop.position rfl
          exact .cons_cons ⟨hle, fun hempty => by omega⟩ hchain
      · intro m' hm' n' hn'
        cases hm'
        obtain ⟨hab, hb, hstart, hstop⟩ := hbetween
        rw [hstart, hstop, Cursor.position_atPosition, Cursor.position_atPosition]
        obtain hnone | ⟨hsome, hlt⟩ := hlast
        · rw [hnone] at hn'
          cases hn'
        · rw [hsome] at hn'
          cases hn'
          exact ⟨hna, hlt⟩

end

/-- Matches that are taken one by one are those of the sequence. -/
theorem Yields.take_eq {w : MatchWalk} {found : List Match} (h : w.Yields found) (count : Nat) :
    w.take count = found.take count := by
  induction h generalizing count with
  | done hnone =>
    cases count with
    | zero => rfl
    | succ count => rw [MatchWalk.take, hnone, List.take_nil]
  | more hsome _ ih =>
    cases count with
    | zero => rfl
    | succ count => rw [MatchWalk.take, hsome, List.take_succ_cons, ← ih count]

/-- An anchored pattern has one match at most. -/
theorem Yields.length_le_one {w : MatchWalk} {found : List Match} (h : w.Yields found)
    (hanchored : w.pattern.anchored = true) : found.length ≤ 1 := by
  cases h with
  | done _ => exact Nat.zero_le _
  | more _ hrest =>
    cases hrest with
    | done _ => exact Nat.le_refl _
    | more hsome _ =>
      simp [next?, after, hanchored] at hsome

end MatchWalk

/-- The first matches of a sequence, as many as a cap allows. -/
def capped (found : List Match) (cap : Option Int) : List Match :=
  cap.elim found fun n => found.take (max n 0).toNat

theorem length_capped (found : List Match) (cap : Option Int) :
    (capped found cap).length =
      cap.elim found.length fun n => min found.length (max n 0).toNat := by
  cases cap with
  | none => rfl
  | some n => rw [capped, Option.elim_some, Option.elim_some, List.length_take, Nat.min_comm]

/-- All matches that a cap allows are the first ones of the sequence. -/
theorem CompiledPattern.allMatches_eq {c : CompiledPattern} {text : String} {found : List Match}
    (h : MatchWalk.Yields { text, pattern := c } found) (hlength : found.length ≤ text.length + 1)
    (cap : Option Int) : c.allMatches text cap = capped found cap := by
  rw [allMatches, h.take_eq]
  cases cap with
  | none => exact List.take_of_length_le hlength
  | some n =>
    rw [Option.elim_some, capped, Option.elim_some, List.take_eq_take_iff]
    omega

end LuaRuntime
