import LuaRuntime.Proofs.Pattern.Captures
import LuaRuntime.Proofs.Pattern.KnownFailures

/-!
# Repetitions

The answer of an attempt *tells* the first derivation of its items, or that there is none
(`Trial.Tells`).  An attempt *meets* its items if it tells the truth whenever the failures known
before are so.  Here each of the three ways to try a repetition is shown to tell the truth, given
an attempt that meets the items after it.

A failure noted for a repetition at a place says that the repetition and the items after it have
no derivation from there (`Notes`).  What the notes of the repetitions before stand for is left
open.  This is what makes `fewest` go through: it notes a place as failed before it has tried the
longer runs, so that its own notes, while the items after it are tried, say less than they will
say in the end (`NotedUpTo`).
-/

namespace LuaRuntime

/-! ## Endings of derivations -/

/-- The ending a derivation stands for. -/
def endingAlong (s : String) (items : List Item) (p : Nat) (places : List Nat) : Ending :=
  ⟨.atPosition s (endOf p places), marksAlong s (items.zip places)⟩

theorem endingAlong_cons_of_none {s : String} {item : Item} {q : Nat}
    (h : item.mark? (.atPosition s q) = none) (items : List Item) (p : Nat) (places : List Nat) :
    endingAlong s (item :: items) p (q :: places) = endingAlong s items q places := by
  simp [endingAlong, marksAlong, h]

theorem endingAlong_cons_of_some {s : String} {item : Item} {q : Nat} {m : Mark}
    (h : item.mark? (.atPosition s q) = some m) (items : List Item) (p : Nat)
    (places : List Nat) :
    endingAlong s (item :: items) p (q :: places) = (endingAlong s items q places).mark m := by
  simp [endingAlong, marksAlong, Ending.mark, h]

/-! ## What the search reads of the text -/

section

variable {s : String} {p : Nat}

theorem Single.fits_iff (single : Single) (hp : p ≤ s.length) :
    single.fits s (.atPosition s p) = true ↔ single.FitsAt s.toList p := by
  rw [fits, Cursor.isEnd_atPosition hp, FitsAt]
  by_cases hend : p = s.length
  · have hnone : s.toList[p]? = none := by
      rw [List.getElem?_eq_none_iff, String.length_toList, hend]
    rw [hnone]
    simp [hend]
  · have hlt : p < s.toList.length := by
      rw [String.length_toList]
      omega
    simp [hend, Cursor.get_atPosition hlt, List.getElem?_eq_getElem hlt]

theorem Single.FitsAt.lt_stringLength {single : Single} (h : single.FitsAt s.toList p) :
    p < s.length := by
  have := h.lt_length
  rwa [String.length_toList] at this

theorem CharSet.bounds_iff (members : CharSet) (hp : p ≤ s.length) :
    members.bounds s (.atPosition s p) = true ↔
      members.contains (priorChar s.toList p) = false ∧
        members.contains (nextChar s.toList p) = true := by
  rw [bounds, Cursor.charBefore_atPosition hp, Cursor.charAfter_atPosition hp]
  simp

end

/-! ## What the notes of repetitions stand for -/

/-- What a repetition notes failures of.  The first character of `some` is read before. -/
def Repetition.noted : Repetition → Repetition
  | .some => .many
  | repetition => repetition

/-- The facts at the repetitions of some items, numbered from one on, are that they fail. -/
def Notes (text : List Char) (facts : Nat → Nat → Prop) : Nat → List Item → Prop
  | _, [] => True
  | i, .repeated single repetition :: rest =>
      (∀ n, facts i n ↔ Fails text (.repeated single repetition.noted :: rest) n) ∧
        Notes text facts (i + 1) rest
  | i, _ :: rest => Notes text facts i rest

/-- The facts before the first number do not matter. -/
theorem Notes.congr {text : List Char} {facts facts' : Nat → Nat → Prop} {i : Nat}
    {items : List Item} (h : Notes text facts i items)
    (hfacts : ∀ r n, i ≤ r → (facts' r n ↔ facts r n)) : Notes text facts' i items := by
  induction items generalizing i with
  | nil => trivial
  | cons item rest ih =>
    cases item with
    | repeated single repetition =>
      refine ⟨fun n => (hfacts i n (Nat.le_refl i)).trans (h.1 n), ?_⟩
      exact ih h.2 fun r n hr => hfacts r n (by omega)
    | one _ => exact ih h hfacts
    | position => exact ih h hfacts
    | openCapture => exact ih h hfacts
    | closeCapture => exact ih h hfacts
    | endAnchor => exact ih h hfacts
    | frontier _ => exact ih h hfacts

/-- What the answer of an attempt must tell. -/
def Trial.Tells (s : String) (base : Nat) (facts : Nat → Nat → Prop) (items : List Item)
    (p : Nat) : Trial → Prop
  | .success ending =>
      ∃ places, IsFirst s.toList items p places ∧ ending = endingAlong s items p places
  | .failure known => Fails s.toList items p ∧ known.Holds base facts

/-- An attempt tells the truth about its items, if what is known before is so. -/
def Meets (s : String) (base i : Nat) (items : List Item) (attempt : Attempt) : Prop :=
  ∀ facts, Notes s.toList facts i items → ∀ p known, base ≤ p → p ≤ s.length →
    known.Holds base facts → (attempt (.atPosition s p) known).Tells s base facts items p

section

variable {s : String} {base i : Nat} {items : List Item} {attempt : Attempt}
  {facts : Nat → Nat → Prop} {p : Nat} {known : Failures}

theorem Meets.of_success (h : Meets s base i items attempt) (hnotes : Notes s.toList facts i items)
    (hp : base ≤ p) (hle : p ≤ s.length) (hknown : known.Holds base facts) {ending : Ending}
    (hsuccess : attempt (.atPosition s p) known = .success ending) :
    ∃ places, IsFirst s.toList items p places ∧ ending = endingAlong s items p places := by
  have htold := h facts hnotes p known hp hle hknown
  rwa [hsuccess] at htold

theorem Meets.of_failure (h : Meets s base i items attempt) (hnotes : Notes s.toList facts i items)
    (hp : base ≤ p) (hle : p ≤ s.length) (hknown : known.Holds base facts) {known' : Failures}
    (hfailure : attempt (.atPosition s p) known = .failure known') :
    Fails s.toList items p ∧ known'.Holds base facts := by
  have htold := h facts hnotes p known hp hle hknown
  rwa [hfailure] at htold

end

namespace Trial

variable {s : String} {base : Nat} {facts : Nat → Nat → Prop} {item : Item} {items : List Item}
  {p q : Nat}

/-- An item with one end and without a mark passes on what comes of the rest. -/
theorem Tells.cons {t : Trial} (h : t.Tells s base facts items q)
    (hstep : item.Step s.toList p q) (hunique : ∀ r, item.Step s.toList p r → r = q)
    (hmark : item.mark? (.atPosition s q) = none) :
    t.Tells s base facts (item :: items) p := by
  cases t with
  | success ending =>
    obtain ⟨places, hfirst, rfl⟩ := h
    exact ⟨q :: places, isFirst_cons_of_unique hstep hunique hfirst,
      (endingAlong_cons_of_none hmark items p places).symm⟩
  | failure known =>
    refine ⟨fails_cons.mpr fun r hr => ?_, h.2⟩
    rw [hunique r hr]
    exact h.1

/-- An item of a capture puts its mark in front of what comes of the rest. -/
theorem Tells.mark {t : Trial} {m : Mark} (h : t.Tells s base facts items q)
    (hstep : item.Step s.toList p q) (hunique : ∀ r, item.Step s.toList p r → r = q)
    (hmark : item.mark? (.atPosition s q) = some m) :
    (t.mark m).Tells s base facts (item :: items) p := by
  cases t with
  | success ending =>
    obtain ⟨places, hfirst, rfl⟩ := h
    exact ⟨q :: places, isFirst_cons_of_unique hstep hunique hfirst,
      (endingAlong_cons_of_some hmark items p places).symm⟩
  | failure known =>
    refine ⟨fails_cons.mpr fun r hr => ?_, h.2⟩
    rw [hunique r hr]
    exact h.1

/-- An item that does not match at a place fails there. -/
theorem tells_failure {known : Failures} (hknown : known.Holds base facts)
    (hnone : ∀ q, ¬ item.Step s.toList p q) :
    (Trial.failure known).Tells s base facts (item :: items) p :=
  ⟨fails_cons.mpr fun q hstep => absurd hstep (hnone q), hknown⟩

end Trial

/-! ## Repetitions -/

section

variable {s : String} {base i : Nat} {facts : Nat → Nat → Prop} {single : Single}
  {rest : List Item} {tryRest : Attempt}

/-- The longest run ends where no further character is matched, or before a place at which the
repetition is known to fail. -/
theorem runEnd_spec (s : String) (single : Single) (i : Nat) (known : Failures) (count : Nat)
    {p : Nat} (hp : p + count ≤ s.length) :
    ∃ e, runEnd s single i known count (.atPosition s p) = .atPosition s e ∧
      single.Spans s.toList p e ∧ e ≤ p + count ∧
      (e = p + count ∨ ¬ single.FitsAt s.toList e ∨ known.has i (e + 1) = true) := by
  induction count generalizing p with
  | zero => exact ⟨p, rfl, .refl single s.toList p, Nat.le_refl p, .inl rfl⟩
  | succ count ih =>
    rw [runEnd]
    split
    · next h =>
      rw [Bool.and_eq_true, single.fits_iff (by omega)] at h
      obtain ⟨e, hrun, hspan, hle, hend⟩ := ih (p := p + 1) (by omega)
      refine ⟨e, ?_, h.1.spans.trans hspan, by omega, ?_⟩
      · rw [Cursor.next_atPosition, hrun]
      · rwa [Nat.add_assoc, Nat.add_comm 1 count] at hend
    · next h =>
      rw [Bool.and_eq_true, single.fits_iff (by omega), not_and_or] at h
      refine ⟨p, rfl, .refl single s.toList p, by omega, .inr ?_⟩
      simpa using h

section

variable {p q : Nat} {places : List Nat} {repetition : Repetition}

/-- If the rest matches after a run, and after none that is tried before, the derivation through
this run is the first one. -/
theorem tells_repeated_success (hspan : single.Spans s.toList p q)
    (hallows : repetition.Allows (q - p)) (hfirst : IsFirst s.toList rest q places)
    (hbefore : ∀ r, single.Spans s.toList p r → repetition.Allows (r - p) →
      (Item.repeated single repetition).TriesFirst r q → Fails s.toList rest r) :
    (Trial.success (endingAlong s rest q places)).Tells s base facts
      (.repeated single repetition :: rest) p := by
  refine ⟨q :: places, isFirst_cons (.repeated hspan hallows) hfirst fun r hr hq => ?_, ?_⟩
  · cases hr with
    | repeated hspan' hallows' => exact hbefore r hspan' hallows' hq
  · rw [endingAlong_cons_of_none rfl]

theorem fails_repeated :
    Fails s.toList (.repeated single repetition :: rest) p ↔
      ∀ q, single.Spans s.toList p q → repetition.Allows (q - p) → Fails s.toList rest q := by
  rw [fails_cons]
  constructor
  · intro h q hspan hallows
    exact h q (.repeated hspan hallows)
  · intro h q hstep
    cases hstep with
    | repeated hspan hallows => exact h q hspan hallows

/-- A run that cannot be left fails at its end if the rest fails there. -/
theorem fails_many_of_last (hspan : single.Spans s.toList p q) (hfail : Fails s.toList rest q)
    (hbeyond : ∀ r, single.Spans s.toList p r → q < r → Fails s.toList rest r) :
    Fails s.toList (.repeated single .many :: rest) q := by
  rw [fails_repeated]
  intro r hr _
  rcases Nat.eq_or_lt_of_le hr.1 with rfl | hlt
  · exact hfail
  · exact hbeyond r (hspan.trans hr) hlt

end

/-- Going back from the end of a run, the first place at which the rest matches is taken, if no
run that ends further on leads to a derivation. -/
theorem retreat_tells (hrest : Meets s base (i + 1) rest tryRest)
    (hnotes : Notes s.toList facts i (.repeated single .many :: rest)) {p : Nat} (hp : base ≤ p)
    (count : Nat) {known : Failures} (hle : p + count ≤ s.length)
    (hspan : single.Spans s.toList p (p + count))
    (hbeyond : ∀ r, single.Spans s.toList p r → p + count < r → Fails s.toList rest r)
    (hknown : known.Holds base facts) :
    (retreat s i tryRest count (.atPosition s (p + count)) known).Tells s base facts
      (.repeated single .many :: rest) p := by
  -- The run gets shorter from its end.  All runs that end further on have been tried and fail.
  generalize hc : Cursor.atPosition s (p + count) = c
  fun_induction retreat s i tryRest count c known with
  | case1 count c known ending hsuccess =>
    subst hc
    obtain ⟨places, hfirst, rfl⟩ := hrest.of_success hnotes.2 (by omega) hle hknown hsuccess
    exact tells_repeated_success hspan trivial hfirst fun r hr _ hlt => hbeyond r hr hlt
  | case2 c known known' hfailure =>
    subst hc
    obtain ⟨hfail, hnow⟩ := hrest.of_failure hnotes.2 (by omega) hle hknown hfailure
    have hfails := fails_many_of_last hspan hfail hbeyond
    refine ⟨hfails, hnow.add ?_ ?_⟩
    · simpa using hp
    · rw [Cursor.position_atPosition]
      exact (hnotes.1 p).mpr hfails
  | case3 c known known' hfailure _ count =>
    rename_i ih
    subst hc
    obtain ⟨hfail, hnow⟩ := hrest.of_failure hnotes.2 (by omega) hle hknown hfailure
    have hfails := fails_many_of_last hspan hfail hbeyond
    refine ih (by omega) ⟨by omega, fun n hn hn' => hspan.2 n hn (by omega)⟩ ?_ ?_ ?_
    · intro r hr hlt
      rcases Nat.eq_or_lt_of_le hlt with rfl | hlt
      · exact hfail
      · exact hbeyond r hr hlt
    · refine hnow.add ?_ ?_
      · rw [Cursor.position_atPosition]
        omega
      · rw [Cursor.position_atPosition]
        exact (hnotes.1 _).mpr hfails
    · rw [Nat.succ_eq_add_one, ← Nat.add_assoc, Cursor.previous_atPosition (by omega)]

/-- Trying the longest run first tells the truth about the repetition `many`. -/
theorem tryLongest_tells (hrest : Meets s base (i + 1) rest tryRest)
    (hnotes : Notes s.toList facts i (.repeated single .many :: rest)) {p : Nat} (hp : base ≤ p)
    (hle : p ≤ s.length) {known : Failures} (hknown : known.Holds base facts) :
    (tryLongest s single i tryRest (.atPosition s p) known).Tells s base facts
      (.repeated single .many :: rest) p := by
  unfold tryLongest
  split
  · next h =>
    rw [Cursor.position_atPosition] at h
    exact ⟨(hnotes.1 p).mp (hknown.fact hp h), hknown⟩
  · rw [Cursor.position_atPosition]
    obtain ⟨e, hrun, hspan, hle', hend⟩ :=
      runEnd_spec s single i known (s.length - p) (p := p) (by omega)
    have hpe := hspan.1
    have hbeyond : ∀ r, single.Spans s.toList p r → e < r → Fails s.toList rest r := by
      intro r hr hlt
      have hfits := hr.2 e hpe hlt
      rcases hend with he | hstop | hhas
      · have := hfits.lt_stringLength
        omega
      · exact absurd hfits hstop
      · -- The run could go on, but from the next place on the repetition is known to fail.
        have hfails := (hnotes.1 (e + 1)).mp (hknown.fact (by omega) hhas)
        exact fails_repeated.mp hfails r (hr.drop (by omega) hlt) trivial
    obtain ⟨count, rfl⟩ := Nat.exists_eq_add_of_le hpe
    simp only [hrun, Cursor.position_atPosition, Nat.add_sub_cancel_left]
    exact retreat_tells hrest hnotes hp count (by omega) hspan hbeyond hknown

/-- The facts, and those that the repetition `fewest` has noted on its way. -/
def NotedUpTo (facts : Nat → Nat → Prop) (i p q : Nat) (r n : Nat) : Prop :=
  facts r n ∨ (r = i ∧ p ≤ n ∧ n < q)

theorem Notes.notedUpTo {text : List Char} {items : List Item} {p q : Nat}
    (h : Notes text facts (i + 1) items) : Notes text (NotedUpTo facts i p q) (i + 1) items := by
  refine h.congr fun r n hr => ?_
  constructor
  · rintro (h | ⟨rfl, _⟩)
    · exact h
    · omega
  · exact .inl

theorem Failures.Holds.add_notedUpTo {known : Failures} {p q : Nat}
    (h : known.Holds base (NotedUpTo facts i p q)) (hbase : base ≤ q) (hpq : p ≤ q) :
    (known.add i q).Holds base (NotedUpTo facts i p (q + 1)) := by
  refine (h.mono fun r n hn => ?_).add hbase (.inr ⟨rfl, hpq, by omega⟩)
  obtain hn | ⟨hr, hpn, hnq⟩ := hn
  · exact .inl hn
  · exact .inr ⟨hr, hpn, by omega⟩

/-- If the rest fails along a run, the repetition fails at all its places as soon as it fails at
the last one. -/
theorem fails_fewest_along {p q n : Nat}
    (hfailed : ∀ r, p ≤ r → r < q → Fails s.toList rest r)
    (hfails : Fails s.toList (.repeated single .fewest :: rest) q) (hpn : p ≤ n) (hnq : n ≤ q) :
    Fails s.toList (.repeated single .fewest :: rest) n := by
  rw [fails_repeated]
  intro r hr _
  -- A run from `n` ends before `q`, where the rest has failed, or it passes `q`.
  by_cases hrq : r < q
  · exact hfailed r (Nat.le_trans hpn hr.1) hrq
  · exact fails_repeated.mp hfails r (hr.drop hnq (by omega)) trivial

/-- When the repetition turns out to fail, all that it has noted on its way is so. -/
theorem tells_fewest_failure
    (hnotes : Notes s.toList facts i (.repeated single .fewest :: rest)) {p q q' : Nat}
    {known : Failures} (hspan : single.Spans s.toList p q) (hq' : q' ≤ q + 1)
    (hfailed : ∀ r, p ≤ r → r < q → Fails s.toList rest r)
    (hfails : Fails s.toList (.repeated single .fewest :: rest) q)
    (hknown : known.Holds base (NotedUpTo facts i p q')) :
    (Trial.failure known).Tells s base facts (.repeated single .fewest :: rest) p := by
  refine ⟨fails_fewest_along hfailed hfails (Nat.le_refl p) hspan.1, ?_⟩
  refine hknown.mono fun r n hn => ?_
  obtain hn | ⟨rfl, hpn, hnq⟩ := hn
  · exact hn
  · exact (hnotes.1 n).mpr (fails_fewest_along hfailed hfails hpn (by omega))

/-- A place where no further character is matched is the last of its runs. -/
theorem fails_fewest_of_last {q : Nat} (hstop : ¬ single.FitsAt s.toList q)
    (hfail : Fails s.toList rest q) :
    Fails s.toList (.repeated single .fewest :: rest) q := by
  rw [fails_repeated]
  intro r hr _
  rcases Nat.eq_or_lt_of_le hr.1 with rfl | hlt
  · exact hfail
  · exact absurd (hr.fitsAt hlt) hstop

/-- Going on from a place, the first one at which the rest matches is taken, if the rest fails at
all places of the run before it. -/
theorem tryShortest_tells (hrest : Meets s base (i + 1) rest tryRest)
    (hnotes : Notes s.toList facts i (.repeated single .fewest :: rest)) {p : Nat}
    (hp : base ≤ p) (count : Nat) {q : Nat} {known : Failures} (hq : q + count = s.length)
    (hspan : single.Spans s.toList p q)
    (hfailed : ∀ r, p ≤ r → r < q → Fails s.toList rest r)
    (hknown : known.Holds base (NotedUpTo facts i p q)) :
    (tryShortest s single i tryRest count (.atPosition s q) known).Tells s base facts
      (.repeated single .fewest :: rest) p := by
  have hpq := hspan.1
  -- From `p` up to `q` the rest has failed.  What is noted there is not a fact yet: it becomes one
  -- when the search fails for good, and it does not matter if the search succeeds.
  generalize hc : Cursor.atPosition s q = c
  fun_induction tryShortest s single i tryRest count c known generalizing q with
  | case1 count c known hhas =>
    subst hc
    rw [Cursor.position_atPosition] at hhas
    obtain hfact | ⟨_, _, hlt⟩ := hknown.fact (by omega) hhas
    · exact tells_fewest_failure hnotes hspan (Nat.le_succ q) hfailed ((hnotes.1 q).mp hfact) hknown
    · omega
  | case2 count c known _ ending hsuccess =>
    subst hc
    obtain ⟨places, hfirst, rfl⟩ :=
      hrest.of_success hnotes.2.notedUpTo (by omega) (by omega) hknown hsuccess
    refine tells_repeated_success hspan trivial hfirst fun r hr _ hlt => ?_
    exact hfailed r hr.1 hlt
  | case3 c known _ known' hfailure =>
    subst hc
    obtain ⟨hfail, hnow⟩ :=
      hrest.of_failure hnotes.2.notedUpTo (by omega) (by omega) hknown hfailure
    have hstop : ¬ single.FitsAt s.toList q := by
      intro hfits
      have := hfits.lt_stringLength
      omega
    refine tells_fewest_failure hnotes hspan (Nat.le_refl _) hfailed
      (fails_fewest_of_last hstop hfail) ?_
    exact Cursor.position_atPosition s q ▸ hnow.add_notedUpTo (by omega) hpq
  | case4 c known _ known' hfailure _ count hfits =>
    rename_i ih
    subst hc
    obtain ⟨hfail, hnow⟩ :=
      hrest.of_failure hnotes.2.notedUpTo (by omega) (by omega) hknown hfailure
    rw [single.fits_iff (by omega)] at hfits
    refine ih (q := q + 1) (by omega) (hspan.trans hfits.spans) ?_ ?_ (by omega)
      (Cursor.next_atPosition s q).symm
    · intro r hr hlt
      rcases Nat.eq_or_lt_of_le (Nat.le_of_lt_succ hlt) with rfl | hlt
      · exact hfail
      · exact hfailed r hr hlt
    · exact Cursor.position_atPosition s q ▸ hnow.add_notedUpTo (by omega) hpq
  | case5 c known _ known' hfailure _ count =>
    rename_i hfits
    subst hc
    obtain ⟨hfail, hnow⟩ :=
      hrest.of_failure hnotes.2.notedUpTo (by omega) (by omega) hknown hfailure
    rw [single.fits_iff (by omega)] at hfits
    refine tells_fewest_failure hnotes hspan (Nat.le_refl _) hfailed
      (fails_fewest_of_last hfits hfail) ?_
    exact Cursor.position_atPosition s q ▸ hnow.add_notedUpTo (by omega) hpq

/-- Trying one character first tells the truth about the repetition `optional`. -/
theorem tryOptional_tells (hrest : Meets s base (i + 1) rest tryRest)
    (hnotes : Notes s.toList facts i (.repeated single .optional :: rest)) {p : Nat}
    (hp : base ≤ p) (hle : p ≤ s.length) {known : Failures} (hknown : known.Holds base facts) :
    (tryOptional s single i tryRest (.atPosition s p) known).Tells s base facts
      (.repeated single .optional :: rest) p := by
  unfold tryOptional
  split
  · next h =>
    rw [Cursor.position_atPosition] at h
    exact ⟨(hnotes.1 p).mp (hknown.fact hp h), hknown⟩
  · split
    · next ending hsuccess =>
      split at hsuccess
      · next hfits =>
        rw [single.fits_iff hle] at hfits
        rw [Cursor.next_atPosition] at hsuccess
        obtain ⟨places, hfirst, rfl⟩ :=
          hrest.of_success hnotes.2 (by omega) hfits.lt_stringLength hknown hsuccess
        refine tells_repeated_success hfits.spans (by simp [Repetition.Allows]) hfirst ?_
        intro r hr hallows hlt
        simp only [Repetition.Allows] at hallows
        simp only [Item.TriesFirst] at hlt
        omega
      · cases hsuccess
    · next known' hfailure =>
      have htried : known'.Holds base facts ∧
          (single.FitsAt s.toList p → Fails s.toList rest (p + 1)) := by
        split at hfailure
        · next hfits =>
          rw [single.fits_iff hle] at hfits
          rw [Cursor.next_atPosition] at hfailure
          obtain ⟨hfail, hnow⟩ :=
            hrest.of_failure hnotes.2 (by omega) hfits.lt_stringLength hknown hfailure
          exact ⟨hnow, fun _ => hfail⟩
        · next hfits =>
          rw [single.fits_iff hle] at hfits
          cases hfailure
          exact ⟨hknown, fun h => absurd h hfits⟩
      split
      · next ending hsuccess =>
        obtain ⟨places, hfirst, rfl⟩ := hrest.of_success hnotes.2 hp hle htried.1 hsuccess
        refine tells_repeated_success (.refl single s.toList p) (by simp [Repetition.Allows])
          hfirst ?_
        intro r hr hallows hlt
        simp only [Repetition.Allows] at hallows
        simp only [Item.TriesFirst] at hlt
        have hr' : r = p + 1 := by omega
        exact hr' ▸ htried.2 (hr.fitsAt hlt)
      · next known'' hfailure' =>
        obtain ⟨hfail, hnow⟩ := hrest.of_failure hnotes.2 hp hle htried.1 hfailure'
        have hfails : Fails s.toList (.repeated single .optional :: rest) p := by
          rw [fails_repeated]
          intro r hr hallows
          simp only [Repetition.Allows] at hallows
          rcases Nat.eq_or_lt_of_le hr.1 with rfl | hlt
          · exact hfail
          · have hr' : r = p + 1 := by omega
            exact hr' ▸ htried.2 (hr.fitsAt hlt)
        rw [Cursor.position_atPosition]
        exact ⟨hfails, hnow.add hp ((hnotes.1 p).mpr hfails)⟩

/-- At least one character is one character and then any number of them. -/
theorem derives_some {text : List Char} {p : Nat} {places : List Nat} :
    Derives text (.repeated single .some :: rest) p places ↔
      single.FitsAt text p ∧ Derives text (.repeated single .many :: rest) (p + 1) places := by
  constructor
  · intro h
    cases h with
    | @cons _ _ _ q _ hstep hrest =>
      cases hstep with
      | repeated hspan hallows =>
        have hallows : 1 ≤ q - p := hallows
        exact ⟨hspan.fitsAt (by omega),
          .cons (.repeated (hspan.drop (by omega) (by omega)) trivial) hrest⟩
  · rintro ⟨hfits, h⟩
    cases h with
    | @cons _ _ _ q _ hstep hrest =>
      cases hstep with
      | repeated hspan _ =>
        have hle := hspan.1
        have hallows : Repetition.some.Allows (q - p) := by
          simp only [Repetition.Allows]
          omega
        exact .cons (.repeated (hfits.spans.trans hspan) hallows) hrest

theorem Precedes.some_of_many {places others : List Nat}
    (h : Precedes (.repeated single .many :: rest) places others) :
    Precedes (.repeated single .some :: rest) places others := by
  cases h with
  | head hq => exact .head hq
  | tail h => exact .tail h

/-- What is told about `many` after a character is told about `some` before it. -/
theorem Trial.Tells.some_of_many {t : Trial} {p : Nat} (hfits : single.FitsAt s.toList p)
    (h : t.Tells s base facts (.repeated single .many :: rest) (p + 1)) :
    t.Tells s base facts (.repeated single .some :: rest) p := by
  cases t with
  | success ending =>
    obtain ⟨places, hfirst, rfl⟩ := h
    refine ⟨places, ⟨derives_some.mpr ⟨hfits, hfirst.1⟩, fun others ho => ?_⟩, ?_⟩
    · exact (hfirst.2 others (derives_some.mp ho).2).imp id Precedes.some_of_many
    · cases hfirst.1 with
      | cons _ _ => rw [endingAlong_cons_of_none rfl, endingAlong_cons_of_none rfl]
  | failure known =>
    exact ⟨fun places hd => h.1 places (derives_some.mp hd).2, h.2⟩

end

end LuaRuntime
