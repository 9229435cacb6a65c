import LuaRuntime.Library.MergeSort
import LuaRuntime.Proofs.State.Action

/-!
# Comparisons of a merge sort

A merge sort with an effect on every comparison is the run of a tree of comparisons (`Asking`),
which depends on the items alone: each comparison branches on its answer, and each end has a list.
`Asking.Ends` says what holds at the ends that the answers can lead to.

A pass cuts its runs out of the items by their places.  `mergePairs` has them as a list of lists,
and makes the same comparisons, because the runs of a width are the slices of that width (`Runs`,
`sort_eq`).  What follows is proved of lists of runs.

Whatever the answers are, every end has the items in some order.  If the answers are those of a
strict weak order, the end has the items in that order, and equivalent ones in the order they came
in.

A comparison that fails ends the run with its error, in the state it left.
-/

namespace LuaRuntime

/-! ## Trees of comparisons -/

/-- A computation that branches on comparisons. -/
inductive Asking (α β : Type) where
  | done (result : β)
  | ask (x y : α) (next : Bool → Asking α β)

namespace Asking

variable {α β γ : Type}

/-- A computation, and another one that depends on its result. -/
protected def bind : Asking α β → (β → Asking α γ) → Asking α γ
  | .done result, k => k result
  | .ask x y next, k => .ask x y fun answer => (next answer).bind k

instance : Monad (Asking α) where
  pure := .done
  bind := Asking.bind

instance : LawfulMonad (Asking α) :=
  LawfulMonad.mk' _
    (fun tree => by
      induction tree with
      | done result => rfl
      | ask x y next ih => exact congrArg (Asking.ask x y) (funext ih))
    (fun _ _ => rfl)
    (fun tree k l => by
      induction tree with
      | done result => rfl
      | ask x y next ih => exact congrArg (Asking.ask x y) (funext ih))

/-- A single comparison. -/
def compare (x y : α) : Asking α Bool := .ask x y .done

/-- Makes the comparisons. -/
def run (less : α → α → Action Bool) : Asking α β → Action β
  | .done result => pure result
  | .ask x y next => less x y >>= fun answer => (next answer).run less

section

variable (less : α → α → Action Bool)

theorem run_pure (b : β) : (pure b : Asking α β).run less = pure b := rfl

theorem run_bind (tree : Asking α β) (k : β → Asking α γ) :
    (tree >>= k).run less = tree.run less >>= fun b => (k b).run less := by
  induction tree with
  | done result =>
    rw [run, pure_bind]
    rfl
  | ask x y next ih =>
    show (less x y >>= fun answer => (next answer >>= k).run less) = _
    rw [run, bind_assoc]
    exact bind_congr ih

theorem run_compare (x y : α) : (compare x y).run less = less x y := bind_pure (less x y)

theorem run_merge (left right : List α) :
    (MergeSort.merge compare left right).run less = MergeSort.merge less left right := by
  induction left generalizing right with
  | nil => rw [MergeSort.merge, MergeSort.merge, run_pure]
  | cons x left ihleft =>
    induction right with
    | nil => rw [MergeSort.merge, MergeSort.merge, run_pure] <;> simp
    | cons y right ihright =>
      rw [MergeSort.merge, MergeSort.merge, run_bind, run_compare]
      refine bind_congr fun answer => ?_
      cases answer with
      | true => exact (run_bind less _ _).trans (by rw [ihright]; rfl)
      | false => exact (run_bind less _ _).trans (by rw [ihleft]; rfl)

theorem run_mergePass (width : Nat) (items : Array α) (count start : Nat) :
    (MergeSort.mergePass compare width items count start).run less =
      MergeSort.mergePass less width items count start := by
  induction count generalizing start with
  | zero => rfl
  | succ count ih =>
    rw [MergeSort.mergePass, MergeSort.mergePass]
    split
    · rw [run_bind, run_merge]
      refine bind_congr fun merged => ?_
      rw [run_bind, ih]
      rfl
    · rfl

theorem run_sortRuns (passes width : Nat) (items : List α) :
    (MergeSort.sortRuns compare passes width items).run less =
      MergeSort.sortRuns less passes width items := by
  induction passes generalizing width items with
  | zero => rfl
  | succ passes ih =>
    rw [MergeSort.sortRuns, MergeSort.sortRuns]
    split
    · rw [run_bind, run_mergePass]
      exact bind_congr fun merged => ih _ merged
    · rfl

theorem run_sort (items : List α) :
    (MergeSort.sort compare items).run less = MergeSort.sort less items :=
  run_sortRuns less items.length 1 items

end

/-! ## Ends of a tree -/

/-- All comparisons are between members of a list, and all ends that answers by a rule lead to have
a property. -/
def Ends (among : List α) (rule : α → α → Bool → Prop) (P : β → Prop) : Asking α β → Prop
  | .done result => P result
  | .ask x y next =>
      x ∈ among ∧ y ∈ among ∧ ∀ answer, rule x y answer → (next answer).Ends among rule P

namespace Ends

variable {among : List α} {rule : α → α → Bool → Prop} {P Q : β → Prop} {R : γ → Prop}
  {tree : Asking α β}

protected theorem compare {x y : α} (hx : x ∈ among) (hy : y ∈ among) :
    (compare x y).Ends among rule (rule x y) :=
  ⟨hx, hy, fun _ h => h⟩

protected theorem bind {k : β → Asking α γ} (h : tree.Ends among rule P)
    (hk : ∀ b, P b → (k b).Ends among rule R) : (tree >>= k).Ends among rule R := by
  induction tree with
  | done result => exact hk result h
  | ask x y next ih => exact ⟨h.1, h.2.1, fun answer hr => ih answer (h.2.2 answer hr)⟩

theorem and (hp : tree.Ends among rule P) (hq : tree.Ends among rule Q) :
    tree.Ends among rule fun b => P b ∧ Q b := by
  induction tree with
  | done result => exact ⟨hp, hq⟩
  | ask x y next ih =>
    exact ⟨hp.1, hp.2.1, fun answer hr => ih answer (hp.2.2 answer hr) (hq.2.2 answer hr)⟩

theorem imp (h : tree.Ends among rule P) (hpq : ∀ b, P b → Q b) : tree.Ends among rule Q := by
  induction tree with
  | done result => exact hpq result h
  | ask x y next ih => exact ⟨h.1, h.2.1, fun answer hr => ih answer (h.2.2 answer hr)⟩

/-- What depends on a result is needed only at the ends of a tree. -/
theorem bind_congr {k l : β → Asking α γ} (h : tree.Ends among (fun _ _ _ => True) P)
    (hkl : ∀ b, P b → k b = l b) : tree >>= k = tree >>= l := by
  induction tree with
  | done result => exact hkl result h
  | ask x y next ih =>
    exact congrArg (Asking.ask x y) (funext fun answer => ih answer (h.2.2 answer trivial))

end Ends

/-! ## Permutations -/

/-- Merges neighbouring runs in pairs. -/
def mergePairs : List (List α) → Asking α (List (List α))
  | left :: right :: rest => do
      let merged ← MergeSort.merge compare left right
      return merged :: (← mergePairs rest)
  | runs => pure runs

/-- Merges runs until one is left, in `passes` passes at most. -/
def mergeAll : (passes : Nat) → List (List α) → Asking α (List α)
  | _, [] => pure []
  | _, [run] => pure run
  | 0, runs => pure runs.flatten
  | passes + 1, runs => do mergeAll passes (← mergePairs runs)

theorem flatten_singletons (items : List α) : (items.map fun x => [x]).flatten = items := by
  rw [← List.flatMap_def]
  exact List.flatMap_singleton' items

section

variable {among : List α} (rule : α → α → Bool → Prop)

theorem merge_perm {left right : List α} (hleft : left ⊆ among) (hright : right ⊆ among) :
    (MergeSort.merge compare left right).Ends among rule (·.Perm (left ++ right)) := by
  induction left generalizing right with
  | nil =>
    rw [MergeSort.merge]
    exact .refl right
  | cons x left ihleft =>
    obtain ⟨hx, hleft'⟩ := List.cons_subset.mp hleft
    induction right with
    | nil =>
      rw [MergeSort.merge, List.append_nil]
      · exact .refl _
      · simp
    | cons y right ihright =>
      obtain ⟨hy, hright'⟩ := List.cons_subset.mp hright
      rw [MergeSort.merge]
      refine (Ends.compare hy hx).bind fun answer _ => ?_
      cases answer with
      | true =>
        refine (ihright hright').bind fun merged hmerged => ?_
        exact (hmerged.cons y).trans List.perm_middle.symm
      | false =>
        refine (ihleft hleft' hright).bind fun merged hmerged => ?_
        exact hmerged.cons x

theorem mergePairs_perm {runs : List (List α)} (h : runs.flatten ⊆ among) :
    (mergePairs runs).Ends among rule (·.flatten.Perm runs.flatten) :=
  match runs, h with
  | [], _ => .refl []
  | [run], _ => .refl [run].flatten
  | left :: right :: rest, h => by
      simp only [List.flatten_cons, List.append_subset] at h
      obtain ⟨hleft, hright, hrest⟩ := h
      rw [mergePairs]
      refine (merge_perm rule hleft hright).bind fun merged hmerged => ?_
      refine (mergePairs_perm hrest).bind fun runs hruns => ?_
      rw [List.flatten_cons, List.flatten_cons, ← List.append_assoc]
      exact hmerged.append hruns

theorem mergeAll_perm (passes : Nat) {runs : List (List α)} (h : runs.flatten ⊆ among) :
    (mergeAll passes runs).Ends among rule (·.Perm runs.flatten) := by
  induction passes generalizing runs with
  | zero =>
    rcases runs with _ | ⟨run, _ | ⟨next, rest⟩⟩
    · exact .refl _
    · exact .of_eq (List.append_nil run).symm
    · exact .refl _
  | succ passes ih =>
    rcases runs with _ | ⟨run, _ | ⟨next, rest⟩⟩
    · exact .refl _
    · exact .of_eq (List.append_nil run).symm
    · refine (mergePairs_perm rule h).bind fun runs hruns => ?_
      exact (ih (List.Subset.trans hruns.subset h)).imp fun _ hsorted => hsorted.trans hruns

end

/-! ## Runs by their places -/

/-- Runs of a width: the last may be shorter, and none is empty. -/
def Runs (width : Nat) : List (List α) → Prop
  | [] => True
  | run :: rest => run ≠ [] ∧ run.length ≤ width ∧ (rest ≠ [] → run.length = width) ∧
      Runs width rest

theorem runs_singletons (items : List α) : Runs 1 (items.map fun x => [x]) := by
  induction items with
  | nil => trivial
  | cons x items ih => exact ⟨List.cons_ne_nil _ _, Nat.le_refl _, fun _ => rfl, ih⟩

theorem Runs.length_le {width : Nat} {runs : List (List α)} (h : Runs width runs) :
    runs.length ≤ runs.flatten.length := by
  induction runs with
  | nil => exact Nat.le_refl _
  | cons run rest ih =>
    obtain ⟨hrun, -, -, hrest⟩ := h
    have hpos := List.length_pos_iff.mpr hrun
    have hle := ih hrest
    rw [List.flatten_cons, List.length_append, List.length_cons]
    omega

theorem extract_middle (before run after : List α) :
    (before ++ (run ++ after)).extract before.length (before.length + run.length) = run := by
  simp [List.extract_eq_take_drop]

theorem mergePass_of_le {width start : Nat} {items : List α} (h : items.length ≤ start)
    (count : Nat) : MergeSort.mergePass compare width items.toArray count start = pure [] := by
  cases count with
  | zero => rfl
  | succ count => rw [MergeSort.mergePass, List.size_toArray, if_neg (Nat.not_lt.mpr h)]

theorem merge_nil (run : List α) : MergeSort.merge compare run [] = pure run := by
  cases run with
  | nil => rw [MergeSort.merge]
  | cons x run => rw [MergeSort.merge]; simp

/-- The next two runs of a width are the slices at a place and after it, the second one empty if
there is only one run. -/
theorem Runs.slices {width : Nat} {left before items : List α} {rest : List (List α)}
    (h : Runs width (left :: rest)) (hitems : items = before ++ (left :: rest).flatten) :
    items.extract before.length (min (before.length + width) items.length) = left ∧
      items.extract (min (before.length + width) items.length)
        (min (before.length + 2 * width) items.length) = rest.headD [] := by
  obtain ⟨-, hle, hwhole, hrest⟩ := h
  have hlength : items.length = before.length + (left.length + rest.flatten.length) := by
    simp [hitems]
  have hmid : min (before.length + width) items.length = before.length + left.length := by
    by_cases hnil : rest = []
    · simp only [hnil, List.flatten_nil, List.length_nil] at hlength
      omega
    · have hleft := hwhole hnil
      omega
  rw [hmid]
  constructor
  · rw [hitems]
    exact extract_middle before left rest.flatten
  · cases rest with
    | nil =>
      have hstop : min (before.length + 2 * width) items.length = before.length + left.length := by
        simp only [List.flatten_nil, List.length_nil] at hlength
        omega
      rw [hstop, List.extract_eq_take_drop, Nat.sub_self]
      rfl
    | cons right rest =>
      obtain ⟨-, hshort, hfull, -⟩ := hrest
      have hleft := hwhole (List.cons_ne_nil _ _)
      have hsplit : items = (before ++ left) ++ (right ++ rest.flatten) := by simp [hitems]
      have hstop : min (before.length + 2 * width) items.length =
          before.length + left.length + right.length := by
        rw [List.flatten_cons, List.length_append] at hlength
        by_cases hnil : rest = []
        · simp only [hnil, List.flatten_nil, List.length_nil] at hlength
          omega
        · have hright := hfull hnil
          omega
      rw [hstop, hsplit, ← List.length_append]
      exact extract_middle (before ++ left) right rest.flatten

/-- A pass over the slices of a width merges the runs in pairs. -/
theorem mergePass_eq {width : Nat} (hwidth : 0 < width) {items : List α} :
    ∀ {runs : List (List α)} {before : List α} {count : Nat}, Runs width runs →
      items = before ++ runs.flatten → runs.length ≤ count →
      MergeSort.mergePass compare width items.toArray count before.length =
        List.flatten <$> mergePairs runs
  | [], before, count, _, hitems, _ => by
      rw [mergePass_of_le (by simp [hitems])]
      rfl
  | [run], before, count + 1, hruns, hitems, _ => by
      obtain ⟨hleft, hright⟩ := hruns.slices hitems
      have hlength : items.length = before.length + run.length := by simp [hitems]
      have hpos := List.length_pos_iff.mpr hruns.1
      have hle := hruns.2.1
      rw [MergeSort.mergePass, List.size_toArray, if_pos (by omega)]
      simp only [Array.toList_extract]
      rw [hleft, hright, List.headD_nil, merge_nil, mergePass_of_le (by omega)]
      rfl
  | left :: right :: rest, before, count + 1, hruns, hitems, hcount => by
      obtain ⟨hleft, hright⟩ := hruns.slices hitems
      have hlength : items.length =
          before.length + (left.length + (right.length + rest.flatten.length)) := by simp [hitems]
      have hpos := List.length_pos_iff.mpr hruns.1
      obtain ⟨-, -, hwhole, -, hle, hfull, hrest⟩ := hruns
      have hwhole := hwhole (List.cons_ne_nil _ _)
      have hmore :
          MergeSort.mergePass compare width items.toArray count (before.length + 2 * width) =
            List.flatten <$> mergePairs rest := by
        by_cases hnil : rest = []
        · -- The last run may be shorter than the width, but then nothing follows it.
          subst hnil
          simp only [List.flatten_nil, List.length_nil] at hlength
          rw [mergePass_of_le (by omega)]
          rfl
        · have hplace : before.length + 2 * width = (before ++ left ++ right).length := by
            simp only [List.length_append, hwhole, hfull hnil]
            omega
          rw [hplace]
          exact mergePass_eq hwidth hrest (by simp [hitems])
            (Nat.le_of_succ_le (Nat.le_of_succ_le_succ hcount))
      rw [MergeSort.mergePass, List.size_toArray, if_pos (by omega)]
      simp only [Array.toList_extract]
      rw [hleft, hright, List.headD_cons, hmore, mergePairs]
      simp only [map_eq_pure_bind, bind_assoc, pure_bind, List.flatten_cons]

/-- A pass doubles the width of the runs. -/
theorem mergePairs_runs {among : List α} (rule : α → α → Bool → Prop) {width : Nat} :
    ∀ {runs : List (List α)}, Runs width runs → runs.flatten ⊆ among →
      (mergePairs runs).Ends among rule (Runs (2 * width))
  | [], _, _ => trivial
  | [run], h, _ => ⟨h.1, Nat.le_trans h.2.1 (by omega), nofun, trivial⟩
  | left :: right :: rest, h, hsub => by
      obtain ⟨hleft, hlong, hwhole, -, hle, hfull, hrest⟩ := h
      simp only [List.flatten_cons, List.append_subset] at hsub
      rw [mergePairs]
      refine (merge_perm rule hsub.1 hsub.2.1).bind fun merged hmerged => ?_
      have hlength := hmerged.length_eq
      rw [List.length_append] at hlength
      have hne : merged ≠ [] := by
        rintro rfl
        exact hleft (List.eq_nil_of_length_eq_zero (by simp at hlength; omega))
      cases rest with
      | nil => exact ⟨hne, by omega, nofun, trivial⟩
      | cons next rest =>
        refine (mergePairs_runs rule hrest hsub.2.2).bind fun more hmore => ?_
        have hlast := hfull (List.cons_ne_nil _ _)
        have hfirst := hwhole (List.cons_ne_nil _ _)
        exact ⟨hne, by omega, fun _ => by omega, hmore⟩

/-- Merging the slices of a width makes the comparisons of merging its runs. -/
theorem sortRuns_eq {width : Nat} (hwidth : 0 < width) (passes : Nat) {runs : List (List α)}
    (hruns : Runs width runs) :
    MergeSort.sortRuns compare passes width runs.flatten = mergeAll passes runs := by
  induction passes generalizing width runs with
  | zero =>
    rcases runs with _ | ⟨run, _ | ⟨next, rest⟩⟩
    · rfl
    · rw [MergeSort.sortRuns, List.flatten_singleton, mergeAll]
    · rfl
  | succ passes ih =>
    rcases runs with _ | ⟨run, _ | ⟨next, rest⟩⟩
    · rfl
    · rw [MergeSort.sortRuns, List.flatten_singleton, if_neg (Nat.not_lt.mpr hruns.2.1), mergeAll]
    · obtain ⟨-, -, hwhole, hnext, -⟩ := id hruns
      have hpos := List.length_pos_iff.mpr hnext
      have hlt : width < (run :: next :: rest).flatten.length := by
        simp only [List.flatten_cons, List.length_append, hwhole (List.cons_ne_nil _ _)]
        omega
      have hpass := mergePass_eq hwidth hruns (List.nil_append _).symm hruns.length_le
      rw [List.length_nil] at hpass
      rw [MergeSort.sortRuns, if_pos hlt, hpass, bind_map_left, mergeAll]
      · refine (mergePairs_runs _ hruns (List.Subset.refl _)).bind_congr fun merged hmerged => ?_
        exact ih (by omega) hmerged
      · simp
      · simp

theorem sort_eq (items : List α) :
    MergeSort.sort compare items = mergeAll items.length (items.map fun x => [x]) := by
  have h := sortRuns_eq Nat.one_pos items.length (runs_singletons items)
  rwa [flatten_singletons] at h

section

variable {among : List α} (rule : α → α → Bool → Prop)

/-- Whatever the answers are, every end of a sort has the items in some order. -/
theorem sort_perm (items : List α) :
    (MergeSort.sort compare items).Ends items rule (·.Perm items) := by
  have hruns : (items.map fun x => [x]).flatten ⊆ items := fun a ha => flatten_singletons items ▸ ha
  have h := mergeAll_perm rule items.length hruns
  rwa [flatten_singletons, ← sort_eq] at h

end

end Asking

/-! ## Orders -/

/-- Neither of two items is less than the other. -/
def alike {α : Type} (lt : α → α → Bool) (a b : α) : Bool := !lt a b && !lt b a

/-- A strict weak order of the members of a list. -/
structure StrictWeakOrder {α : Type} (lt : α → α → Bool) (among : List α) : Prop where
  irrefl : ∀ a ∈ among, lt a a = false
  trans : ∀ a ∈ among, ∀ b ∈ among, ∀ c ∈ among,
    lt a b = true → lt b c = true → lt a c = true
  alike_trans : ∀ a ∈ among, ∀ b ∈ among, ∀ c ∈ among,
    alike lt a b = true → alike lt b c = true → alike lt a c = true

/-- No item of a list is less than an earlier one. -/
def Ascending {α : Type} (lt : α → α → Bool) (items : List α) : Prop :=
  items.Pairwise fun a b => lt b a = false

section

variable {α : Type} {lt : α → α → Bool} {among : List α} {a b c : α}

theorem alike_iff : alike lt a b = true ↔ lt a b = false ∧ lt b a = false := by
  simp [alike]

theorem alike_comm : alike lt a b = alike lt b a := Bool.and_comm _ _

namespace StrictWeakOrder

theorem asymm (h : StrictWeakOrder lt among) (ha : a ∈ among) (hb : b ∈ among)
    (hab : lt a b = true) : lt b a = false := by
  rw [← Bool.not_eq_true]
  intro hba
  have haa := h.trans a ha b hb a ha hab hba
  rw [h.irrefl a ha] at haa
  cases haa

/-- Not being less is transitive. -/
theorem not_less_trans (h : StrictWeakOrder lt among) (ha : a ∈ among) (hb : b ∈ among)
    (hc : c ∈ among) (hba : lt b a = false) (hcb : lt c b = false) : lt c a = false := by
  rw [← Bool.not_eq_true]
  intro hca
  -- Were `c` less than `a`, then `b` would be equivalent to both of them.
  have hab : lt a b = false := by
    rw [← Bool.not_eq_true]
    intro hab
    rw [h.trans c hc a ha b hb hca hab] at hcb
    cases hcb
  have hbc : lt b c = false := by
    rw [← Bool.not_eq_true]
    intro hbc
    rw [h.trans b hb c hc a ha hbc hca] at hba
    cases hba
  have hac := h.alike_trans a ha b hb c hc (alike_iff.mpr ⟨hab, hba⟩) (alike_iff.mpr ⟨hbc, hcb⟩)
  rw [(alike_iff.mp hac).2] at hca
  cases hca

/-- What is less than an item is equivalent to nothing that is not less than that item. -/
theorem not_alike (h : StrictWeakOrder lt among) (ha : a ∈ among) (hb : b ∈ among)
    (hc : c ∈ among) {z : α} (hz : z ∈ among) (hab : lt a b = true) (hcb : lt c b = false)
    (hza : alike lt z a = true) : alike lt z c = false := by
  rw [← Bool.not_eq_true]
  intro hzc
  have hac := h.alike_trans a ha z hz c hc (alike_comm.trans hza) hzc
  have hba := h.not_less_trans hb hc ha hcb (alike_iff.mp hac).1
  rw [hba] at hab
  cases hab

end StrictWeakOrder

end

/-! ## Sorting by an order -/

namespace Asking

variable {α : Type} {lt : α → α → Bool} {among : List α}

/-- The answers are those of an order. -/
def AnswersBy (lt : α → α → Bool) (x y : α) (answer : Bool) : Prop := answer = lt x y

/-- Merging two ascending runs gives an ascending one, with equivalent items of the left run before
those of the right one. -/
theorem merge_ascending (h : StrictWeakOrder lt among) {left right : List α}
    (hleft : left ⊆ among) (hright : right ⊆ among) (aleft : Ascending lt left)
    (aright : Ascending lt right) :
    (MergeSort.merge compare left right).Ends among (AnswersBy lt) fun merged =>
      Ascending lt merged ∧ ∀ z ∈ among,
        merged.filter (alike lt z) = left.filter (alike lt z) ++ right.filter (alike lt z) := by
  induction left generalizing right with
  | nil =>
    rw [MergeSort.merge]
    exact ⟨aright, fun _ _ => rfl⟩
  | cons x left ihleft =>
    obtain ⟨hx, hleft'⟩ := List.cons_subset.mp hleft
    obtain ⟨hxleft, aleft'⟩ := List.pairwise_cons.mp aleft
    induction right with
    | nil =>
      rw [MergeSort.merge]
      · exact ⟨aleft, fun _ _ => (List.append_nil _).symm⟩
      · simp
    | cons y right ihright =>
      obtain ⟨hy, hright'⟩ := List.cons_subset.mp hright
      obtain ⟨hyright, aright'⟩ := List.pairwise_cons.mp aright
      rw [MergeSort.merge]
      refine (Ends.compare hy hx).bind fun answer hanswer => ?_
      cases answer with
      | true =>
        have hyx : lt y x = true := hanswer.symm
        have hmerged := (ihright hright' aright').and (merge_perm _ hleft hright')
        refine hmerged.bind ?_
        rintro merged ⟨⟨amerged, hfilter⟩, hperm⟩
        refine ⟨List.pairwise_cons.mpr ⟨fun w hw => ?_, amerged⟩, fun z hz => ?_⟩
        · rcases List.mem_append.mp (hperm.subset hw) with hw | hw
          · rcases List.mem_cons.mp hw with rfl | hwleft
            · exact h.asymm hy hx hyx
            · exact h.not_less_trans hy hx (hleft hw) (h.asymm hy hx hyx) (hxleft w hwleft)
          · exact hyright w hw
        · -- Nothing of the left run is equivalent to the item that goes before it.
          by_cases hzy : alike lt z y = true
          · have hnone : (x :: left).filter (alike lt z) = [] := by
              rw [List.filter_eq_nil_iff]
              intro w hw
              rw [Bool.not_eq_true]
              refine h.not_alike hy hx (hleft hw) hz hyx ?_ hzy
              rcases List.mem_cons.mp hw with rfl | hwleft
              · exact h.irrefl w hx
              · exact hxleft w hwleft
            rw [List.filter_cons_of_pos hzy, List.filter_cons_of_pos hzy, hfilter z hz, hnone]
            rfl
          · rw [List.filter_cons_of_neg hzy, List.filter_cons_of_neg hzy, hfilter z hz]
      | false =>
        have hyx : lt y x = false := hanswer.symm
        have hmerged := (ihleft hleft' hright aleft' aright).and (merge_perm _ hleft' hright)
        refine hmerged.bind ?_
        rintro merged ⟨⟨amerged, hfilter⟩, hperm⟩
        refine ⟨List.pairwise_cons.mpr ⟨fun w hw => ?_, amerged⟩, fun z hz => ?_⟩
        · rcases List.mem_append.mp (hperm.subset hw) with hw | hw
          · exact hxleft w hw
          · rcases List.mem_cons.mp hw with rfl | hwright
            · exact hyx
            · exact h.not_less_trans hx hy (hright hw) hyx (hyright w hwright)
        · rw [List.filter_cons, List.filter_cons, hfilter z hz]
          split <;> rfl

theorem mergePairs_ascending (h : StrictWeakOrder lt among) {runs : List (List α)}
    (hruns : runs.flatten ⊆ among) (aruns : ∀ run ∈ runs, Ascending lt run) :
    (mergePairs runs).Ends among (AnswersBy lt) fun merged =>
      (∀ run ∈ merged, Ascending lt run) ∧ 2 * merged.length ≤ runs.length + 1 ∧
        ∀ z ∈ among,
          merged.flatten.filter (alike lt z) = runs.flatten.filter (alike lt z) :=
  match runs, hruns, aruns with
  | [], _, aruns => ⟨aruns, Nat.zero_le _, fun _ _ => rfl⟩
  | [run], _, aruns => ⟨aruns, Nat.le_refl _, fun _ _ => rfl⟩
  | left :: right :: rest, hruns, aruns => by
      simp only [List.flatten_cons, List.append_subset] at hruns
      obtain ⟨hleft, hright, hrest⟩ := hruns
      simp only [List.forall_mem_cons] at aruns
      obtain ⟨aleft, aright, arest⟩ := aruns
      rw [mergePairs]
      refine (merge_ascending h hleft hright aleft aright).bind ?_
      rintro first ⟨afirst, hfirst⟩
      refine (mergePairs_ascending h hrest arest).bind ?_
      rintro others ⟨aothers, hlength, hothers⟩
      refine ⟨List.forall_mem_cons.mpr ⟨afirst, aothers⟩, ?_, fun z hz => ?_⟩
      · simp only [List.length_cons]
        omega
      · simp only [List.flatten_cons, List.filter_append, hfirst z hz, hothers z hz,
          List.append_assoc]

theorem mergeAll_ascending (h : StrictWeakOrder lt among) {passes : Nat} {runs : List (List α)}
    (hpasses : runs.length ≤ passes + 1) (hruns : runs.flatten ⊆ among)
    (aruns : ∀ run ∈ runs, Ascending lt run) :
    (mergeAll passes runs).Ends among (AnswersBy lt) fun sorted =>
      Ascending lt sorted ∧ ∀ z ∈ among,
        sorted.filter (alike lt z) = runs.flatten.filter (alike lt z) := by
  induction passes generalizing runs with
  | zero =>
    rcases runs with _ | ⟨run, _ | ⟨next, rest⟩⟩
    · exact ⟨.nil, fun _ _ => rfl⟩
    · exact ⟨aruns run (List.mem_singleton_self run), fun _ _ => by simp⟩
    · simp at hpasses
  | succ passes ih =>
    rcases runs with _ | ⟨run, _ | ⟨next, rest⟩⟩
    · exact ⟨.nil, fun _ _ => rfl⟩
    · exact ⟨aruns run (List.mem_singleton_self run), fun _ _ => by simp⟩
    · have hmerged := (mergePairs_ascending h hruns aruns).and (mergePairs_perm _ hruns)
      refine hmerged.bind ?_
      rintro merged ⟨⟨amerged, hlength, hfilter⟩, hperm⟩
      have hfewer : merged.length ≤ passes + 1 := by
        simp only [List.length_cons] at hlength hpasses
        omega
      have hsub := List.Subset.trans hperm.subset hruns
      refine (ih hfewer hsub amerged).imp ?_
      rintro sorted ⟨asorted, hsorted⟩
      exact ⟨asorted, fun z hz => (hsorted z hz).trans (hfilter z hz)⟩

/-- If the answers are those of a strict weak order, the end of a sort has the items in that order,
and equivalent ones in the order they came in. -/
theorem sort_ascending {items : List α} (h : StrictWeakOrder lt items) :
    (MergeSort.sort compare items).Ends items (AnswersBy lt) fun sorted =>
      Ascending lt sorted ∧ ∀ z ∈ items,
        sorted.filter (alike lt z) = items.filter (alike lt z) := by
  have hpasses : (items.map fun x => [x]).length ≤ items.length + 1 := by simp
  have hruns : (items.map fun x => [x]).flatten ⊆ items := fun a ha => flatten_singletons items ▸ ha
  have aruns : ∀ run ∈ items.map fun x => [x], Ascending lt run := by simp [Ascending]
  have hsort := mergeAll_ascending h hpasses hruns aruns
  rwa [flatten_singletons, ← sort_eq] at hsort

/-! ## Runs -/

/-- Comparisons that succeed lead from a tree in a state to what is left of it in another. -/
inductive Reaches (less : α → α → Action Bool) {β : Type} :
    Asking α β → State → Asking α β → State → Prop
  | refl {tree : Asking α β} {s : State} : Reaches less tree s tree s
  | step {x y : α} {next : Bool → Asking α β} {answer : Bool} {rest : Asking α β} {s t u : State} :
      Gives (less x y) s answer t →
      Reaches less (next answer) t rest u →
      Reaches less (.ask x y next) s rest u

namespace Reaches

variable {β : Type} {less : α → α → Action Bool} {tree rest : Asking α β} {s t u : State}

theorem run_eq (h : Reaches less tree s rest u) : tree.run less s = rest.run less u := by
  induction h with
  | refl => rfl
  | step hanswer _ ih =>
    rw [run, bind_run, hanswer]
    exact ih

/-- The answers on the way keep to a rule, and so what is left has the ends of the whole. -/
theorem ends {rule : α → α → Bool → Prop} {P : β → Prop} (h : Reaches less tree s rest u)
    (hrule : ∀ x y next t answer v, Reaches less tree s (.ask x y next) t →
      Gives (less x y) t answer v → rule x y answer)
    (hends : tree.Ends among rule P) : rest.Ends among rule P := by
  induction h with
  | refl => exact hends
  | step hanswer _ ih =>
    have hnext := hends.2.2 _ (hrule _ _ _ _ _ _ .refl hanswer)
    exact ih (fun _ _ _ _ _ _ hreaches => hrule _ _ _ _ _ _ (.step hanswer hreaches)) hnext

end Reaches

/-- The comparisons of a tree come to an end of it, or to a comparison that fails. -/
theorem exists_reaches {β : Type} (less : α → α → Action Bool) (tree : Asking α β) (s : State) :
    (∃ result u, Reaches less tree s (.done result) u) ∨
      ∃ x y next u e t, Reaches less tree s (.ask x y next) u ∧ less x y u = (.error e, t) := by
  induction tree generalizing s with
  | done result => exact Or.inl ⟨result, s, .refl⟩
  | ask x y next ih =>
    rcases hless : less x y s with ⟨answer, t⟩
    cases answer with
    | error e => exact Or.inr ⟨x, y, next, s, e, t, .refl, hless⟩
    | ok answer =>
      rcases ih answer t with ⟨result, u, h⟩ | ⟨x', y', next', u, e, v, h, he⟩
      · exact Or.inl ⟨result, u, .step hless h⟩
      · exact Or.inr ⟨x', y', next', u, e, v, .step hless h, he⟩

section

variable {β : Type} {less : α → α → Action Bool} {tree : Asking α β} {s t : State}

theorem run_eq_ok_iff {result : β} :
    tree.run less s = (.ok result, t) ↔ Reaches less tree s (.done result) t := by
  refine ⟨fun hrun => ?_, fun h => h.run_eq⟩
  rcases exists_reaches less tree s with ⟨result', u, h⟩ | ⟨x, y, next, u, e, v, h, he⟩
  · cases h.run_eq.symm.trans hrun
    exact h
  · rw [h.run_eq, run, bind_run, he] at hrun
    cases hrun

/-- A run fails exactly with a comparison, and in the state that the comparison left. -/
theorem run_eq_error_iff {e : Error} :
    tree.run less s = (.error e, t) ↔
      ∃ x y next u, Reaches less tree s (.ask x y next) u ∧ less x y u = (.error e, t) := by
  constructor
  · intro hrun
    rcases exists_reaches less tree s with ⟨result, u, h⟩ | ⟨x, y, next, u, e', v, h, he⟩
    · cases h.run_eq.symm.trans hrun
    · rw [h.run_eq, run, bind_run, he] at hrun
      cases hrun
      exact ⟨x, y, next, u, h, he⟩
  · rintro ⟨x, y, next, u, h, he⟩
    rw [h.run_eq, run, bind_run, he]

end

/-! ## Runs of a sort -/

section

variable {less : α → α → Action Bool} {items sorted : List α} {s u : State}

theorem Reaches.perm (h : Reaches less (MergeSort.sort compare items) s (.done sorted) u) :
    sorted.Perm items :=
  h.ends (fun _ _ _ _ _ _ _ _ => trivial) (sort_perm (fun _ _ _ => True) items)

theorem Reaches.ascending (h : Reaches less (MergeSort.sort compare items) s (.done sorted) u)
    (horder : StrictWeakOrder lt items)
    (hanswers : ∀ x y next t, Reaches less (MergeSort.sort compare items) s (.ask x y next) t →
      ∃ v, Gives (less x y) t (lt x y) v) :
    Ascending lt sorted ∧ ∀ z ∈ items,
      sorted.filter (alike lt z) = items.filter (alike lt z) := by
  refine h.ends (fun x y next t answer v hreaches hgives => ?_) (sort_ascending horder)
  obtain ⟨w, hw⟩ := hanswers x y next t hreaches
  cases hgives.symm.trans hw
  rfl

theorem Reaches.eq_of_pure {β : Type} {tree rest : Asking α β} {P : β → Prop}
    (h : Reaches less tree s rest u) (hends : tree.Ends items (fun _ _ _ => True) P)
    (hpure : ∀ x ∈ items, ∀ y ∈ items, Gives (less x y) s (lt x y) s) :
    u = s ∧ rest.Ends items (fun _ _ _ => True) P := by
  induction h with
  | refl => exact ⟨rfl, hends⟩
  | step hanswer _ ih =>
    obtain ⟨hx, hy, hnext⟩ := hends
    cases (hpure _ hx _ hy).symm.trans hanswer
    exact ih (hnext _ trivial) hpure

/-- Comparisons that leave the state as it is and answer by an order do so all along the sort. -/
theorem Reaches.answers_of_pure {x y : α} {next : Bool → Asking α (List α)}
    (h : Reaches less (MergeSort.sort compare items) s (.ask x y next) u)
    (hpure : ∀ x ∈ items, ∀ y ∈ items, Gives (less x y) s (lt x y) s) :
    ∃ v, Gives (less x y) u (lt x y) v := by
  obtain ⟨rfl, hx, hy, -⟩ := h.eq_of_pure (sort_perm _ items) hpure
  exact ⟨u, hpure x hx y hy⟩

end

end Asking

end LuaRuntime
