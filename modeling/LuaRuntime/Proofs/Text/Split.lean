import LuaRuntime.Text.Split

/-!
# Splitting and joining

Taking a text apart at a character and joining the parts with that character undo each other, on
lists of parts that do not contain it.
-/

namespace LuaRuntime

theorem not_mem_of_mem_splitAtChar {mark : Char} {text part : List Char}
    (h : part ∈ splitAtChar mark text) : mark ∉ part := by
  induction text generalizing part with
  | nil =>
    rw [splitAtChar, List.mem_singleton] at h
    rw [h]
    exact List.not_mem_nil
  | cons c rest ih =>
    rw [splitAtChar] at h
    split at h
    · rcases List.mem_cons.mp h with rfl | h
      · exact List.not_mem_nil
      · exact ih h
    · next hc =>
      split at h
      · rw [List.mem_singleton] at h
        rw [h, List.mem_singleton]
        exact Ne.symm hc
      · next first parts hparts =>
        rcases List.mem_cons.mp h with rfl | h
        · rw [List.mem_cons, not_or]
          exact ⟨Ne.symm hc, ih (hparts ▸ List.mem_cons_self)⟩
        · exact ih (hparts ▸ List.mem_cons_of_mem first h)

theorem splitAtChar_of_not_mem {mark : Char} {text : List Char} (h : mark ∉ text) :
    splitAtChar mark text = [text] := by
  induction text with
  | nil => rfl
  | cons c rest ih =>
    rw [List.mem_cons, not_or] at h
    rw [splitAtChar, if_neg (Ne.symm h.1), ih h.2]

theorem splitAtChar_ne_nil (mark : Char) (text : List Char) : splitAtChar mark text ≠ [] := by
  cases text with
  | nil => exact List.cons_ne_nil _ _
  | cons c rest =>
    rw [splitAtChar]
    split
    · exact List.cons_ne_nil _ _
    · split <;> exact List.cons_ne_nil _ _

theorem splitAtChar_append {mark : Char} {part : List Char} (h : mark ∉ part) (rest : List Char) :
    splitAtChar mark (part ++ mark :: rest) = part :: splitAtChar mark rest := by
  induction part with
  | nil =>
    show splitAtChar mark (mark :: rest) = _
    rw [splitAtChar, if_pos rfl]
  | cons c part ih =>
    rw [List.mem_cons, not_or] at h
    rw [List.cons_append, splitAtChar, if_neg (Ne.symm h.1), ih h.2]

theorem splitAtChar_intercalate {mark : Char} {parts : List (List Char)} (hne : parts ≠ [])
    (h : ∀ part ∈ parts, mark ∉ part) : splitAtChar mark ([mark].intercalate parts) = parts := by
  induction parts with
  | nil => exact absurd rfl hne
  | cons part parts ih =>
    have hpart := h part List.mem_cons_self
    cases parts with
    | nil =>
      rw [List.intercalate_singleton]
      exact splitAtChar_of_not_mem hpart
    | cons next rest =>
      have hrest := ih (List.cons_ne_nil _ _) fun p hp => h p (List.mem_cons_of_mem _ hp)
      rw [List.intercalate_cons_cons, List.append_assoc, List.singleton_append,
        splitAtChar_append hpart, hrest]

theorem intercalate_splitAtChar (mark : Char) (text : List Char) :
    [mark].intercalate (splitAtChar mark text) = text := by
  induction text with
  | nil => rfl
  | cons c rest ih =>
    rw [splitAtChar]
    cases hparts : splitAtChar mark rest with
    | nil => exact absurd hparts (splitAtChar_ne_nil mark rest)
    | cons part parts =>
      rw [hparts] at ih
      split
      · next hc => rw [List.intercalate_cons_cons, ih, hc]; rfl
      · cases parts with
        | nil =>
          rw [List.intercalate_singleton] at ih ⊢
          rw [ih]
        | cons next more =>
          rw [List.intercalate_cons_cons] at ih ⊢
          rw [List.cons_append, List.cons_append, ih]

end LuaRuntime
