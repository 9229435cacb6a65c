import LuaRuntime.Pattern.Failures

/-!
# What known failures say

Failures that are known are read through `Failures.has` only.  Adding one makes no other one known
(`has_add`), as long as the positions are not before the base.  `Failures.Holds` says that all
that is known is so, whatever a failure at a place stands for.
-/

namespace LuaRuntime

namespace Failures

/-! ## Flags -/

theorem isSet_iff (flags : ByteArray) (index : Nat) :
    isSet flags index = true ↔ ∃ b, flags.data[index]? = some b ∧ b ≠ 0 := by
  by_cases h : index < flags.size
  · have hget : flags.data[index]? = some (flags.get index h) := Array.getElem?_eq_getElem h
    rw [isSet, dif_pos h, bne_iff_ne, hget]
    exact ⟨fun hne => ⟨_, rfl, hne⟩, fun ⟨b, hb, hne⟩ => Option.some.inj hb ▸ hne⟩
  · have hget : flags.data[index]? = .none := by
      rw [Array.getElem?_eq_none_iff]
      exact Nat.le_of_not_lt h
    rw [isSet, dif_neg h, hget]
    exact ⟨fun hfalse => (Bool.false_ne_true hfalse).elim, fun ⟨b, hb, _⟩ => nomatch hb⟩

theorem isSet_push {flags : ByteArray} {b : UInt8} {index : Nat}
    (h : isSet (flags.push b) index = true) :
    (index = flags.size ∧ b ≠ 0) ∨ isSet flags index = true := by
  rw [isSet_iff, ByteArray.data_push] at h
  obtain ⟨c, hc, hne⟩ := h
  rw [Array.getElem?_push] at hc
  split at hc
  · next hi =>
    cases hc
    exact .inl ⟨hi, hne⟩
  · exact .inr ((isSet_iff _ _).mpr ⟨c, hc, hne⟩)

theorem isSet_extend {count : Nat} {flags : ByteArray} {index : Nat}
    (h : isSet (extend count flags) index = true) : isSet flags index = true := by
  induction count generalizing flags with
  | zero => exact h
  | succ count ih =>
    obtain ⟨_, hne⟩ | h := isSet_push (ih h)
    · exact absurd rfl hne
    · exact h

theorem size_extend (count : Nat) (flags : ByteArray) :
    (extend count flags).size = flags.size + count := by
  induction count generalizing flags with
  | zero => rfl
  | succ count ih =>
    rw [extend, ih, ByteArray.size_push]
    omega

theorem isSet_setFlag {index other : Nat} {flags : ByteArray}
    (h : isSet (setFlag index flags) other = true) :
    other = index ∨ isSet flags other = true := by
  unfold setFlag at h
  split at h
  · rw [isSet_iff, ByteArray.data_set, Array.getElem?_set] at h
    obtain ⟨b, hb, hne⟩ := h
    split at hb
    · next hi => exact .inl hi.symm
    · exact .inr ((isSet_iff _ _).mpr ⟨b, hb, hne⟩)
  · next hsize =>
    obtain ⟨hi, _⟩ | h := isSet_push h
    · rw [size_extend] at hi
      exact .inl (by omega)
    · exact .inr (isSet_extend h)

/-! ## Failures -/

theorem has_add {known : Failures} {repetition position r n : Nat}
    (hp : known.base ≤ position) (hn : known.base ≤ n)
    (h : (known.add repetition position).has r n = true) :
    (r = repetition ∧ n = position) ∨ known.has r n = true := by
  simp only [has, add] at h
  by_cases hr : r = repetition
  · subst hr
    by_cases hsize : r < known.flags.size
    · have hflags : (known.flags.modify r (setFlag (position - known.base))).getD r .empty =
          setFlag (position - known.base) (known.flags.getD r .empty) := by
        simp [Array.getD, hsize, Array.getElem_modify]
      rw [hflags] at h
      obtain hi | h := isSet_setFlag h
      · exact .inl ⟨rfl, by omega⟩
      · exact .inr h
    · have hflags : (known.flags.modify r (setFlag (position - known.base))).getD r .empty =
          .empty := by
        simp [Array.getD, hsize]
      rw [hflags] at h
      cases h
  · have hflags : (known.flags.modify repetition (setFlag (position - known.base))).getD r .empty =
        known.flags.getD r .empty := by
      by_cases hsize : r < known.flags.size
      · simp [Array.getD, hsize, Array.getElem_modify, Ne.symm hr]
      · simp [Array.getD, hsize]
    rw [hflags] at h
    exact .inr h

theorem has_none (base repetitions r n : Nat) : (none base repetitions).has r n = false := by
  have hflags : (none base repetitions).flags.getD r .empty = .empty := by
    by_cases hr : r < repetitions
    · simp [none, Array.getD, hr]
    · simp [none, Array.getD, hr]
  rw [has, hflags]
  rfl

/-- All that is known is so. -/
structure Holds (known : Failures) (base : Nat) (facts : Nat → Nat → Prop) : Prop where
  base_eq : known.base = base
  fact : ∀ {r n : Nat}, base ≤ n → known.has r n = true → facts r n

theorem holds_none (base repetitions : Nat) (facts : Nat → Nat → Prop) :
    (none base repetitions).Holds base facts := by
  refine ⟨rfl, fun {r n} _ h => ?_⟩
  rw [has_none] at h
  cases h

variable {known : Failures} {base : Nat} {facts : Nat → Nat → Prop}

theorem Holds.add (h : known.Holds base facts) {r n : Nat} (hn : base ≤ n) (hfact : facts r n) :
    (known.add r n).Holds base facts := by
  refine ⟨h.base_eq, fun {r' n'} hn' hhas => ?_⟩
  obtain ⟨rfl, rfl⟩ | hhas := has_add (h.base_eq ▸ hn) (h.base_eq ▸ hn') hhas
  · exact hfact
  · exact h.fact hn' hhas

theorem Holds.mono {facts' : Nat → Nat → Prop} (h : known.Holds base facts)
    (hmono : ∀ r n, facts r n → facts' r n) : known.Holds base facts' :=
  ⟨h.base_eq, fun hn hhas => hmono _ _ (h.fact hn hhas)⟩

end Failures

end LuaRuntime
