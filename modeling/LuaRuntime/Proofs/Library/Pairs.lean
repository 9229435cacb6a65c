import LuaRuntime.Proofs.Machine.Loops
import LuaRuntime.Proofs.Table.ForgottenOrder
import LuaRuntime.Proofs.Table.ObjectOrder

/-!
# Iterating over the keys of a table

The iterator of `pairs` has the keys that the table had when it was made, and forgets each key as
it passes it.  What it returns depends on the keys that are left and on the table at that moment,
and on nothing else, so the table may change in any way between two calls.  `CallsOf` are calls of
a function with arbitrary changes between them, and `pending` are the keys that are left before
each call.  One call passes over the keys without a value and returns the first one with a value
(`CallsOf.step_cases`), and all that is said of a whole run follows from that.

A table that does not change is listed in the order of its keys, strings and other numbers as the
state arranges them.  The walk of `next` has an order of its own, but that one has all the keys, and
others that have no value any more.  So both give the same entries, and in the same order if the
table has always been walked by the same arrangement (`Table.Listed`).
-/

namespace LuaRuntime

/-! ## One step -/

/-- The keys without a value are passed over. -/
theorem firstPresent?_cases (t : Table) (pending : List Key) :
    (firstPresent? t pending = none ∧ ∀ k ∈ pending, t.get? k = none) ∨
      ∃ skipped key v rest, firstPresent? t pending = some (key, v, rest) ∧
        pending = skipped ++ key :: rest ∧ t.get? key = some v ∧
        ∀ k ∈ skipped, t.get? k = none := by
  induction pending with
  | nil => exact Or.inl ⟨rfl, nofun⟩
  | cons first rest ih =>
    rw [firstPresent?]
    cases hfirst : t.get? first with
    | some v => exact Or.inr ⟨[], first, v, rest, rfl, rfl, hfirst, nofun⟩
    | none =>
      rcases ih with ⟨hnext, hnone⟩ | ⟨skipped, key, v, later, hnext, rfl, hv, hnone⟩
      · exact Or.inl ⟨hnext, List.forall_mem_cons.mpr ⟨hfirst, hnone⟩⟩
      · exact Or.inr ⟨first :: skipped, key, v, later, hnext, rfl, hv,
          List.forall_mem_cons.mpr ⟨hfirst, hnone⟩⟩

/-- What the iterator returns when some keys are left. -/
def entryValues (t : Table) (pending : List Key) : List Value :=
  match firstPresent? t pending with
  | some (key, v, _) => [key.toValue, v]
  | none => [.nil]

/-- The keys that are left afterwards. -/
def laterKeys (t : Table) (pending : List Key) : List Key :=
  match firstPresent? t pending with
  | some (_, _, rest) => rest
  | none => []

/-- A function is the iterator over some keys of a table. -/
def Iterates (f : FunctionId) (id : TableId) (pending : List Key) (s : State) : Prop :=
  ∃ name, s.functions[f.index]? = some ⟨name, .entries id pending⟩

/-- The state with another body for a function. -/
def State.withBody (s : State) (f : FunctionId) (body : Body) : State :=
  { s with functions := s.functions.modify f.index ({ · with body := body }) }

section

variable {f : FunctionId} {id : TableId} {pending : List Key} {s : State}

theorem Iterates.body_eq (h : Iterates f id pending s) :
    (s.function f).body = .entries id pending := by
  obtain ⟨name, hf⟩ := h
  rw [State.function, hf]
  rfl

theorem Iterates.withBody (h : Iterates f id pending s) (later : List Key) :
    Iterates f id later (s.withBody f (.entries id later)) := by
  obtain ⟨name, hf⟩ := h
  refine ⟨name, ?_⟩
  rw [State.withBody, Array.getElem?_modify, if_pos rfl, hf]
  rfl

theorem stepEntries_gives (f : FunctionId) (id : TableId) (pending : List Key) (s : State) :
    Gives (stepEntries f id pending) s (results (entryValues (s.table id) pending))
      (s.withBody f (.entries id (laterKeys (s.table id) pending))) := by
  refine (gives_getTable id s).bind ?_
  rw [entryValues, laterKeys]
  cases firstPresent? (s.table id) pending with
  | none => exact (gives_modify _ s).bind (gives_pure _ _)
  | some found => exact (gives_modify _ s).bind (gives_pure _ _)

theorem invoke_iterator (h : Iterates f id pending s) (hdepth : s.depth < s.limits.callDepth)
    (remaining : Nat) (args : List Value) :
    Gives (invoke (remaining + 1) f args) s (results (entryValues (s.table id) pending))
      (s.withBody f (.entries id (laterKeys (s.table id) pending))) :=
  invoke_gives h.body_eq hdepth (stepEntries_gives f id pending s.deeper)

theorem call_iterator (h : Iterates f id pending s) (hdepth : s.depth < s.limits.callDepth)
    (remaining : Nat) (args : List Value) :
    Gives (call (invoke (remaining + 1)) (.function f) args) s (entryValues (s.table id) pending)
      (s.withBody f (.entries id (laterKeys (s.table id) pending))) :=
  call_gives h.body_eq hdepth (stepEntries_gives f id pending s.deeper)

end

/-! ## Calls with changes between them -/

/-- Calls of a function one after the other, from a state on.  What runs between two calls may
change all but the function itself. -/
structure CallsOf (f : FunctionId) (u : State) where
  /-- The states before the calls. -/
  states : Nat → State
  /-- The nested calls that each call has left. -/
  remaining : Nat → Nat
  /-- The arguments of the calls. -/
  args : Nat → List Value
  start : (states 0).functions[f.index]? = u.functions[f.index]?
  depth_lt : ∀ i, (states i).depth < (states i).limits.callDepth
  kept : ∀ i, (states (i + 1)).functions[f.index]? =
    (invoke (remaining i + 1) f (args i) (states i)).2.functions[f.index]?

namespace CallsOf

variable {f : FunctionId} {u : State} (c : CallsOf f u)

/-- The result of a call. -/
def answer (i : Nat) : Except Error Outcome :=
  (invoke (c.remaining i + 1) f (c.args i) (c.states i)).1

/-- A call returns a key and a value. -/
def Returns (i : Nat) (key v : Value) : Prop := c.answer i = .ok (results [key, v])

/-- A call returns nil. -/
def Ends (i : Nat) : Prop := c.answer i = .ok (results [.nil])

/-- The keys that are left before each call. -/
def pending (id : TableId) (keys : List Key) : Nat → List Key
  | 0 => keys
  | i + 1 => laterKeys ((c.states i).table id) (pending id keys i)

variable {c} {id : TableId} {keys : List Key}

theorem iterates (h : Iterates f id keys u) (i : Nat) :
    Iterates f id (c.pending id keys i) (c.states i) := by
  induction i with
  | zero =>
    obtain ⟨name, hf⟩ := h
    exact ⟨name, c.start.trans hf⟩
  | succ i ih =>
    obtain ⟨name, hf⟩ := ih.withBody (laterKeys ((c.states i).table id) (c.pending id keys i))
    refine ⟨name, (c.kept i).trans ?_⟩
    rw [invoke_iterator ih (c.depth_lt i)]
    exact hf

/-- A call ends the iteration, or returns the first key that has a value. -/
theorem step_cases (h : Iterates f id keys u) (i : Nat) :
    (c.Ends i ∧ c.pending id keys (i + 1) = [] ∧
        ∀ k ∈ c.pending id keys i, ((c.states i).table id).get? k = none) ∨
      ∃ skipped key v, c.Returns i key.toValue v ∧
        c.pending id keys i = skipped ++ key :: c.pending id keys (i + 1) ∧
        ((c.states i).table id).get? key = some v ∧
        ∀ k ∈ skipped, ((c.states i).table id).get? k = none := by
  have hanswer : c.answer i =
      .ok (results (entryValues ((c.states i).table id) (c.pending id keys i))) := by
    rw [answer, invoke_iterator (c.iterates h i) (c.depth_lt i)]
  rw [Ends, hanswer, pending, entryValues, laterKeys]
  rcases firstPresent?_cases ((c.states i).table id) (c.pending id keys i) with
    ⟨hnext, hnone⟩ | ⟨skipped, key, v, rest, hnext, hsplit, hv, hnone⟩
  · rw [hnext]
    exact Or.inl ⟨rfl, rfl, hnone⟩
  · refine Or.inr ⟨skipped, key, v, ?_, ?_, hv, hnone⟩
    · rw [Returns, hanswer, entryValues, hnext]
    · rwa [hnext]

theorem not_ends_of_returns {i : Nat} {key v : Value} (h : c.Returns i key v) : ¬ c.Ends i := by
  intro hends
  rw [Ends, h] at hends
  cases hends

/-- A call that returns a key passes it. -/
theorem split_of_returns (h : Iterates f id keys u) {i : Nat} {found v : Value}
    (hreturns : c.Returns i found v) :
    ∃ skipped key, found = key.toValue ∧
      c.pending id keys i = skipped ++ key :: c.pending id keys (i + 1) ∧
      ((c.states i).table id).get? key = some v := by
  rcases c.step_cases h i with ⟨hends, -⟩ | ⟨skipped, key, w, hkey, hsplit, hw, -⟩
  · exact absurd hends (not_ends_of_returns hreturns)
  · rw [Returns] at hreturns hkey
    rw [hreturns] at hkey
    cases hkey
    exact ⟨skipped, key, rfl, hsplit, hw⟩

theorem pending_suffix (h : Iterates f id keys u) {i j : Nat} (hij : i ≤ j) :
    c.pending id keys j <:+ c.pending id keys i := by
  induction j, hij using Nat.le_induction with
  | base => exact List.suffix_refl _
  | succ j _ ih =>
    refine List.IsSuffix.trans ?_ ih
    rcases c.step_cases h j with ⟨-, hnil, -⟩ | ⟨skipped, key, v, -, hsplit, -⟩
    · rw [hnil]
      exact List.nil_suffix
    · rw [hsplit]
      exact ⟨skipped ++ [key], by simp⟩

theorem ends_of_pending_eq_nil (h : Iterates f id keys u) {i : Nat}
    (hnil : c.pending id keys i = []) : c.Ends i := by
  rcases c.step_cases h i with ⟨hends, -⟩ | ⟨skipped, key, v, -, hsplit, -⟩
  · exact hends
  · rw [hnil] at hsplit
    simp at hsplit

theorem length_pending_le (h : Iterates f id keys u) (i : Nat) :
    (c.pending id keys i).length ≤ keys.length - i := by
  induction i with
  | zero => exact Nat.le_refl _
  | succ i ih =>
    rcases c.step_cases h i with ⟨-, hnil, -⟩ | ⟨skipped, key, v, -, hsplit, -⟩
    · rw [hnil]
      exact Nat.zero_le _
    · rw [hsplit, List.length_append, List.length_cons] at ih
      omega

/-- A key that has a value at each of some calls is left, or has been returned. -/
theorem left_or_returned (h : Iterates f id keys u) {k : Key} (hk : k ∈ keys) (n : Nat)
    (hpresent : ∀ i < n, ((c.states i).table id).get? k ≠ none) :
    k ∈ c.pending id keys n ∨ ∃ i < n, ∃ v, c.Returns i k.toValue v := by
  induction n with
  | zero => exact Or.inl hk
  | succ n ih =>
    rcases ih fun i hi => hpresent i (Nat.lt_succ_of_lt hi) with hleft | ⟨i, hi, hreturned⟩
    · have hnow := hpresent n (Nat.lt_succ_self n)
      rcases c.step_cases h n with ⟨-, -, hnone⟩ | ⟨skipped, key, v, hreturns, hsplit, -, hnone⟩
      · exact absurd (hnone k hleft) hnow
      · rw [hsplit, List.mem_append, List.mem_cons] at hleft
        rcases hleft with hskipped | rfl | hlater
        · exact absurd (hnone k hskipped) hnow
        · exact Or.inr ⟨n, Nat.lt_succ_self n, v, hreturns⟩
        · exact Or.inl hlater
    · exact Or.inr ⟨i, Nat.lt_succ_of_lt hi, hreturned⟩

end CallsOf

/-- Calls of an iterator over the entries that a table had, in states in which the table with an
identity may be another one each time. -/
structure Snapshot (t : Table) (id : TableId) {f : FunctionId} {u : State} (c : CallsOf f u) :
    Prop where
  /-- A call returns nil, or a key that the table had and the value that it has for it now. -/
  current : ∀ i, c.Ends i ∨ ∃ key v, c.Returns i key v ∧ t.rawGet key ≠ .nil ∧ v ≠ .nil ∧
    ((c.states i).table id).rawGet key = v
  /-- No key is returned twice. -/
  distinct : ∀ i j key v key' v', i < j → c.Returns i key v → c.Returns j key' v' →
    key.rawEqual key' = false
  /-- A key that the table had, and has at every call up to the first nil, is returned. -/
  complete : ∀ n key, c.Ends n → t.rawGet key ≠ .nil →
    (∀ i ≤ n, ((c.states i).table id).rawGet key ≠ .nil) →
    ∃ i < n, ∃ key' v, c.Returns i key' v ∧ key'.rawEqual key = true
  /-- After nil, every call returns nil. -/
  ended : ∀ i j, i ≤ j → c.Ends i → c.Ends j
  /-- Nil is returned after as many calls as the table had entries, if not before. -/
  finite : ∀ i, t.size ≤ i → c.Ends i
  /-- A call changes no table. -/
  quiet : ∀ i, (invoke (c.remaining i + 1) f (c.args i) (c.states i)).2.tables =
    (c.states i).tables

theorem CallsOf.snapshot {t : Table} {a : Arrangement} {id : TableId} {f : FunctionId} {u : State}
    (c : CallsOf f u) (h : Iterates f id (t.keys a) u) (hwf : t.WellFormed)
    (hstates : ∀ i, ((c.states i).table id).WellFormed) : Snapshot t id c where
  current i := by
    rcases c.step_cases h i with ⟨hends, -⟩ | ⟨skipped, key, v, hreturns, hsplit, hv, -⟩
    · exact Or.inl hends
    · have hsuffix : c.pending id (t.keys a) i <:+ t.keys a := pending_suffix h (Nat.zero_le i)
      have hmem : key ∈ t.keys a := hsuffix.mem (by simp [hsplit])
      obtain ⟨w, hw⟩ := Option.isSome_iff_exists.mp ((hwf.mem_keys a key).mp hmem)
      have hkey := Key.ofValue?_toValue (hwf.proper hw).2
      refine Or.inr ⟨key.toValue, v, hreturns, ?_, ((hstates i).proper hv).1, ?_⟩
      · rw [Table.rawGet_of_key hkey, Table.get, hw]
        exact (hwf.proper hw).1
      · rw [Table.rawGet_of_key hkey, Table.get, hv]
        rfl
  distinct i j found v found' v' hij hreturns hreturns' := by
    obtain ⟨skipped, key, rfl, hsplit, hv⟩ := split_of_returns h hreturns
    obtain ⟨skipped', key', rfl, hsplit', hv'⟩ := split_of_returns h hreturns'
    have hnodup : (c.pending id (t.keys a) i).Nodup :=
      (hwf.keys_nodup a).sublist (pending_suffix h (Nat.zero_le i)).sublist
    have hlater : key' ∈ c.pending id (t.keys a) (i + 1) :=
      (pending_suffix h hij).mem (by simp [hsplit'])
    rw [Key.rawEqual_toValue_eq_false_iff ((hstates i).proper hv).2 ((hstates j).proper hv').2]
    rintro rfl
    rw [hsplit, List.nodup_append'] at hnodup
    exact (List.nodup_cons.mp hnodup.2.1).1 hlater
  complete n found hends hfound hpresent := by
    obtain ⟨k, hk, hsome⟩ := hwf.key_of_rawGet hfound
    have hnow : ∀ i ≤ n, ((c.states i).table id).get? k ≠ none := by
      intro i hi hnone
      refine hpresent i hi ?_
      rw [Table.rawGet_of_key hk, Table.get, hnone]
      rfl
    rcases left_or_returned h ((hwf.mem_keys a k).mpr hsome) n fun i hi => hnow i (Nat.le_of_lt hi)
      with hleft | ⟨i, hi, v, hreturned⟩
    · rcases c.step_cases h n with ⟨-, -, hnone⟩ | ⟨_, _, _, hreturns, -⟩
      · exact absurd (hnone k hleft) (hnow n (Nat.le_refl n))
      · exact absurd hends (not_ends_of_returns hreturns)
    · refine ⟨i, hi, k.toValue, v, hreturned, ?_⟩
      rwa [← Key.ofValue?_eq_some_iff_rawEqual (Key.ofValue?_toValue (Key.proper_of_ofValue? hk))]
  ended i j hij hends := by
    rcases Nat.eq_or_lt_of_le hij with rfl | hlt
    · exact hends
    · refine ends_of_pending_eq_nil h ?_
      rcases c.step_cases h i with ⟨-, hnil, -⟩ | ⟨_, _, _, hreturns, -⟩
      · have hsuffix : c.pending id (t.keys a) j <:+ c.pending id (t.keys a) (i + 1) :=
          pending_suffix h hlt
        rw [hnil] at hsuffix
        exact List.suffix_nil.mp hsuffix
      · exact absurd hends (not_ends_of_returns hreturns)
  finite i hi := by
    refine ends_of_pending_eq_nil h (List.eq_nil_of_length_eq_zero ?_)
    have hlength := c.length_pending_le h i
    rw [Table.length_keys] at hlength
    omega
  quiet i := by
    rw [invoke_iterator (c.iterates h i) (c.depth_lt i)]
    rfl

/-! ## A table that does not change -/

theorem Key.toValue_ne_nil (k : Key) : k.toValue ≠ .nil := by
  cases k with
  | object id => cases id <;> nofun
  | _ => nofun

namespace Table

/-- The entry at a key. -/
def keyed (t : Table) (k : Key) : KeyedValue := ⟨k.toValue, t.get k⟩

theorem keyed_of_get? {t : Table} {k : Key} {v : Value} (h : t.get? k = some v) :
    t.keyed k = ⟨k.toValue, v⟩ := by
  rw [keyed, get, h]
  rfl

theorem filter_eq_nil_of_get? {t : Table} {keys : List Key} (h : ∀ k ∈ keys, t.get? k = none) :
    (keys.filter fun k => (t.get? k).isSome) = [] :=
  List.filter_eq_nil_iff.mpr fun k hk => by simp [h k hk]

/-- The entries of a table in the order of its keys, as raw reads find them. -/
def listing (t : Table) (a : Arrangement) : List KeyedValue :=
  (t.keys a).map fun k => ⟨k.toValue, t.rawGet k.toValue⟩

namespace WellFormed

variable {t : Table} (h : t.WellFormed) (a : Arrangement)
include h

theorem listing_eq : t.listing a = (t.keys a).map t.keyed := by
  refine List.map_congr_left fun k hk => ?_
  obtain ⟨v, hv⟩ := Option.isSome_iff_exists.mp ((h.mem_keys a k).mp hk)
  rw [keyed, rawGet_of_key (Key.ofValue?_toValue (h.proper hv).2)]

/-- The keys with a value, in the order of a walk, are the keys of the table. -/
theorem filter_order_perm :
    ((t.order a).toList.filter fun k => (t.get? k).isSome).Perm (t.keys a) := by
  have horder := h.isOrder_order a
  refine (List.perm_ext_iff_of_nodup (horder.nodup.filter _) (h.keys_nodup a)).mpr fun k => ?_
  rw [h.mem_keys, List.mem_filter, Array.mem_toList_iff]
  exact ⟨And.right, fun hk => ⟨horder.complete k hk, hk⟩⟩

theorem filter_order_eq (hlisted : t.Listed a) :
    (t.order a).toList.filter (fun k => (t.get? k).isSome) = t.keys a := by
  have hpresent : (t.keys a).filter (fun k => (t.get? k).isSome) = t.keys a :=
    List.filter_eq_self.mpr fun k hk => (h.mem_keys a k).mp hk
  have hsublist := List.Sublist.filter (fun k => (t.get? k).isSome) hlisted
  rw [hpresent] at hsublist
  exact (hsublist.eq_of_length (h.filter_order_perm a).length_eq.symm).symm

end WellFormed

end Table

/-- The iterator of `pairs` goes over the keys that are left, if all of them have a value. -/
theorem drives_entries (remaining : Nat) {f : FunctionId} {id : TableId} :
    ∀ (pending : List Key) {u : State} (control : Value), Iterates f id pending u →
      u.depth < u.limits.callDepth → (∀ k ∈ pending, ((u.table id).get? k).isSome = true) →
      ∃ w, Drives (invoke (remaining + 1)) (.function f) (.table id) u control
          (pending.map (u.table id).keyed) w ∧ w.tables = u.tables
  | [], u, control, hf, hdepth, _ => by
      exact ⟨_, .stop (call_iterator hf hdepth remaining [.table id, control]), rfl⟩
  | key :: rest, u, control, hf, hdepth, hpresent => by
      obtain ⟨hkey, hrest⟩ := List.forall_mem_cons.mp hpresent
      obtain ⟨v, hv⟩ := Option.isSome_iff_exists.mp hkey
      have hnext : firstPresent? (u.table id) (key :: rest) = some (key, v, rest) := by
        rw [firstPresent?, hv]
      have hcall := call_iterator hf hdepth remaining [.table id, control]
      rw [entryValues, laterKeys, hnext] at hcall
      obtain ⟨w, hdrives, htables⟩ := drives_entries remaining rest
        (u := u.withBody f (.entries id rest)) key.toValue (hf.withBody rest) hdepth hrest
      refine ⟨w, ?_, htables⟩
      rw [List.map_cons, Table.keyed_of_get? hv]
      exact .step hcall key.toValue_ne_nil hdrives

/-- What `next` returns for an entry, or at the end. -/
def foundValues : Option (Key × Value) → List Value
  | some (key, v) => [key.toValue, v]
  | none => [.nil]

/-- The state after a step of `next`. -/
def State.afterNext (s : State) (id : TableId) (control : Value) : State :=
  s.modifyTable id fun _ => ((s.table id).next s.arrangement control).2

/-- A step of `next` remembers the order and a place in it, and changes no value. -/
theorem State.table_afterNext {s : State} {id : TableId} (hwf : (s.table id).WellFormed)
    (control : Value) :
    ((s.afterNext id control).table id).WellFormed ∧
      ((s.afterNext id control).table id).order s.arrangement = (s.table id).order s.arrangement ∧
      ∀ k, ((s.afterNext id control).table id).get? k = (s.table id).get? k := by
  rw [State.afterNext]
  rcases Nat.lt_or_ge id.index s.tables.size with hlt | hge
  · rw [State.table_modifyTable hlt]
    exact ⟨hwf.next _ control, Table.order_next _ _ _ _, Table.get?_next_snd _ _ _⟩
  · rw [State.modifyTable_of_le hge]
    exact ⟨hwf, rfl, fun _ => rfl⟩

theorem nextOf_gives {s : State} {id : TableId} {control : Value} {found : Option (Key × Value)}
    (h : ((s.table id).next s.arrangement control).1 = .ok found) :
    Gives (nextOf [.table id, control]) s (results (foundValues found))
      (s.afterNext id control) := by
  have hid : Argument.table [.table id, control] 1 "next" = .ok id := rfl
  have hupdate : Gives (nextEntry id control) s found (s.afterNext id control) :=
    (gives_get s).bind ((gives_getTable id s).bind ((gives_modify _ s).bind (gives_lift h _)))
  refine (gives_lift hid s).bind (hupdate.bind ?_)
  cases found <;> exact gives_pure _ _

/-- A walk of `next` goes over the keys ahead of it that have a value. -/
theorem drives_next (remaining : Nat) {g : FunctionId} {id : TableId} {s : State}
    {control : Value} {passed ahead : List Key}
    (hbody : (s.function g).body = .builtin (.base .next))
    (hdepth : s.depth < s.limits.callDepth) (hwf : (s.table id).WellFormed)
    (hsplit : ((s.table id).order s.arrangement).toList = passed ++ ahead)
    (hstands : Table.Stands ((s.table id).order s.arrangement) control passed.length) :
    ∃ w, Drives (invoke (remaining + 1)) (.function g) (.table id) s control
      ((ahead.filter fun k => ((s.table id).get? k).isSome).map (s.table id).keyed) w := by
  rcases hwf.next_of_split hsplit hstands with ⟨hnext, hnone⟩ |
    ⟨skipped, key, v, rest, hnext, hahead, hv, hnone⟩
  · rw [Table.filter_eq_nil_of_get? hnone]
    exact ⟨_, .stop (call_gives hbody hdepth (nextOf_gives (s := s.deeper) hnext))⟩
  · obtain ⟨hwf', horder, hget⟩ := State.table_afterNext hwf control
    have hsplit' : (((s.afterNext id control).table id).order s.arrangement).toList =
        (passed ++ skipped ++ [key]) ++ rest := by
      rw [horder, hsplit, hahead]
      simp
    obtain ⟨w, hdrives⟩ := drives_next remaining (s := s.afterNext id control) hbody hdepth hwf'
      hsplit' (Table.stands_of_split hsplit')
    have hkeyed : ((s.afterNext id control).table id).keyed = (s.table id).keyed :=
      funext fun k => by rw [Table.keyed, Table.keyed, Table.get, Table.get, hget]
    simp only [hget, hkeyed] at hdrives
    rw [hahead, List.filter_append, Table.filter_eq_nil_of_get? hnone, List.nil_append,
      List.filter_cons, hv, Option.isSome_some, if_pos rfl, List.map_cons, Table.keyed_of_get? hv]
    exact ⟨w, .step (call_gives hbody hdepth (nextOf_gives (s := s.deeper) hnext))
      key.toValue_ne_nil hdrives⟩
termination_by ahead.length
decreasing_by
  rw [hahead, List.length_append, List.length_cons]
  omega

/-! ## Snapshots and walks -/

/-- `pairs` adds a function to the state, and nothing else. -/
theorem pairs_gives (via : Invoke) {s : State} {id : TableId} {args : List Value}
    (htable : Argument.get? args 1 = some (.table id)) :
    Gives (runBase via .pairs args) s (results [.function ⟨s.functions.size⟩, .table id, .nil])
      (s.withFunction ⟨"pairs_iter", .entries id ((s.table id).keys s.arrangement)⟩) := by
  have hid : Argument.table args 1 "pairs" = .ok id := by rw [Argument.table, htable]
  have hkeys : Gives (tableKeys id) s ((s.table id).keys s.arrangement) s :=
    (gives_getTable id s).bind ((gives_get s).bind (gives_pure _ s))
  exact (gives_lift hid s).bind (hkeys.bind ((newFunction_gives _ s).bind (gives_pure _ _)))

theorem iterates_withFunction (s : State) (name : String) (id : TableId) (keys : List Key) :
    Iterates ⟨s.functions.size⟩ id keys (s.withFunction ⟨name, .entries id keys⟩) :=
  ⟨name, Array.getElem?_push_size⟩

/-- The iterator of `pairs` is a snapshot of the keys of a reachable table.

* It may be called again and again, with whatever arguments and nested calls, and the table may be
  any well-formed one at each call, as it is after any edits.  Then it never fails, returns only
  keys that the table had at first, no two of them raw equal, each with the value other than nil
  that the table has for it now, and returns every key that has a value at each call.  It comes
  to nil at last, returns nil from then on, and changes no table.
* If nothing changes, a loop over it goes through the entries of the table, as many as there are,
  and so does a loop over `next`.  If the order that the table remembers lists the keys as they are
  arranged now, both go through them in the same order.
* The keys are in order: strings, indices ascending, other numbers, false, true, and the tables and
  functions among them as the edits that made the table have added them.  If these edits have found
  the keys in the arrangement of now, and it is steady, the table remembers them in that order. -/
theorem pairs_is_snapshot_and_agrees_with_next (remaining : Nat) {start : Table}
    (hreachable : Table.Reachable start) {metatable : Option TableId} {hint : Nat} {s : State}
    {id : TableId} (htable : s.table id = { start with metatable, hint })
    (hdepth : s.depth < s.limits.callDepth) {args : List Value}
    (hargs : Argument.get? args 1 = some (.table id)) :
    let via := invoke (remaining + 1)
    let t := s.table id
    let a := s.arrangement
    (∃ f u, Gives (runBase via .pairs args) s (results [.function f, .table id, .nil]) u ∧
      u.tables = s.tables ∧
      (∀ c : CallsOf f u, (∀ i, ((c.states i).table id).WellFormed) → Snapshot t id c) ∧
      ∃ w, Drives via (.function f) (.table id) u .nil (t.listing a) w ∧ w.tables = s.tables) ∧
    (∀ g, (s.function g).body = .builtin (.base .next) →
      ∃ entries w, Drives via (.function g) (.table id) s .nil entries w ∧
        entries.Perm (t.listing a) ∧ (t.Listed a → entries = t.listing a)) ∧
    (t.listing a).length = t.size ∧
    (∃ edits, Table.Makes edits {} start) ∧
    ∀ edits, Table.Makes edits {} start →
      Table.InKeyOrder (t.keys a) (edits.foldl Table.Edit.listObject []) ∧
        (a.Steady → (∀ e ∈ edits, e.ListsBy a) → t.Listed a) := by
  intro via t a
  have hwf : (s.table id).WellFormed := htable ▸ hreachable.wellFormed.withHint metatable hint
  have hlisting : t.listing a = (t.keys a).map t.keyed := hwf.listing_eq a
  refine ⟨?_, ?_, ?_, hreachable.exists_history, ?_⟩
  · have hf := iterates_withFunction s "pairs_iter" id (t.keys a)
    obtain ⟨w, hdrives, htables⟩ := drives_entries remaining (t.keys a) .nil hf hdepth
      fun k hk => (hwf.mem_keys a k).mp hk
    rw [hlisting]
    exact ⟨_, _, pairs_gives via hargs, rfl, fun c hstates => c.snapshot hf hwf hstates, w, hdrives,
      htables⟩
  · intro g hbody
    have hsplit : (t.order a).toList = [] ++ (t.order a).toList := rfl
    obtain ⟨w, hdrives⟩ := drives_next remaining hbody hdepth hwf hsplit .start
    refine ⟨_, w, hdrives, ?_, fun hlisted => ?_⟩
    · rw [hlisting]
      exact (hwf.filter_order_perm a).map t.keyed
    · rw [hlisting, ← hwf.filter_order_eq a hlisted]
  · rw [Table.listing, List.length_map, Table.length_keys]
  · intro edits hmakes
    have hobjects : t.objectKeys = edits.foldl Table.Edit.listObject [] := by
      show (s.table id).objectKeys = _
      rw [htable, ← hmakes.applyAll]
      exact Table.objectKeys_applyAll edits {}
    rw [← hobjects]
    refine ⟨hwf.inKeyOrder a, fun ha hby => ?_⟩
    have hempty := Table.listed_of_traversal_eq_none (t := {}) rfl a
    have hstart := hmakes.listed ha hby Table.wellFormed_empty hempty
    show (s.table id).Listed a
    rw [htable]
    exact hstart

/-- A runtime with two answers in a table, and `next`. -/
def withAnswers : State :=
  { State.initial {} .keep 0 with
    tables := #[Table.answers]
    functions := #[⟨"next", .builtin (.base .next)⟩] }

/-- The states before calls of a function, with the entry at true cleared after each call. -/
def clearedStates (f : FunctionId) (u : State) : Nat → State
  | 0 => u
  | i + 1 => (invoke 1 f [] (clearedStates f u i)).2.modifyTable ⟨0⟩ (·.rawSet (.boolean true) .nil)

theorem level_clearedStates (f : FunctionId) (u : State) (i : Nat) :
    u.Level (clearedStates f u i) := by
  induction i with
  | zero => exact frame_level.refl u
  | succ i ih =>
    have hcall := level_invoke 1 f [] (clearedStates f u i)
    exact frame_level.trans ih ⟨hcall.depth_eq, hcall.limits_eq⟩

/-- Calls of a function with these states. -/
def clearedCalls (f : FunctionId) {u : State} (hdepth : u.depth < u.limits.callDepth) :
    CallsOf f u where
  states := clearedStates f u
  remaining _ := 0
  args _ := []
  start := rfl
  depth_lt i := by
    rw [(level_clearedStates f u i).depth_eq, (level_clearedStates f u i).limits_eq]
    exact hdepth
  kept _ := rfl

section

variable {f : FunctionId} {u : State} {keys : List Key} (hdepth : u.depth < u.limits.callDepth)
  (hf : Iterates f ⟨0⟩ keys u)
include hdepth hf

theorem table_clearedStates (i : Nat) :
    (clearedStates f u (i + 1)).table ⟨0⟩ =
      ((clearedStates f u i).modifyTable ⟨0⟩ (·.rawSet (.boolean true) .nil)).table ⟨0⟩ := by
  have hcall := invoke_iterator ((clearedCalls f hdepth).iterates hf i)
    ((clearedCalls f hdepth).depth_lt i) 0 []
  have hstate : (clearedCalls f hdepth).states i = clearedStates f u i := rfl
  rw [hstate, Gives] at hcall
  rw [clearedStates, hcall]
  rfl

theorem wellFormed_clearedStates (hwf : (u.table ⟨0⟩).WellFormed) (i : Nat) :
    ((clearedStates f u i).table ⟨0⟩).WellFormed := by
  induction i with
  | zero => exact hwf
  | succ i ih =>
    rw [table_clearedStates hdepth hf]
    rcases Nat.lt_or_ge 0 (clearedStates f u i).tables.size with hlt | hge
    · rw [State.table_modifyTable hlt]
      exact ih.rawSet _ _
    · rwa [State.modifyTable_of_le hge]

end

/-- The entry at true is cleared after each call of the iterator, which comes to its end all the
same.  Without a change, it goes through both entries, and so does `next`. -/
theorem withAnswers_pairs_is_snapshot :
    Table.Reachable Table.answers ∧ withAnswers.depth < withAnswers.limits.callDepth ∧
      (∃ f u, Gives (runBase (invoke 1) .pairs [.table ⟨0⟩]) withAnswers
          (results [.function f, .table ⟨0⟩, .nil]) u ∧
        (∃ c : CallsOf f u, ((c.states 1).table ⟨0⟩).rawGet (.boolean true) = .nil ∧ c.Ends 2) ∧
        ∃ w, Drives (invoke 1) (.function f) (.table ⟨0⟩) u .nil
          [⟨.boolean false, .string "no"⟩, ⟨.boolean true, .string "yes"⟩] w) ∧
      ∃ w, Drives (invoke 1) (.function ⟨0⟩) (.table ⟨0⟩) withAnswers .nil
          [⟨.boolean false, .string "no"⟩, ⟨.boolean true, .string "yes"⟩] w := by
  have hdepth : withAnswers.depth < withAnswers.limits.callDepth := by decide
  have htable : withAnswers.table ⟨0⟩ =
    { Table.answers with metatable := none, hint := 0 } := rfl
  have hargs : Argument.get? [.table ⟨0⟩] 1 = some (.table ⟨0⟩) := rfl
  have hlisting : (withAnswers.table ⟨0⟩).listing withAnswers.arrangement =
      [⟨.boolean false, .string "no"⟩, ⟨.boolean true, .string "yes"⟩] := by
    have hkeys : (withAnswers.table ⟨0⟩).keys withAnswers.arrangement =
        [.boolean false, .boolean true] := by
      decide +kernel
    rw [Table.listing, hkeys]
    rfl
  obtain ⟨⟨f, u, hgives, htables, hsnapshot, hpairs⟩, hnext, -⟩ :=
    pairs_is_snapshot_and_agrees_with_next 0 Table.reachable_answers htable hdepth hargs
  obtain ⟨w, hdrives, -⟩ := hpairs
  obtain ⟨entries, w', hdrives', -, hsame⟩ := hnext ⟨0⟩ rfl
  obtain rfl := hsame (Table.listed_of_traversal_eq_none rfl _)
  rw [hlisting] at hdrives hdrives'
  refine ⟨Table.reachable_answers, hdepth, ⟨f, u, hgives, ?_, w, hdrives⟩, w', hdrives'⟩
  have hsame := hgives.symm.trans (pairs_gives (invoke 1) hargs)
  obtain ⟨houtcome, rfl⟩ := Prod.mk.inj hsame
  obtain rfl : f = ⟨withAnswers.functions.size⟩ := by
    injection houtcome with houtcome
    injection houtcome with hvalues
    injection hvalues with hfunction
    injection hfunction
  have hf := iterates_withFunction withAnswers "pairs_iter" ⟨0⟩
    ((withAnswers.table ⟨0⟩).keys withAnswers.arrangement)
  have hstates := wellFormed_clearedStates (u := withAnswers.withFunction _) hdepth hf
    Table.reachable_answers.wellFormed
  have hends := (hsnapshot (clearedCalls _ hdepth) hstates).finite 2 (by decide +kernel)
  refine ⟨clearedCalls _ hdepth, ?_, hends⟩
  have hcleared := table_clearedStates (u := withAnswers.withFunction _) hdepth hf 0
  rw [State.table_modifyTable (by decide)] at hcleared
  show ((clearedStates _ _ 1).table ⟨0⟩).rawGet _ = _
  rw [hcleared]
  rfl

end LuaRuntime
