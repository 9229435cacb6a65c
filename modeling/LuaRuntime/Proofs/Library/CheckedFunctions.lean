import LuaRuntime.Library.Math
import LuaRuntime.Proofs.Library.CheckedArithmetic
import LuaRuntime.Proofs.Library.SearchPositions
import LuaRuntime.Proofs.Library.SequenceViews

/-!
# Checked functions

The functions of the library that count positions and lengths, written once more with checked
arithmetic: the values of a call, the characters of a text, the places of a match and the digits of
a word.  Wherever the arguments and what they lead to are held in memory (`FitsMemory`), each gives
what the function itself gives, so that none of its operations overflows.

A position may be any integer of 64 bits.  It is never added to another one: it is counted from the
end of something that is held in memory, moved by one, or compared.  The distance of the ends of a
range is the exception, and `unpack` checks it.  A step of `ipairs` moves its control by one without
a check, so that its control must not be the greatest integer.  It and `unpack` read a table at
integers far below 1, and none of these may lie between two doubles.
-/

namespace LuaRuntime

/-- What a call works on is sound and held in memory: its arguments, the texts among them, and the
entries of a table that comes first. -/
structure FitsMemory (s : State) (args : List Value) : Prop where
  /-- The number of arguments. -/
  count : IsLength args.length
  /-- The encoded texts. -/
  bytes : ∀ {place : ℕ} {function text : String},
    Argument.string args place function = .ok text → IsLength text.utf8ByteSize
  /-- The entries of the table, and two more. -/
  table : ∀ {id : TableId}, Argument.get? args 1 = some (.table id) →
    id.index < s.tables.size ∧ (s.table id).WellFormed ∧ IsLength ((s.table id).size + 1)
  /-- A pattern that was read before is the one that its text spells. -/
  caches : s.SoundCaches

theorem length_le_utf8ByteSize (s : String) : s.length ≤ s.utf8ByteSize := by
  rw [← String.utf8Len_toList, ← String.length_toList]
  induction s.toList with
  | nil => rfl
  | cons c cs ih =>
    have hpos := c.utf8Size_pos
    rw [String.utf8Len_cons, List.length_cons]
    omega

theorem FitsMemory.length {s : State} {args : List Value} (h : FitsMemory s args) {place : ℕ}
    {function text : String} (htext : Argument.string args place function = .ok text) :
    IsLength text.length := by
  have hbytes := h.bytes htext
  have hle := length_le_utf8ByteSize text
  rw [IsLength] at *
  omega

/-- The entries of a table that comes first are counted within 64 bits. -/
theorem FitsMemory.items {s : State} {args : List Value} (h : FitsMemory s args) {id : TableId}
    (htable : Argument.get? args 1 = some (.table id)) :
    IsLength ((s.table id).length + 1) := by
  obtain ⟨-, hwf, hsize⟩ := h.table htable
  have hle := Table.size_items_le (s.table id) hwf.toContents
  rw [hwf.size_items] at hle
  rw [IsLength] at *
  omega

theorem Argument.table_eq_ok_iff {args : List Value} {place : ℕ} {function : String}
    {id : TableId} :
    Argument.table args place function = .ok id ↔
      Argument.get? args place = some (.table id) := by
  rw [Argument.table]
  split
  · next hget => rw [hget, Except.ok.injEq, Option.some.injEq, Value.table.injEq]
  · next hget => exact iff_of_false (by rintro ⟨⟩) (hget id)

/-- A match that is found with a pattern that was read lies in the text. -/
theorem FitsMemory.liesAt {s t : State} {args : List Value} (h : FitsMemory s args)
    {text source : String} {c : CompiledPattern}
    (hread : Gives (readPattern Regex.backtracking source) s c t) {init : ℤ} {start : Cursor}
    (hstart : searchStart? text init = some start) {m : Match}
    (hfind : c.findAt text start = some m) : ∃ i j, m.LiesAt text i j := by
  rw [Gives, readPattern_run, h.caches.patterns.read_fst] at hread
  cases hc : CompiledPattern.new Regex.backtracking source with
  | error fault =>
    rw [hc] at hread
    cases hread
  | ok c' =>
    rw [hc] at hread
    cases hread
    obtain ⟨p, -, hparse, -⟩ := CompiledPattern.new_eq_ok_iff.mp hc
    have hfound : c.findFrom? text init = some m := by
      rw [CompiledPattern.findFrom?, hstart, Option.bind_some, hfind]
    obtain ⟨i, j, hlies, -⟩ := CompiledPattern.findFrom?_liesAt Regex.backtracking_isLeftmostFirst
      hparse hc hfound
    exact ⟨i, j, hlies⟩

namespace Checked

section

variable (overflow : Error)

/-! ## Lists of values -/

/-- `select`. -/
def select (args : List Value) : Except Error Outcome := do
  let selector ← Argument.any args 1 "select"
  let rest := args.drop 1
  if selector.rawEqual (.string "#") then return replacing [.ofNat rest.length]
  else
    match selector.toInteger? with
    | none => throw (.badArgument 1 "select" .notNumeric)
    | some position =>
        let count ← signed overflow rest.length
        let offset ← signed overflow (if position < 0 then count + position else position - 1)
        if position = 0 ∨ offset < 0 then throw (.badArgument 1 "select" .indexOutOfRange)
        else return replacing (rest.drop (← size overflow offset))

/-- The values of a table between two integers.  The distance of the ends has a check of its own,
which is part of `unpack`. -/
def unpackRange (t : Table) (first last : ℤ) : Except Error Outcome :=
  if last < first then .ok (replacing [])
  else if ¬ IsSigned (last - first) ∨ unpackLimit ≤ last - first then .error .unpackTooMany
  else (valuesFrom overflow t (last - first + 1).toNat first).map replacing

/-- `unpack`. -/
def unpack (args : List Value) : Action Outcome := do
  let id ← Argument.table args 1 "unpack"
  let first := (← Argument.optional Argument.integer args 2 "unpack").getD 1
  let last ←
    match ← Argument.optional Argument.integer args 3 "unpack" with
    | some last => pure last
    | none => signed overflow (← tableLength id)
  unpackRange overflow (← getTable id) first last

/-- A step of `ipairs`. -/
def ipairsStep (args : List Value) : Action Outcome := do
  let id ← Argument.table args 1 "ipairs"
  let i ← signed overflow ((← Argument.integer args 2 "ipairs") + 1)
  let v ← getInteger overflow (← getTable id) i
  if v.isNil then return results [.nil]
  else return results [.number (← double overflow i), v]

/-! ## Texts -/

/-- `string.byte`. -/
def codesOfRange (args : List Value) : Except Error (List Value) := do
  let s ← Argument.string args 1 "byte"
  let first := (← Argument.optional Argument.integer args 2 "byte").getD 1
  let last := (← Argument.optional Argument.integer args 3 "byte").getD first
  match ← extent? overflow s first last with
  | some (skipped, taken) =>
      return ((s.toList.drop skipped).take taken).map fun c => .ofNat c.toNat
  | none => return []

/-- `string.sub`. -/
def subString (args : List Value) : Except Error String := do
  let s ← Argument.string args 1 "sub"
  let first := (← Argument.optional Argument.integer args 2 "sub").getD 1
  let last := (← Argument.optional Argument.integer args 3 "sub").getD (-1)
  slice overflow s first last

/-- The first and the last position of a plain text that was found at a place, which is one of the
bytes of the searched text. -/
def textEnds (place : Cursor) (wanted : String) : Except Error (List Value) := do
  let _found ← size overflow place.offset.byteIdx
  let first ← size overflow (place.position + 1)
  let past ← size overflow (first + wanted.length)
  let last ← size overflow (past - 1)
  return [.ofNat first, .ofNat last]

/-- The first and the last position of a match. -/
def matchEnds (m : Match) : Except Error (List Value) := do
  let first ← size overflow (m.start.position + 1)
  let past ← size overflow (m.stop.position + 1)
  let last ← size overflow (past - 1)
  return [.ofNat first, .ofNat last]

/-- The value of a capture.  A position is one more than the number of characters before it. -/
def captureValue (s : String) : Capture → Except Error Value
  | .text start stop => .ok (Capture.value s (.text start stop))
  | .position place => (size overflow place).map .ofNat

/-- The values of the captures. -/
def captureValues (m : Match) (s : String) : Except Error (List Value) :=
  m.captures.mapM (captureValue overflow s)

/-- The values of the captures, or the matched text if there are none. -/
def matchValues (m : Match) (s : String) : Except Error (List Value) :=
  if m.captures.isEmpty then .ok [.string (m.whole s)] else captureValues overflow m s

/-- `string.find`. -/
def findIn (args : List Value) : Action (List Value) := do
  let s ← Argument.string args 1 "find"
  let source ← Argument.string args 2 "find"
  let position := (← Argument.optional Argument.integer args 3 "find").getD 1
  match ← searchStart? overflow s position with
  | none => return [.nil]
  | some start =>
      if (Argument.get args 4).isTruthy || Pattern.isPlain source then
        match Text.find? s source start with
        | some place => textEnds overflow place source
        | none => return [.nil]
      else
        let p ← readPattern Regex.backtracking source
        match p.findAt s start with
        | none => return [.nil]
        | some m => return (← matchEnds overflow m) ++ (← captureValues overflow m s)

/-- `string.match`. -/
def matchIn (args : List Value) : Action (List Value) := do
  let s ← Argument.string args 1 "match"
  let source ← Argument.string args 2 "match"
  let position := (← Argument.optional Argument.integer args 3 "match").getD 1
  match ← searchStart? overflow s position with
  | none => return [.nil]
  | some start =>
      let p ← readPattern Regex.backtracking source
      match p.findAt s start with
      | none => return [.nil]
      | some m => matchValues overflow m s

/-! ## Words -/

/-- The last hexadecimal digits of a word. -/
def hexText (w : Word) (count : ℤ) : Except Error String := do
  let magnitude ← size overflow count.natAbs
  let shown := min 8 (max 1 magnitude)
  let dropped ← size overflow (8 - shown)
  let digits := ((Nat.toDigits 16 w.toNat).leftpad 8 '0').drop dropped
  return String.ofList (if count < 0 then digits.map Char.toUpper else digits)

/-- `bit.tohex`. -/
def toHex (args : List Value) : Except Error Value := do
  let w ← wordArgument args 1 "tohex"
  let count := (← Argument.optional Argument.integer args 2 "tohex").getD 8
  return .string (← hexText overflow w count)

end

/-! ## Nothing overflows -/

variable {overflow : Error} {s : State} {args : List Value}

theorem select_eq (h : FitsMemory s args) : select overflow args = LuaRuntime.select args := by
  refine bind_congr_ok fun selector _ => ?_
  dsimp only
  split
  · rfl
  · cases hposition : selector.toInteger? with
    | none => rfl
    | some position =>
      have hsigned := isSigned_iff.mp (Value.toInteger?_mem hposition)
      have hcount := h.count
      rw [IsLength] at hcount
      have hrest : (args.drop 1).length ≤ args.length := by
        rw [List.length_drop]
        omega
      have hoffset : IsSigned (if position < 0 then ((args.drop 1).length : ℤ) + position
          else position - 1) := isSigned_iff.mpr (by split <;> omega)
      dsimp only
      rw [signed_eq (isSigned_iff.mpr (by omega)), ok_bind, signed_eq hoffset, ok_bind,
        selectOffset?]
      rw [isSigned_iff] at hoffset
      generalize (if position < 0 then ((args.drop 1).length : ℤ) + position else position - 1) =
        offset at hoffset
      split
      · rfl
      · rw [size_eq (Int.toNat_of_nonneg (by omega)).symm (by omega), ok_bind]

/-- A distance that is no integer of 64 bits is beyond the limit of `unpack`. -/
theorem unpackRange_eq (t : Table) {first last : ℤ} (hlast : IsSigned last)
    (hexact : last - first < unpackLimit → ∀ i, first ≤ i → i ≤ last → ¬ IsRounded i) :
    unpackRange overflow t first last =
      if last < first then .ok (replacing [])
      else if unpackLimit ≤ last - first then .error .unpackTooMany
      else .ok (replacing (LuaRuntime.valuesFrom t (last - first + 1).toNat first)) := by
  have hdistance : last < first ∨ ((¬ IsSigned (last - first) ∨ unpackLimit ≤ last - first) ↔
      unpackLimit ≤ last - first) := by
    rw [isSigned_iff] at *
    rw [unpackLimit]
    omega
  rw [isSigned_iff] at hlast
  rw [unpackRange]
  split
  · rfl
  · next hle =>
    rw [if_congr (hdistance.resolve_left hle) rfl rfl]
    split
    · rfl
    · next hspan =>
      have hreads := hexact (Int.not_le.mp hspan)
      rw [valuesFrom_eq t (by omega) fun i hfirst hi => hreads i hfirst (by omega)]
      rfl

theorem unpack_eq (h : FitsMemory s args)
    (hexact : ∀ id first last, RangeArguments args id 2 first last → last - first < unpackLimit →
      ∀ i, first ≤ i → i ≤ last → ¬ IsRounded i) :
    unpack overflow args s = LuaRuntime.unpack args s := by
  refine lift_bind_congr fun id hid => lift_bind_congr fun first hfirst => ?_
  -- What is left once the last position is known, which may have changed the state.
  have hrest : ∀ (last : ℤ) (t : State), IsSigned last →
      (last - first.getD 1 < unpackLimit →
        ∀ i, first.getD 1 ≤ i → i ≤ last → ¬ IsRounded i) →
      ((do unpackRange overflow (← getTable id) (first.getD 1) last) : Action Outcome) t =
      ((if last < first.getD 1 then pure (replacing [])
        else if unpackLimit ≤ last - first.getD 1 then throw .unpackTooMany
        else do
          return replacing (LuaRuntime.valuesFrom (← getTable id) (last - first.getD 1 + 1).toNat
            (first.getD 1))) : Action Outcome) t := by
    intro last t hto hreads
    rw [bind_run, gives_getTable]
    dsimp only
    rw [lift_run, unpackRange_eq _ hto hreads]
    split
    · rfl
    · split <;> rfl
  refine lift_bind_congr fun last hlast => ?_
  cases last with
  | some last =>
    refine hrest last s (Argument.optional_integer_mem hlast (by decide : IsSigned 1)) ?_
    intro hspan i hle hi
    cases first with
    | none => exact fun hrounded => Int.not_lt.mpr hle hrounded.1
    | some first =>
      refine hexact id first last ⟨Argument.table_eq_ok_iff.mp hid, ?_, ?_⟩ hspan i hle hi
      · exact Argument.toInteger?_of_optional hfirst
      · exact Argument.toInteger?_of_optional hlast
  | none =>
    refine bind_congr_run fun length t hlength => ?_
    obtain ⟨rfl, rfl⟩ : (s.table id).length = length ∧ s.modifyTable id Table.measured = t := by
      cases (gives_tableLength s id).symm.trans hlength
      exact ⟨rfl, rfl⟩
    have hitems := (h.items (Argument.table_eq_ok_iff.mp hid)).isSigned
    have hsigned : IsSigned (s.table id).length := by
      rw [isSigned_iff] at *
      omega
    rw [signed_eq hsigned, lift_ok_bind]
    refine hrest _ _ hsigned fun hspan i hle hi hrounded => ?_
    have hlow := hrounded.lt
    rw [unpackLimit] at hspan
    omega

/-- A range of integers that `unpack` reads is not read if one of them lies between two doubles. -/
theorem unpack_of_isRounded {id : TableId} {first last i : ℤ}
    (hargs : RangeArguments args id 2 first last) (hspan : last - first < unpackLimit)
    (hle : first ≤ i) (hi : i ≤ last) (hrounded : IsRounded i) :
    unpack overflow args s = (.error overflow, s) := by
  have hlast := isSigned_iff.mp (Value.toInteger?_mem hargs.last)
  have hfirst := isSigned_iff.mp (Value.toInteger?_mem hargs.first)
  have hdistance : ¬ (¬ IsSigned (last - first) ∨ unpackLimit ≤ last - first) := by
    rw [isSigned_iff]
    rw [unpackLimit] at *
    omega
  rw [unpack, bind_run, gives_lift (Argument.table_eq_ok_iff.mpr hargs.table) s]
  dsimp only
  rw [bind_run, gives_lift (Argument.optional_integer "unpack" hargs.first) s]
  dsimp only
  rw [bind_run, gives_lift (Argument.optional_integer "unpack" hargs.last) s]
  dsimp only
  rw [bind_run, gives_pure]
  dsimp only
  rw [bind_run, gives_getTable]
  dsimp only
  rw [Option.getD_some, lift_run, unpackRange, if_neg (Int.not_lt.mpr (Int.le_trans hle hi)),
    if_neg hdistance, valuesFrom_of_isRounded (s.table id) (by omega) hle (by omega) hrounded]
  rfl

theorem ipairsStep_eq (h : FitsMemory s args)
    (hexact : ∀ id control, Argument.get? args 1 = some (.table id) →
      (Argument.get args 2).toInteger? = some control →
      control ≠ Value.greatestInteger ∧ ¬ IsRounded (control + 1)) :
    ipairsStep overflow args s = LuaRuntime.ipairsStep args s := by
  refine lift_bind_congr fun id hid => lift_bind_congr fun i hi => ?_
  have hmem := Argument.integer_mem hi
  have htable := Argument.table_eq_ok_iff.mp hid
  obtain ⟨hne, hrounded⟩ := hexact id i htable (Argument.toInteger?_of_integer hi)
  have hnext : IsSigned (i + 1) := by
    rw [IsSigned] at *
    omega
  rw [isSigned_iff] at hnext
  rw [signed_eq (isSigned_iff.mpr hnext), lift_ok_bind, nextInteger, if_neg hne, lift_ok_bind,
    bind_run, gives_getTable, bind_run, gives_getTable]
  dsimp only
  rw [getInteger_eq _ (by omega) hrounded, lift_ok_bind]
  -- An integer with a value is a double: any other one that is positive has none.
  by_cases hvalue : ((s.table id).getInteger (i + 1)).isNil = true
  · rw [if_pos hvalue, if_pos hvalue]
  · have hexact : (Double.ofInt (i + 1)).toInt? = some (i + 1) := by
      obtain ⟨-, hwf, -⟩ := h.table htable
      by_contra hne
      refine hvalue ?_
      rw [hwf.getInteger_eq, if_neg fun hle => ?_]
      · rfl
      · exact hne (Double.toInt?_ofInt (by have := mt (And.intro · hne) hrounded; omega))
    rw [if_neg hvalue, if_neg hvalue, double, if_pos hexact]
    rfl

/-- The step from a control fails if the integer after it has more than 64 bits, or lies between two
doubles. -/
theorem ipairsStep_of_control {id : TableId} {control : ℤ}
    (htable : Argument.get? args 1 = some (.table id))
    (hcontrol : (Argument.get args 2).toInteger? = some control)
    (h : control = Value.greatestInteger ∨ IsRounded (control + 1)) :
    ipairsStep overflow args s = (.error overflow, s) := by
  have hmem := Value.toInteger?_mem hcontrol
  rw [ipairsStep, bind_run, gives_lift (Argument.table_eq_ok_iff.mpr htable) s]
  dsimp only
  rw [bind_run, gives_lift (integer_eq_ok "ipairs" hcontrol) s]
  dsimp only
  rw [bind_run, lift_run]
  rcases h with rfl | hrounded
  · have hnext : signed overflow (Value.greatestInteger + 1) = .error overflow :=
      if_neg (by decide)
    rw [hnext]
  · have hlow := hrounded.1
    have hnext : IsSigned (control + 1) := by
      rw [isSigned_iff] at *
      omega
    rw [signed_eq hnext]
    dsimp only
    rw [bind_run, gives_getTable]
    dsimp only
    rw [bind_run, lift_run, getInteger_of_isRounded _ hrounded]

theorem codesOfRange_eq (h : FitsMemory s args) :
    codesOfRange overflow args = LuaRuntime.codesOfRange args := by
  refine bind_congr_ok fun text htext => bind_congr_ok fun first hfirst =>
    bind_congr_ok fun last hlast => ?_
  have hfrom := Argument.optional_integer_mem hfirst (by decide : IsSigned 1)
  have hto := Argument.optional_integer_mem hlast hfrom
  dsimp only
  rw [extent?_eq hfrom hto (h.length htext), ok_bind]
  cases Text.range? (first.getD 1) (last.getD (first.getD 1)) text.length <;> rfl

theorem subString_eq (h : FitsMemory s args) :
    subString overflow args = LuaRuntime.subString args := by
  refine bind_congr_ok fun text htext => bind_congr_ok fun first hfirst =>
    bind_congr_ok fun last hlast => ?_
  have hfrom := Argument.optional_integer_mem hfirst (by decide : IsSigned 1)
  have hto := Argument.optional_integer_mem hlast (by decide : IsSigned (-1))
  exact slice_eq hfrom hto (h.length htext)

/-- The ends of a plain text found in another. -/
theorem textEnds_eq {text wanted : String} (htext : IsLength text.utf8ByteSize) {start : ℕ}
    {place : Cursor} (hstart : start ≤ text.length)
    (h : Text.find? text wanted (.atPosition text start) = some place) :
    textEnds overflow place wanted =
      .ok [.ofNat (place.position + 1), .ofNat (place.position + wanted.length)] := by
  have hfinds := Text.find?_finds text wanted hstart
  rw [h] at hfinds
  obtain ⟨n, -, hn, rfl, hstands, -⟩ := hfinds
  have hfits := hstands.le_length (by rwa [String.length_toList])
  have hbytes : (Cursor.atPosition text n).offset.byteIdx ≤ text.utf8ByteSize := by
    rw [Cursor.offset_atPosition hn, ← String.utf8Len_toList]
    exact String.utf8Len_le_of_prefix (List.take_prefix n _)
  have hle := length_le_utf8ByteSize text
  rw [String.length_toList, String.length_toList] at hfits
  rw [IsLength] at htext
  rw [textEnds, size_eq rfl (by omega), ok_bind, Cursor.position_atPosition,
    size_eq (n := n + 1) (by omega) (by omega), ok_bind,
    size_eq (n := n + 1 + wanted.length) (by omega) (by omega), ok_bind,
    size_eq (n := n + wanted.length) (by omega) (by omega), ok_bind]
  rfl

section

variable {m : Match} {text : String} {i j : ℕ} (hlies : m.LiesAt text i j)
  (htext : IsLength text.length)
include hlies htext

theorem matchEnds_eq :
    matchEnds overflow m = .ok [.ofNat (m.start.position + 1), .ofNat m.stop.position] := by
  have hstart := hlies.start_eq
  have hstop := hlies.stop_eq
  have hle := hlies.le_succ
  have hlength := hlies.le_length
  rw [IsLength] at htext
  rw [matchEnds, size_eq (n := m.start.position + 1) (by omega) (by omega), ok_bind,
    size_eq (n := m.stop.position + 1) (by omega) (by omega), ok_bind,
    size_eq (n := m.stop.position) (by omega) (by omega), ok_bind]
  rfl

theorem captureValue_eq {c : Capture} (hc : c ∈ m.captures) :
    captureValue overflow text c = .ok (c.value text) := by
  cases c with
  | text start stop => rfl
  | position place =>
    have hplace := hlies.captured place hc
    have hlength := hlies.le_length
    rw [IsLength] at htext
    rw [captureValue, size_eq rfl (by omega)]
    rfl

theorem captureValues_eq : captureValues overflow m text = .ok (m.captureValues text) := by
  have hall : ∀ captures ⊆ m.captures, captures.mapM (captureValue overflow text) =
      .ok (captures.map (Capture.value text)) := by
    intro captures hsub
    induction captures with
    | nil => rfl
    | cons c rest ih =>
      obtain ⟨hc, hrest⟩ := List.cons_subset.mp hsub
      rw [List.mapM_cons, captureValue_eq hlies htext hc, ok_bind, ih hrest, ok_bind]
      rfl
  exact hall _ (List.Subset.refl _)

theorem matchValues_eq : matchValues overflow m text = .ok (m.values text) := by
  rw [matchValues, Match.values, captureValues_eq hlies htext]
  split <;> rfl

end

theorem findIn_eq (h : FitsMemory s args) :
    findIn overflow args s = LuaRuntime.findIn Regex.backtracking args s := by
  refine lift_bind_congr fun text htext => lift_bind_congr fun source hsource =>
    lift_bind_congr fun position hposition => ?_
  have hinit := Argument.optional_integer_mem hposition (by decide : IsSigned 1)
  rw [searchStart?_eq hinit (h.length htext), lift_ok_bind]
  cases hstart : LuaRuntime.searchStart? text (position.getD 1) with
  | none => rfl
  | some start =>
    obtain ⟨n, hn, -, rfl⟩ := searchStart?_eq_some hstart
    dsimp only
    split
    · cases hfind : Text.find? text source (.atPosition text n) with
      | none => rw [findText, hfind]
      | some place =>
        dsimp only
        rw [textEnds_eq (h.bytes htext) hn hfind, findText, hfind]
        rfl
    · refine bind_congr_run fun p t hread => ?_
      cases hfind : p.findAt text (.atPosition text n) with
      | none => rfl
      | some m =>
        obtain ⟨i, j, hlies⟩ := h.liesAt hread hstart hfind
        dsimp only
        rw [matchEnds_eq hlies (h.length htext), lift_ok_bind,
          captureValues_eq hlies (h.length htext), lift_ok_bind]
        rfl

theorem matchIn_eq (h : FitsMemory s args) :
    matchIn overflow args s = LuaRuntime.matchIn Regex.backtracking args s := by
  refine lift_bind_congr fun text htext => lift_bind_congr fun source hsource =>
    lift_bind_congr fun position hposition => ?_
  have hinit := Argument.optional_integer_mem hposition (by decide : IsSigned 1)
  rw [searchStart?_eq hinit (h.length htext), lift_ok_bind]
  cases hstart : LuaRuntime.searchStart? text (position.getD 1) with
  | none => rfl
  | some start =>
    refine bind_congr_run fun p t hread => ?_
    cases hfind : p.findAt text start with
    | none => rfl
    | some m =>
      obtain ⟨i, j, hlies⟩ := h.liesAt hread hstart hfind
      dsimp only
      rw [matchValues_eq hlies (h.length htext)]
      rfl

theorem hexText_eq (w : Word) {count : ℤ} (h : IsSigned count) :
    hexText overflow w count = .ok (w.hexText count) := by
  rw [isSigned_iff] at h
  have hdropped : (8 : ℤ) - (min 8 (max 1 count.natAbs) : ℕ) =
      (8 - min 8 (max 1 count.natAbs) : ℕ) := by omega
  rw [hexText, size_eq rfl (by omega), ok_bind]
  dsimp only
  rw [size_eq hdropped (by omega), ok_bind, Word.hexText]
  rfl

theorem toHex_eq : toHex overflow args = runBit .toHex args := by
  refine bind_congr_ok fun w _ => bind_congr_ok fun count hcount => ?_
  dsimp only
  rw [hexText_eq w (Argument.optional_integer_mem hcount (by decide : IsSigned 8))]
  rfl

end Checked

end LuaRuntime
