import LuaRuntime.Text.Split

/-!
# Tables of characters

Tables of character codes are written as texts in hexadecimal.  `codes` reads a list of
codes with spaces or line ends between them, `codeLists` lists with a semicolon after each
but the last, and `codeRanges` ranges with a hyphen between their ends.  A range of one
code is written as that code.

`CodeIndex` finds the entries of a table that bear on a character by the block of codes in
which it lies.
-/

namespace LuaRuntime

namespace Text

/-- The value of a hexadecimal digit. -/
def hexValue (c : Char) : Nat :=
  if c.isDigit then c.toNat - '0'.toNat else c.toNat - 'a'.toNat + 10

/-- The code that hexadecimal digits write. -/
def code (digits : List Char) : Nat := digits.foldl (fun sum c => 16 * sum + hexValue c) 0

/-- The words of a text, which spaces and line ends separate. -/
def words (text : List Char) : List (List Char) :=
  ((splitAtChar '\n' text).flatMap (splitAtChar ' ')).filter fun word => !word.isEmpty

/-- The codes of a text. -/
def codesOf (text : List Char) : List Nat := (words text).map code

/-- The codes of a table. -/
def codes (table : String) : List Nat := codesOf table.toList

/-- The lists of codes of a table. -/
def codeLists (table : String) : List (List Nat) := (splitAtChar ';' table.toList).map codesOf

/-- The range that a word of a table writes. -/
def codeRange (word : List Char) : Nat × Nat :=
  match splitAtChar '-' word with
  | [first, last] => (code first, code last)
  | _ => (code word, code word)

/-- The ranges of a table. -/
def codeRanges (table : String) : List (Nat × Nat) := (words table.toList).map codeRange

/-! ## Look-up -/

/-- The number of codes of a block. -/
def blockSize : Nat := 0x100

/-- The entries of a table for each block of codes. -/
structure CodeIndex (α : Type) where
  /-- The entries of each block, in the order of the table. -/
  blocks : Array (List α)

namespace CodeIndex

variable {α : Type}

/-- An index without entries. -/
def empty : CodeIndex α := ⟨Array.replicate (0x110000 / blockSize) []⟩

/-- The index with an entry in front, in each of a number of blocks from one on. -/
def addTo (entry : α) : (count : Nat) → (block : Nat) → CodeIndex α → CodeIndex α
  | 0, _, index => index
  | count + 1, block, index =>
      addTo entry count (block + 1) ⟨index.blocks.modify block (entry :: ·)⟩

/-- The index of entries, each of which bears on the codes from a first to a last one. -/
def ofList (span : α → Nat × Nat) (entries : List α) : CodeIndex α :=
  entries.foldr
    (fun entry index =>
      let first := (span entry).1 / blockSize
      index.addTo entry ((span entry).2 / blockSize + 1 - first) first)
    empty

/-- The entries of the block of a character. -/
def entriesAt (index : CodeIndex α) (c : Char) : List α :=
  index.blocks.getD (c.toNat / blockSize) []

end CodeIndex

/-- A set of characters, by ranges of their codes. -/
abbrev CodeSet := CodeIndex (Nat × Nat)

/-- The set of the ranges of a table. -/
def codeSet (table : String) : CodeSet := .ofList id (codeRanges table)

/-- Whether a set holds a character. -/
def CodeSet.contains (set : CodeSet) (c : Char) : Bool :=
  (set.entriesAt c).any fun (first, last) => first ≤ c.toNat && c.toNat ≤ last

end Text

end LuaRuntime
