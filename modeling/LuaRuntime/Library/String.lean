import LuaRuntime.Format.Field
import LuaRuntime.Format.Parse
import LuaRuntime.Library.Argument
import LuaRuntime.Operator.Index
import LuaRuntime.Pattern.Parse
import LuaRuntime.Pattern.Replace
import LuaRuntime.Pattern.Walk
import LuaRuntime.Text.Case
import LuaRuntime.Text.Range
import LuaRuntime.Text.Search

/-!
# Functions on strings

A string is a sequence of characters, and every position counts characters from 1.

Patterns and format strings are read through the caches of the state.  Patterns are compiled by an
engine for regular expressions, which is a parameter.
-/

namespace LuaRuntime

/-! ## Characters -/

/-- `string.byte`: the codes of a range of characters. -/
def codesOfRange (args : List Value) : Except Error (List Value) := do
  let s ← Argument.string args 1 "byte"
  let first := (← Argument.optional Argument.integer args 2 "byte").getD 1
  let last := (← Argument.optional Argument.integer args 3 "byte").getD first
  match Text.range? first last s.length with
  | some (first, last) =>
      return ((s.toList.drop (first - 1)).take (last - first + 1)).map fun c => .ofNat c.toNat
  | none => return []

/-- The characters of a list of codes, the first of which is the argument at a position. -/
def charsOfCodes : (position : Nat) → List Value → Except Error (List Char)
  | _, [] => .ok []
  | position, v :: rest =>
      match v.toInteger? with
      | none => .error (.badArgument position "char" (.expected "number" v.kind))
      | some code =>
          match Field.charOf? code with
          | some c => (charsOfCodes (position + 1) rest).map (c :: ·)
          | none => .error (.badArgument position "char" .valueOutOfRange)

/-- `string.sub`: a range of characters. -/
def subString (args : List Value) : Except Error String := do
  let s ← Argument.string args 1 "sub"
  let first := (← Argument.optional Argument.integer args 2 "sub").getD 1
  let last := (← Argument.optional Argument.integer args 3 "sub").getD (-1)
  return Text.slice s first last

/-! ## Copies -/

/-- A size in bytes, none if it does not fit a word of 64 bits. -/
def fitSize? (size : Nat) : Option Nat := if size < Value.wordCount then some size else none

/-- The size of copies of a text with a separator between neighbours, from the sizes of the two.
There is none if a step does not fit a word. -/
def repeatedSize? (text separator count : Nat) : Option Nat := do
  let body ← fitSize? (text * count)
  let gaps ← fitSize? (separator * (count - 1))
  fitSize? (body + gaps)

/-- The most bytes that a text can have room for. -/
def greatestCapacity : Nat := Value.greatestInteger.toNat

/-- A text with copies of another one added to it, numbered from `i` on.  Before each of them but
the one with the number 0 comes a separator. -/
def addCopies (text separator : String) : (count i : Nat) → String → String
  | 0, _, built => built
  | count + 1, i, built =>
      addCopies text separator count (i + 1) ((if 0 < i then built ++ separator else built) ++ text)

/-- `string.rep`: copies of a string with a separator between them.  The size in bytes is
limited, and checked before anything is built.  A size that no text has room for is a panic. -/
def repeatString (args : List Value) : Action String := do
  let s ← Argument.string args 1 "rep"
  let count ← Argument.integer args 2 "rep"
  let separator := (← Argument.optional Argument.string args 3 "rep").getD ""
  if count ≤ 0 then return ""
  else
    let count := count.toNat
    match repeatedSize? s.utf8ByteSize separator.utf8ByteSize count with
    | none => throw .stringTooLarge
    | some size =>
        if (← get).limits.stringSize < size then throw .stringTooLarge
        else if greatestCapacity < size then throw .panic
        else return addCopies s separator count 0 ""

/-! ## Searching -/

section

variable (engine : Regex.Engine)

/-- The pattern of a text, through the cache. -/
def readPattern (source : String) : Action CompiledPattern := do
  let (reading, patterns) := (← get).patterns.read (CompiledPattern.new engine) source
  modify fun s => { s with patterns := patterns }
  match reading with
  | .ok p => return p
  | .error fault => throw (.pattern fault)

/-- Where a search starts, none if that lies past the end of the text. -/
def searchStart? (s : String) (position : Int) : Option Cursor :=
  let start := max (Text.resolve position s.length) 1
  if s.length + 1 < start then none else some (Cursor.atPosition s (start.toNat - 1))

/-- The first and the last position of a plain text in another, nil if it is not there. -/
def findText (s wanted : String) (start : Cursor) : List Value :=
  match Text.find? s wanted start with
  | some place => [.ofNat (place.position + 1), .ofNat (place.position + wanted.length)]
  | none => [.nil]

/-- `string.find`: the positions of the first match, and its captures. -/
def findIn (args : List Value) : Action (List Value) := do
  let s ← Argument.string args 1 "find"
  let source ← Argument.string args 2 "find"
  let position := (← Argument.optional Argument.integer args 3 "find").getD 1
  match searchStart? s position with
  | none => return [.nil]
  | some start =>
      if (Argument.get args 4).isTruthy || Pattern.isPlain source then
        return findText s source start
      else
        let p ← readPattern engine source
        match p.findAt s start with
        | none => return [.nil]
        | some m =>
            return .ofNat (m.start.position + 1) :: .ofNat m.stop.position :: m.captureValues s

/-- `string.match`: the captures of the first match. -/
def matchIn (args : List Value) : Action (List Value) := do
  let s ← Argument.string args 1 "match"
  let source ← Argument.string args 2 "match"
  let position := (← Argument.optional Argument.integer args 3 "match").getD 1
  match searchStart? s position with
  | none => return [.nil]
  | some start =>
      let p ← readPattern engine source
      match p.findAt s start with
      | none => return [.nil]
      | some m => return m.values s

/-- `string.gmatch`: an iterator over the values of all matches. -/
def allMatchesIn (args : List Value) : Action Value := do
  let text ← Argument.string args 1 "gmatch"
  let pattern ← readPattern engine (← Argument.string args 2 "gmatch")
  return .function (← newFunction ⟨"gmatch_iterator", .matches { text, pattern }⟩)

end

/-- A step of the iterator over matches: the values of the next one, nil after the last. -/
def stepMatches (self : FunctionId) (walk : MatchWalk) : Action (List Value) := do
  match walk.next? with
  | some m =>
      setBody self (.matches (walk.after m))
      return m.values walk.text
  | none =>
      setBody self (.matches walk.ended)
      return [.nil]

/-! ## Replacing -/

/-- What takes the place of a match. -/
inductive Replacement where
  /-- A template, with references to captures. -/
  | template (source : List Char)
  /-- A table, looked up at the first capture. -/
  | lookup (table : Value)
  /-- A function, called with the captures. -/
  | compute (function : Value)

/-- The replacement that an argument asks for. -/
def Replacement.ofValue : Value → Except Error Replacement
  | .string s => .ok (.template s.toList)
  | .number n => .ok (.template (Double.numberText n).toList)
  | .table id => .ok (.lookup (.table id))
  | .function id => .ok (.compute (.function id))
  | v => .error (.badArgument 3 "gsub" (.expected "string/function/table" v.kind))

/-- The text of a value that is to replace a match.  Nil and false keep the match. -/
def replacementText (whole : String) (v : Value) : Except Error String :=
  if !v.isTruthy then .ok whole
  else if v.isTextual then .ok v.rawText
  else .error (.replacement v.kind)

/-- The text that takes the place of a match. -/
def Replacement.apply (invoke : Invoke) (s : String) (r : Replacement) (m : Match) :
    Action String := do
  match r with
  | .template source =>
      match expandTemplate s m source with
      | .ok expanded => return String.ofList expanded
      | .error fault => throw (.pattern fault)
  | .lookup table =>
      replacementText (m.whole s) (← index invoke table (firstValue (m.values s)))
  | .compute function =>
      replacementText (m.whole s) (← callFirst invoke function (m.values s))

/-- `string.gsub`: the text with its matches replaced, and their number. -/
def replaceIn (engine : Regex.Engine) (invoke : Invoke) (args : List Value) :
    Action (List Value) := do
  let s ← Argument.string args 1 "gsub"
  let source ← Argument.string args 2 "gsub"
  let replacement ← Replacement.ofValue (Argument.get args 3)
  let cap ← Argument.optional Argument.integer args 4 "gsub"
  let p ← readPattern engine source
  let found := p.allMatches s cap
  let replaced ← found.mapM fun m => return (m, ← replacement.apply invoke s m)
  return [.string (replaceMatches s replaced), .ofNat found.length]

/-! ## Formatting -/

/-- The format of a text, through the cache. -/
def readFormat (source : String) : Action Format := do
  let (reading, formats) := (← get).formats.read Format.parse source
  modify fun s => { s with formats := formats }
  match reading with
  | .ok format => return format
  | .error fault => throw (.format fault)

/-- The number of the value at a position in messages, where the format string is the first
argument.  It must fit a word of 64 bits. -/
def argumentNumber (position : Nat) : Except Error Nat :=
  if position + 1 < Value.wordCount then .ok (position + 1) else .error .panic

/-- The field of a table that a path leads to. -/
def followPath (invoke : Invoke) : List String → Value → Action Value
  | [], v => return v
  | field :: rest, v => do
      match v with
      | .table _ => followPath invoke rest (← index invoke v (.string field))
      | _ => throw (.badArgument 2 "format" (.fieldOf field v.kind))

/-- The value at a position, with its number. -/
def formatValue (values : Array Value) (position : Nat) : Except Error (Value × Nat) := do
  let number ← argumentNumber position
  match values[position - 1]? with
  | some v => return (v, number)
  | none => throw (.badArgument number "format" .noValue)

/-- The value a directive writes and its number, given how many values were written in order
before. -/
def resolveReference (invoke : Invoke) (values : Array Value) (written : Nat)
    (reference : Reference) : Action (Value × Nat) := do
  match reference with
  | .next => formatValue values (written + 1)
  | .position n => formatValue values n
  | .path fields =>
      let (first, number) ← formatValue values 1
      return (← followPath invoke fields first, number)

/-- The text of a directive for a value, which is the argument of a number. -/
def renderDirective (invoke : Invoke) (d : Directive) (v : Value) (number : Nat) :
    Action (List Char) := do
  match d.conversion with
  | .text | .quoted => return Field.textField d (← text invoke v).toList
  | _ =>
      match v.toNumber? with
      | none => throw (.badArgument number "format" (.expected "number" v.kind))
      | some x =>
          match Field.numberField d x with
          | .ok field => return field
          | .error fault => throw (.badArgument number "format" fault)

/-- The text of segments, given how many values were written in order before. -/
def renderSegments (invoke : Invoke) (values : Array Value) :
    (written : Nat) → List Segment → Action (List Char)
  | _, [] => return []
  | written, .literal s :: rest => return s ++ (← renderSegments invoke values written rest)
  | written, .directive d :: rest => do
      let (v, number) ← resolveReference invoke values written d.reference
      let field ← renderDirective invoke d v number
      let written := if d.reference = .next then written + 1 else written
      return field ++ (← renderSegments invoke values written rest)

/-- `string.format`: values written as a format string says. -/
def formatValues (invoke : Invoke) (args : List Value) : Action String := do
  let format ← readFormat (← Argument.string args 1 "format")
  return String.ofList (← renderSegments invoke (args.drop 1).toArray 0 format.segments)

/-! ## Functions -/

/-- Runs a function on strings. -/
def runString (engine : Regex.Engine) (invoke : Invoke) (f : StringFunction)
    (args : List Value) : Action (List Value) := do
  match f with
  | .byte => codesOfRange args
  | .char => return [.string (String.ofList (← charsOfCodes 1 args))]
  | .find => findIn engine args
  | .format => return [.string (← formatValues invoke args)]
  | .gmatch => return [← allMatchesIn engine args]
  | .gsub => replaceIn engine invoke args
  | .length => return [.ofNat (← Argument.string args 1 "len").length]
  | .lower =>
      return [.string (String.ofList (Text.lower (← Argument.string args 1 "lower").toList))]
  | .firstMatch => matchIn engine args
  | .rep => return [.string (← repeatString args)]
  | .reverse =>
      return [.string (String.ofList (← Argument.string args 1 "reverse").toList.reverse)]
  | .sub => return [.string (← subString args)]
  | .upper =>
      return [.string (String.ofList (Text.upper (← Argument.string args 1 "upper").toList))]

end LuaRuntime
