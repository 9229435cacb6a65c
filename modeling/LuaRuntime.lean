import LuaRuntime.Calendar
import LuaRuntime.Error
import LuaRuntime.Event
import LuaRuntime.Format.Directive
import LuaRuntime.Format.Field
import LuaRuntime.Format.Parse
import LuaRuntime.Library.Argument
import LuaRuntime.Library.Base
import LuaRuntime.Library.Catalogue
import LuaRuntime.Library.Environment
import LuaRuntime.Library.Math
import LuaRuntime.Library.MergeSort
import LuaRuntime.Library.Module
import LuaRuntime.Library.String
import LuaRuntime.Library.Table
import LuaRuntime.Machine
import LuaRuntime.Number.Arithmetic
import LuaRuntime.Number.Decimal
import LuaRuntime.Number.Digits
import LuaRuntime.Number.Exact
import LuaRuntime.Number.Numeral
import LuaRuntime.Number.Word
import LuaRuntime.Operator.Arithmetic
import LuaRuntime.Operator.Call
import LuaRuntime.Operator.Compare
import LuaRuntime.Operator.Index
import LuaRuntime.Operator.Metatable
import LuaRuntime.Pattern.Failures
import LuaRuntime.Pattern.Match
import LuaRuntime.Pattern.Parse
import LuaRuntime.Pattern.Replace
import LuaRuntime.Pattern.Syntax
import LuaRuntime.Pattern.Walk
import LuaRuntime.Script.Entries
import LuaRuntime.Script.Eval
import LuaRuntime.Script.Expr
import LuaRuntime.Session
import LuaRuntime.State.Basic
import LuaRuntime.State.Cache
import LuaRuntime.State.Function
import LuaRuntime.Table.Basic
import LuaRuntime.Table.Key
import LuaRuntime.Table.Sequence
import LuaRuntime.Table.Traversal
import LuaRuntime.Text.Case
import LuaRuntime.Text.Codes
import LuaRuntime.Text.Cursor
import LuaRuntime.Text.Escape
import LuaRuntime.Text.Path
import LuaRuntime.Text.Range
import LuaRuntime.Text.Search
import LuaRuntime.Text.Split
import LuaRuntime.Value
import LuaRuntime.Proofs.Number.Units
import LuaRuntime.Proofs.Table.KeyIdentity
import LuaRuntime.Proofs.Table.Contents
import LuaRuntime.Proofs.Table.Invariant
import LuaRuntime.Proofs.Table.FiniteMap
import LuaRuntime.Proofs.Pattern.Derivation
import LuaRuntime.Proofs.Pattern.KnownFailures
import LuaRuntime.Proofs.Pattern.Search
import LuaRuntime.Proofs.Pattern.Leftmost
import LuaRuntime.Proofs.Pattern.Walk
import LuaRuntime.Proofs.Pattern.Replace
import LuaRuntime.Proofs.State.Action
import LuaRuntime.Proofs.Library.MatchSequence
import LuaRuntime.Proofs.Machine.Program
import LuaRuntime.Proofs.Operator.IndexChain
import LuaRuntime.Proofs.Table.Walk
import LuaRuntime.Proofs.Machine.Operators
import LuaRuntime.Proofs.Machine.Library
import LuaRuntime.Proofs.Machine.Bodies
import LuaRuntime.Proofs.Library.MergeSort
import LuaRuntime.Proofs.Machine.CallDepth
import LuaRuntime.Proofs.Table.Sequence
import LuaRuntime.Proofs.Library.SortTable
import LuaRuntime.Proofs.Operator.AssignmentChain
import LuaRuntime.Proofs.Library.ModulePath
import LuaRuntime.Proofs.Library.Require
import LuaRuntime.Proofs.Library.ModuleConflict
import LuaRuntime.Proofs.Library.OpenLibraries
import LuaRuntime.Proofs.Table.Shift
import LuaRuntime.Proofs.Library.InsertRemove
import LuaRuntime.Proofs.Table.ForgottenOrder
import LuaRuntime.Proofs.Format.Grammar
import LuaRuntime.Proofs.Format.Reading
import LuaRuntime.Proofs.Machine.Caches
import LuaRuntime.Proofs.Text.Search
import LuaRuntime.Proofs.Pattern.Plain
import LuaRuntime.Proofs.Library.PlainSearch
import LuaRuntime.Proofs.Number.Integers
import LuaRuntime.Proofs.Library.IntegerReads
import LuaRuntime.Proofs.Table.Alike
import LuaRuntime.Proofs.Machine.Loops
import LuaRuntime.Proofs.Library.SequenceViews
import LuaRuntime.Proofs.Table.ObjectOrder
import LuaRuntime.Proofs.Library.Pairs
import LuaRuntime.Proofs.Library.Substrings
import LuaRuntime.Proofs.Library.SearchPositions
import LuaRuntime.Proofs.Format.IntegerFields
import LuaRuntime.Proofs.Number.Literal
import LuaRuntime.Proofs.Number.Rounding
import LuaRuntime.Proofs.Number.GeneralLayout
import LuaRuntime.Proofs.Operator.SharedHandlers
import LuaRuntime.Proofs.Format.QuotedText
import LuaRuntime.Proofs.Format.References
import LuaRuntime.Proofs.Number.Nearest
import LuaRuntime.Proofs.Number.NumeralGrammar
import LuaRuntime.Proofs.Number.NumberText
import LuaRuntime.Proofs.Number.MachineFormat
import LuaRuntime.Proofs.Number.MachineArithmetic
import LuaRuntime.Proofs.Number.RadixNumerals
import LuaRuntime.Proofs.Library.RadixConversion
import LuaRuntime.Proofs.Number.Words
import LuaRuntime.Proofs.Library.BitFunctions
import LuaRuntime.Proofs.Library.Concat
import LuaRuntime.Proofs.Library.CheckedArithmetic
import LuaRuntime.Proofs.Library.CheckedFunctions
import LuaRuntime.Proofs.Library.CheckedSequences
import LuaRuntime.Proofs.Library.IndexArithmetic
import LuaRuntime.Proofs.Library.Copies
import LuaRuntime.Proofs.Calendar.Gregorian
import LuaRuntime.Proofs.Library.Timestamps
import LuaRuntime.Proofs.Library.ModuleLink
import LuaRuntime.Proofs.Number.PowersOfTwo
import LuaRuntime.Proofs.Library.Scaling
import LuaRuntime.Proofs.Pattern.CaptureGroups
