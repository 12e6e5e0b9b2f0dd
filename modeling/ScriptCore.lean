import ScriptCore.Action
import ScriptCore.Array.Index
import ScriptCore.Array.Member
import ScriptCore.Coercion.Basic
import ScriptCore.Coercion.Hint
import ScriptCore.Coercion.Primitive
import ScriptCore.Entries
import ScriptCore.Error
import ScriptCore.GlobalsQuery
import ScriptCore.Heap
import ScriptCore.Inspection
import ScriptCore.Json.Basic
import ScriptCore.Json.Library
import ScriptCore.Json.Number
import ScriptCore.Json.Printer
import ScriptCore.Json.Reader
import ScriptCore.Kind
import ScriptCore.Machine
import ScriptCore.Main
import ScriptCore.Member
import ScriptCore.Method.Basic
import ScriptCore.Method.Invoke
import ScriptCore.Method.Payload
import ScriptCore.Narrowing
import ScriptCore.Number.Double
import ScriptCore.Number.Fixed
import ScriptCore.Number.LongDigits
import ScriptCore.Number.Magnitude
import ScriptCore.Number.Numeral
import ScriptCore.Number.Radix
import ScriptCore.Number.Reading
import ScriptCore.Number.Scientific
import ScriptCore.Number.Shortest
import ScriptCore.Number.Text
import ScriptCore.Outline
import ScriptCore.PlainData.Basic
import ScriptCore.PlainData.Conversion
import ScriptCore.PlainData.Json
import ScriptCore.Program.Answer
import ScriptCore.Program.Operation
import ScriptCore.Program.Run
import ScriptCore.Program.Term
import ScriptCore.Proofs.Action
import ScriptCore.Proofs.Array.Element
import ScriptCore.Proofs.Array.Index
import ScriptCore.Proofs.Array.Nesting
import ScriptCore.Proofs.Array.Number
import ScriptCore.Proofs.Array.NumericKey
import ScriptCore.Proofs.Array.Text
import ScriptCore.Proofs.Coercion.Equality
import ScriptCore.Proofs.Coercion.Order
import ScriptCore.Proofs.Entries
import ScriptCore.Proofs.Error.Placement
import ScriptCore.Proofs.Execution
import ScriptCore.Proofs.GlobalsQuery
import ScriptCore.Proofs.GlobalsQuery.Repetition
import ScriptCore.Proofs.Heap
import ScriptCore.Proofs.Heap.Evolution
import ScriptCore.Proofs.Heap.Paths
import ScriptCore.Proofs.Json.Float
import ScriptCore.Proofs.Json.Nesting
import ScriptCore.Proofs.Json.RoundTrip
import ScriptCore.Proofs.Json.Text
import ScriptCore.Proofs.Member.Access
import ScriptCore.Proofs.Member.Failure
import ScriptCore.Proofs.Method.Errors
import ScriptCore.Proofs.Method.Function
import ScriptCore.Proofs.Method.Receiver
import ScriptCore.Proofs.Method.Snapshot
import ScriptCore.Proofs.Narrowing
import ScriptCore.Proofs.Number.Acceptance
import ScriptCore.Proofs.Number.Arithmetic
import ScriptCore.Proofs.Number.Canonical
import ScriptCore.Proofs.Number.Chain
import ScriptCore.Proofs.Number.Digits
import ScriptCore.Proofs.Number.Exact
import ScriptCore.Proofs.Number.Expansion
import ScriptCore.Proofs.Number.Fixed
import ScriptCore.Proofs.Number.Grammar
import ScriptCore.Proofs.Number.Minimal
import ScriptCore.Proofs.Number.Natural
import ScriptCore.Proofs.Number.Nearest
import ScriptCore.Proofs.Number.Precision
import ScriptCore.Proofs.Number.Prefixed
import ScriptCore.Proofs.Number.Radix.Binary
import ScriptCore.Proofs.Number.Radix.Digits
import ScriptCore.Proofs.Number.Radix.Fraction
import ScriptCore.Proofs.Number.Radix.Integral
import ScriptCore.Proofs.Number.Radix.Loop
import ScriptCore.Proofs.Number.Radix.Reading
import ScriptCore.Proofs.Number.Radix.WellFormed
import ScriptCore.Proofs.Number.Radix.Whole
import ScriptCore.Proofs.Number.Reading
import ScriptCore.Proofs.Number.RoundTrip
import ScriptCore.Proofs.Number.Rounding
import ScriptCore.Proofs.Number.Scientific
import ScriptCore.Proofs.Number.Shortest
import ScriptCore.Proofs.Number.Sticky
import ScriptCore.Proofs.PlainData.Copy
import ScriptCore.Proofs.PlainData.Failure
import ScriptCore.Proofs.PlainData.Json
import ScriptCore.Proofs.PlainData.Mutation
import ScriptCore.Proofs.PlainData.Normal
import ScriptCore.Proofs.PlainData.Projection
import ScriptCore.Proofs.PlainData.RoundTrip
import ScriptCore.Proofs.Program.Evolution
import ScriptCore.Proofs.Record.Copies
import ScriptCore.Proofs.Record.Global
import ScriptCore.Proofs.Record.History
import ScriptCore.Proofs.Record.SelfReference
import ScriptCore.Proofs.Scope.Assignment
import ScriptCore.Proofs.Scope.EmptyFrames
import ScriptCore.Proofs.Scope.Frames
import ScriptCore.Proofs.Scope.Operations
import ScriptCore.Proofs.Scope.Resolution
import ScriptCore.Proofs.Scope.Restoration
import ScriptCore.Proofs.Scope.Routine
import ScriptCore.Proofs.Scope.Shadowing
import ScriptCore.Proofs.Scope.Stability
import ScriptCore.Proofs.Session
import ScriptCore.Record.Global
import ScriptCore.Record.Hooked
import ScriptCore.Record.Member
import ScriptCore.Scope.BindingKind
import ScriptCore.Scope.Context
import ScriptCore.SourceRange
import ScriptCore.Text.Blank
import ScriptCore.Text.Case
import ScriptCore.Text.CaseTables
import ScriptCore.Text.Units
import ScriptCore.Tree
import ScriptCore.Value
