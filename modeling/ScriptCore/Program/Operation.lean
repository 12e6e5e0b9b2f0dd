import ScriptCore.Coercion.Hint
import ScriptCore.Error
import ScriptCore.PlainData.Basic

/-! # Operations of host programs

The steps that a host program can take on values, by their number of operands. Names, keys and
source ranges are part of the operation; operands are values that were computed before.
-/

namespace ScriptCore

/-- A comparison of two values after conversion to primitives. -/
inductive Comparison
  | less
  | greater
  | looseEquals
  | difference
  | sum
deriving DecidableEq, Repr

/-- Steps without operands. -/
inductive Nullary
  | primitive (p : Primitive)
  | plain (data : PlainData)
  | register (name : String)
  /-- The receiver, the arguments and the manner of the innermost running call. -/
  | receiver
  | arguments
  | argument (index : Nat)
  | isConstructing
  | numberText (n : Double)
  | numberTextInRadix (n : Double) (radix : Nat)
  | numberToFixed (n places : Double) (range : Option SourceRange)
  | numberOfText (text : String)
  | arrayLimit
  | raise (cause : Cause) (range : Option SourceRange)
  | emptyGlobalRecord
  | idleHookedRecord
  | plainToJson (data : PlainData)
  | valueOfJson (text : String)
  | readName (name : String) (range : Option SourceRange)
  | enterScope
  | leaveScope
  | scopeDepth
  | globalThis
  | currentThis
  | queryGlobals (arguments : List String)

/-- Steps on one value. -/
inductive Unary
  | identity
  | kindName
  | isNullish
  | hasPayload
  | isTruthy
  | asText
  | asNumber
  | asDefault
  | inspect
  | toPrimitive (hint : Hint)
  | primitiveNumber
  | primitiveText
  | narrow (kinds : List Kind) (range : Option SourceRange)
  | narrowNumberOrUndefined (range : Option SourceRange)
  | narrowNull (range : Option SourceRange)
  | narrowKey (range : Option SourceRange)
  | propertyKey
  | receiverOf
  | arraySize
  | arrayIsEmpty
  | arrayAt (index : Nat)
  | copyArray
  | recordKeys
  | recordSize
  | recordIsEmpty
  | ownEntry (key : String)
  | copyRecord
  | globalRecordOf
  | toPlain
  | toJson
  | newContext
  | assignName (name : String) (range : Option SourceRange)
  | declareName (name : String) (kind : BindingKind) (range : Option SourceRange)
  | setCurrentThis
  /-- Wraps the value in single-element arrays, or in records with the one key `k`. -/
  | nest (depth : Nat) (inRecords : Bool)

/-- Steps on two values. -/
inductive Binary
  | readMember (range : Option SourceRange)
  | looseEquals
  | strictEquals
  | primitiveLooseEquals
  | primitiveLess
  | primitiveAdd
  | compare (comparison : Comparison) (hint : Hint)
  | bind
  | push
  | insert (key : String)

end ScriptCore
