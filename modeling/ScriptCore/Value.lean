import ScriptCore.Kind
import ScriptCore.Number.Text

/-! # Values

A value is a primitive, which is its own payload, or a reference to an array, a record or a
function in the heap. Two references with the same index name the same object, so equality of
references is identity.
-/

namespace ScriptCore

inductive Primitive
  | null
  | undefined
  | boolean (b : Bool)
  | number (n : Double)
  | string (s : String)
deriving DecidableEq, Inhabited

structure ArrayRef where
  index : Nat
deriving DecidableEq, Inhabited

structure RecordRef where
  index : Nat
deriving DecidableEq, Inhabited

structure FunctionRef where
  index : Nat
deriving DecidableEq, Inhabited

inductive Value
  | primitive (p : Primitive)
  | array (ref : ArrayRef)
  | record (ref : RecordRef)
  | function (ref : FunctionRef)
deriving DecidableEq, Inhabited

namespace Primitive

def kind : Primitive → Kind
  | null => .null
  | undefined => .undefined
  | boolean _ => .boolean
  | number _ => .number
  | string _ => .string

def isNullish (p : Primitive) : Bool := p.kind.isNullish

end Primitive

namespace Value

@[match_pattern] abbrev null : Value := primitive .null
@[match_pattern] abbrev undefined : Value := primitive .undefined
@[match_pattern] abbrev boolean (b : Bool) : Value := primitive (.boolean b)
@[match_pattern] abbrev number (n : Double) : Value := primitive (.number n)
@[match_pattern] abbrev string (s : String) : Value := primitive (.string s)

def kind : Value → Kind
  | primitive p => p.kind
  | array _ => .array
  | record _ => .record
  | function _ => .function

def isNullish (v : Value) : Bool := v.kind.isNullish

/-- The payload of a value that has one of its own: a boolean, a number or a string. -/
def payload? : Value → Option Primitive
  | primitive p => if p.isNullish then none else some p
  | _ => none

/-- The primitive that a value is; a reference counts as undefined. -/
def primitiveOrUndefined : Value → Primitive
  | primitive p => p
  | _ => .undefined

end Value

/-- A key of a member: a string or a number. -/
inductive PropertyKey
  | string (s : String)
  | number (n : Double)
deriving DecidableEq

/-- The text under which a member is kept. -/
def PropertyKey.text : PropertyKey → String
  | string s => s
  | number n => n.text

/-- Only strings and numbers name members. -/
def Value.propertyKey? : Value → Option PropertyKey
  | .string s => some (.string s)
  | .number n => some (.number n)
  | _ => none

end ScriptCore
