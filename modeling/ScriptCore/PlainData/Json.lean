import ScriptCore.Json.Basic
import ScriptCore.PlainData.Basic

/-! # Plain data and JSON

A number without fraction up to `2^53` is a JSON integer; one that is not finite is null. Undefined
members of an object are left out, and undefined anywhere else is null.
-/

namespace ScriptCore

namespace PlainData

/-- The integer that an integral double is. -/
def integerOf (negative : Bool) (n : Double) : Int :=
  if negative then -n.wholeNat else n.wholeNat

def numberToJson (n : Double) : Json :=
  if !n.isFinite then .null
  else if n.isIntegral && n.abs.atMost .exactIntegerLimit then .integer (integerOf (n.less 0) n)
  else .float n

def primitiveToJson : Primitive → Json
  | .null | .undefined => .null
  | .boolean b => .boolean b
  | .number n => numberToJson n
  | .string s => .string s

def isUndefined : PlainData → Bool
  | primitive .undefined => true
  | _ => false

mutual

def toJson : PlainData → Json
  | primitive p => primitiveToJson p
  | array items => .array (toJsonAll items)
  | object members => .object (toJsonMembers members)

def toJsonAll : List PlainData → List Json
  | [] => []
  | item :: rest => toJson item :: toJsonAll rest

def toJsonMembers : List (String × PlainData) → List (String × Json)
  | [] => []
  | (key, item) :: rest =>
    if isUndefined item then toJsonMembers rest else (key, toJson item) :: toJsonMembers rest

end

mutual

def ofJson : Json → PlainData
  | .null => primitive .null
  | .boolean b => primitive (.boolean b)
  | .integer n => primitive (.number (.ofInt n))
  | .float x => primitive (.number x)
  | .string s => primitive (.string s)
  | .array items => array (ofJsonAll items)
  | .object members => object (ofJsonMembers members)

def ofJsonAll : List Json → List PlainData
  | [] => []
  | item :: rest => ofJson item :: ofJsonAll rest

def ofJsonMembers : List (String × Json) → List (String × PlainData)
  | [] => []
  | (key, item) :: rest => (key, ofJson item) :: ofJsonMembers rest

end

end PlainData

end ScriptCore
