import ScriptCore.Kind

/-! # Built-in methods

The methods that booleans, numbers, strings and arrays have from the start, by kind and name.
-/

namespace ScriptCore

inductive Method
  | booleanText
  | booleanSelf
  | numberText
  | numberFixed
  | numberSelf
  | stringSelf
  | stringUpper
  | stringLower
  | arrayFilter
  | arrayMap
deriving DecidableEq, Repr

namespace Method

/-- The kind of receiver on which a method runs. -/
def receiverKind : Method → Kind
  | booleanText | booleanSelf => .boolean
  | numberText | numberFixed | numberSelf => .number
  | stringSelf | stringUpper | stringLower => .string
  | arrayFilter | arrayMap => .array

/-- The method that a kind of value has under a name. -/
def ofName? : Kind → String → Option Method
  | .boolean, "toString" => some booleanText
  | .boolean, "valueOf" => some booleanSelf
  | .number, "toString" => some numberText
  | .number, "toFixed" => some numberFixed
  | .number, "valueOf" => some numberSelf
  | .string, "toString" => some stringSelf
  | .string, "valueOf" => some stringSelf
  | .string, "toUpperCase" => some stringUpper
  | .string, "toLowerCase" => some stringLower
  | .array, "filter" => some arrayFilter
  | .array, "map" => some arrayMap
  | _, _ => none

end Method

end ScriptCore
