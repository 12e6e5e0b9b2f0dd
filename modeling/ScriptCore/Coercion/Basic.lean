import ScriptCore.Coercion.Primitive
import ScriptCore.Outline

/-! # Coercion and comparison of values

Null and undefined have no text and no number of their own. An array is written as its elements
between commas, nullish elements as nothing; as a number it is what the numbers of its elements,
written in the same way, read as. Records and functions have fixed texts and are not numbers. Only
strings and hooked records convert without a preferred form.
-/

namespace ScriptCore

namespace Value

def isTruthy : Value → Bool
  | primitive p => p.isTruthy
  | _ => true

/-- Strict equality: of primitives by payload, of references by identity. -/
def strictEquals : Value → Value → Bool
  | primitive a, primitive b => a.strictEquals b
  | array a, array b => a == b
  | record a, record b => a == b
  | function a, function b => a == b
  | _, _ => false

end Value

namespace Outline

mutual

/-- The text of a value; null and undefined have none. -/
def text? : Outline → Option String
  | primitive p => if p.isNullish then none else some p.text
  | array items => some (",".intercalate (texts items))
  | record _ => some "[object Object]"
  | function _ _ => some "function () \x7b [native code] \x7d"
  | cut => none

/-- The texts of elements, empty where there is none. -/
def texts : List Outline → List String
  | [] => []
  | item :: rest => (text? item).getD "" :: texts rest

end

mutual

/-- The number of a value; null and undefined have none. -/
def number? : Outline → Option Double
  | primitive p => if p.isNullish then none else some p.toNumber
  | array items => some (.ofText (",".intercalate (numberTexts items)))
  | record _ => some .nan
  | function _ _ => some .nan
  | cut => none

/-- The texts of the numbers of elements, empty where there is none. -/
def numberTexts : List Outline → List String
  | [] => []
  | item :: rest => ((number? item).map Double.text).getD "" :: numberTexts rest

end

end Outline

namespace Heap

/-- The text of a value; null and undefined have none. -/
def text? (heap : Heap) (v : Value) : Option String := (heap.outline v).text?

/-- The number of a value; null and undefined have none. -/
def number? (heap : Heap) (v : Value) : Option Double := (heap.outline v).number?

/-- The conversion of a value that defines one without a preferred form. -/
def default? (heap : Heap) : Value → Option Primitive
  | .string s => some (.string s)
  | .record ref =>
    let cell := heap.recordCell ref
    cell.hooks.bind (·.default? cell.entries)
  | _ => none

/-- The number of a value, and not-a-number where there is none, as a primitive. -/
def toNumberPrimitive (heap : Heap) (v : Value) : Primitive :=
  .number ((heap.number? v).getD .nan)

/-- The primitive of a value in the preferred form; null and undefined stay as they are. -/
def toPrimitive (heap : Heap) (v : Value) (hint : Hint) : Primitive :=
  match v, hint with
  | .null, _ => .null
  | .undefined, _ => .undefined
  | v, .string => .string ((heap.text? v).getD "")
  | v, .number => heap.toNumberPrimitive v
  | v, .default =>
    match heap.default? v with
    | some p => p
    | none => heap.toNumberPrimitive v

/-- Loose equality. Between two references it is identity. -/
def looseEquals (heap : Heap) (x y : Value) : Bool :=
  if x.isNullish || y.isNullish then x.isNullish && y.isNullish
  else
    match x.payload?, y.payload? with
    | some a, some b => a.looseEquals b
    | some a, none => a.looseEquals (heap.toPrimitive y .default)
    | none, some b => (heap.toPrimitive x .default).looseEquals b
    | none, none => x.strictEquals y

/-- Compares two values after converting both; a sum always converts without a preferred form. -/
def compare (heap : Heap) (comparison : Comparison) (hint : Hint) (x y : Value) : Primitive :=
  let hint := if comparison = .sum then .default else hint
  let a := heap.toPrimitive x hint
  let b := heap.toPrimitive y hint
  match comparison with
  | .less => .boolean (a.less b)
  | .greater => .boolean (b.less a)
  | .looseEquals => .boolean (a.looseEquals b)
  | .difference => .number (a.toNumber - b.toNumber)
  | .sum => a.add b

end Heap

end ScriptCore
