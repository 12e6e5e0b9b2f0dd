import ScriptCore.Array.Index
import ScriptCore.Heap
import ScriptCore.Narrowing

/-! # Members of arrays

An array has its elements, its `length` and the array methods. A write at an index past the end
lengthens the array, the elements between being undefined. No write reaches the length limit.
-/

namespace ScriptCore

-- Powers of naturals are those of the core library in every context of imports.
attribute [local instance (2000)] instPowNat

/-- Writes reach only indices below this. -/
def arrayLengthLimit : Nat := 2 ^ (20 : Nat)

/-- Puts a value at an index, after undefined elements up to it where there are none. -/
def putElement (elements : Array Value) (index : Nat) (value : Value) : Array Value :=
  if index < elements.size then elements.setIfInBounds index value
  else (elements ++ Array.replicate (index - elements.size) Value.undefined).push value

/-- A method read from a receiver is a new function bound to it. -/
def newMethod (method : Method) (receiver : Value) (range : Option SourceRange) :
    Action Heap Value :=
  .function <$> newFunction ⟨.method method range, receiver, false⟩

namespace ArrayRef

def read (ref : ArrayRef) (property : Value) (range : Option SourceRange) : Action Heap Value := do
  let key := (← ofExcept (property.narrowKey range)).text
  let elements := (← get).elements ref
  if isIndexNumeral key.toList then
    return ((readIndex? key.toList).bind (elements[·]?)).getD .undefined
  else if key = "length" then
    return .number (.ofNat elements.size)
  else
    match Method.ofName? .array key with
    | some method => newMethod method (.array ref) range
    | none => Action.fail (.invalidIndex key) range

def write (ref : ArrayRef) (property value : Value) (range : Option SourceRange) :
    Action Heap Unit := do
  let key := (← ofExcept (property.narrowKey range)).text
  match readIndex? key.toList with
  | none => Action.fail (.invalidIndex key) range
  | some index =>
    if arrayLengthLimit ≤ index then
      Action.fail (.arrayTooLong (index + 1) arrayLengthLimit) range
    else
      modify (·.modifyElements ref (putElement · index value))

/-- Adds an element at the end. The length limit is one of writes and does not apply. -/
def push (ref : ArrayRef) (value : Value) : Action Heap Unit :=
  modify (·.modifyElements ref (·.push value))

end ArrayRef

end ScriptCore
