import ScriptCore.Coercion.Basic
import ScriptCore.Machine
import ScriptCore.Method.Payload

/-! # Running methods

A method first refuses to construct, then checks the kind of its receiver, then its argument.
`filter` and `map` call back once for each element that the array had when they were called, and
stop at the first error of a callback.
-/

namespace ScriptCore

namespace Method

/-- Calls back with an element, its index and the array. -/
def callBack (invoke : Invocation) (callback : FunctionRef) (self : ArrayRef) (index : Nat)
    (element : Value) : Execution Value :=
  invoke callback [element, .number (.ofNat index), .array self] false

/-- The elements, from an index on, for which the callback answers something truthy. -/
def filterFrom (invoke : Invocation) (callback : FunctionRef) (self : ArrayRef) :
    Nat → List Value → Execution (List Value)
  | _, [] => return []
  | index, element :: rest => do
    let answer ← callBack invoke callback self index element
    let kept ← filterFrom invoke callback self (index + 1) rest
    return if answer.isTruthy then element :: kept else kept

/-- The answers of the callback to the elements, from an index on. -/
def mapFrom (invoke : Invocation) (callback : FunctionRef) (self : ArrayRef) :
    Nat → List Value → Execution (List Value)
  | _, [] => return []
  | index, element :: rest => do
    let answer ← callBack invoke callback self index element
    return answer :: (← mapFrom invoke callback self (index + 1) rest)

/-- Runs a method on an array. -/
def onArray (method : Method) (invoke : Invocation) (self : ArrayRef) (argument : Value)
    (range : Option SourceRange) : Execution Value := do
  let callback ← ofExcept (argument.narrowFunction range)
  let elements := ((← Execution.heap).elements self).toList
  let results ←
    if method = .arrayFilter then filterFrom invoke callback self 0 elements
    else mapFrom invoke callback self 0 elements
  .array <$> Execution.onHeap (newArray results.toArray)

/-- Runs a method as the code of a function. -/
def run (method : Method) (invoke : Invocation) (receiver : Value) (arguments : List Value)
    (isConstructing : Bool) (range : Option SourceRange) : Execution Value :=
  let argument := arguments.headD .undefined
  if isConstructing then Execution.fail .notConstructor range
  else if receiver.kind ≠ method.receiverKind then
    Execution.fail (.unexpectedReceiver method.receiverKind receiver.kind) range
  else
    match receiver with
    | .array self => method.onArray invoke self argument range
    | receiver => ofExcept
        (method.onPayload receiver.primitiveOrUndefined argument range)

end Method

end ScriptCore
