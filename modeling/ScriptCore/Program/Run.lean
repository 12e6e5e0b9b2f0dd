import ScriptCore.Coercion.Basic
import ScriptCore.GlobalsQuery
import ScriptCore.Inspection
import ScriptCore.Json.Reader
import ScriptCore.Member
import ScriptCore.Method.Invoke
import ScriptCore.Program.Answer
import ScriptCore.Record.Hooked

/-! # Running host programs

A term is evaluated on a machine, within the call whose body it belongs to. Calling a function runs
its method or evaluates its body; calls may nest up to a depth that is given, and a call that would
go deeper has no outcome.
-/

namespace ScriptCore

-- Powers of naturals are those of the core library in every context of imports.
attribute [local instance (2000)] instPowNat

/-- What a body knows about the call that runs it. -/
structure Call where
  receiver : Value
  arguments : List Value
  isConstructing : Bool

/-- Creates the value of a JSON text; a text that is no JSON gives undefined. -/
def valueOfJson (text : String) : Action Heap Value :=
  match Json.library.read text with
  | .ok json => (PlainData.ofJson json).create
  | .error _ => return .undefined

/-- A query of globals. The words in which the library says what is wrong with a text are dropped. -/
def queriedGlobals (arguments : List String) : ProcessOutcome :=
  let outcome := GlobalsQuery.query Json.library "fscript-globals" arguments
  if outcome.stderr.startsWith "Invalid JSON: " then { outcome with stderr := "Invalid JSON\n" }
  else outcome

/-- Wraps a value in single-element arrays, or in records with the one key `k`. -/
def nestValue (inRecords : Bool) : Nat → Value → Action Heap Value
  | 0, v => return v
  | depth + 1, v => do
    let inner ← nestValue inRecords depth v
    if inRecords then .record <$> newRecord (.ofList [("k", inner)]) none
    else .array <$> newArray #[inner]

namespace Value

/-- The array that a value must be. -/
def toArray (v : Value) : Except ScriptError ArrayRef :=
  match v with
  | .array ref => .ok ref
  | v => .error ⟨.unexpectedKind [.array] v.kind, none⟩

/-- The record that a value must be. -/
def toRecord (v : Value) : Except ScriptError RecordRef :=
  match v with
  | .record ref => .ok ref
  | v => .error ⟨.unexpectedKind [.record] v.kind, none⟩

end Value

namespace Execution

/-- Answers with the value of an action. -/
def valueOfHeap (action : Action Heap Value) : Execution Answer := .value <$> onHeap action

def valueOfRealm (action : Action Realm Value) : Execution Answer := .value <$> onRealm action

/-- Runs an action for its effect alone. -/
def effect (action : Action Realm Unit) : Execution Answer := do
  onRealm action
  return .done

def elements (v : Value) : Execution (Array Value) := do
  return (← heap).elements (← ofExcept v.toArray)

def entries (v : Value) : Execution (Entries Value) := do
  return (← heap).entries (← ofExcept v.toRecord)

def functionCell (v : Value) : Execution FunctionCell := do
  return (← heap).functionCell (← ofExcept (v.narrowFunction none))

end Execution

open Execution (effect heap onHeap valueOfHeap valueOfRealm)

namespace Nullary

def run (call : Option Call) : Nullary → Execution Answer
  | primitive p => return .value (.primitive p)
  | plain data => valueOfHeap data.create
  | register name => return .value (((← get).registers.get? name).getD .undefined)
  | receiver => return .value ((call.map (·.receiver)).getD .undefined)
  | arguments => do
    let elements := (call.map (·.arguments)).getD []
    return .value (.array (← onHeap (newArray elements.toArray)))
  | argument index => return .value ((call.bind (·.arguments[index]?)).getD .undefined)
  | isConstructing => return .boolean (call.any (·.isConstructing))
  | numberText n => return .string n.text
  | numberTextInRadix n radix => return .string (n.textInRadix radix)
  | numberToFixed n places range => return .string (← ofExcept (n.toFixed places range))
  | numberOfText text => return .number (.ofText text)
  | arrayLimit => return .count arrayLengthLimit
  | raise cause range => Execution.fail cause range
  | emptyGlobalRecord => valueOfHeap (.record <$> newGlobalRecord .empty)
  | idleHookedRecord => valueOfHeap (.record <$> newRecord .empty (some .idle))
  | plainToJson data => return .string (Json.library.render data.toJson)
  | valueOfJson text => valueOfHeap (ScriptCore.valueOfJson text)
  | readName name range => valueOfRealm (Realm.readName name range)
  | enterScope => effect Realm.enterScope
  | leaveScope => effect Realm.leaveScope
  | scopeDepth => return .count (← Execution.context).depth
  | globalThis => return .value (.record (← Execution.context).globalRecord)
  | currentThis => return .value (← Execution.context).currentThis
  | queryGlobals words => return .outcome (queriedGlobals words)

end Nullary

namespace Unary

def run (v : Value) : Unary → Execution Answer
  | identity => return .value v
  | kindName => return .string v.kind.name
  | isNullish => return .boolean v.isNullish
  | hasPayload => return .boolean v.payload?.isSome
  | isTruthy => return .boolean v.isTruthy
  | asText => return .ofOption (((← heap).text? v).map .string)
  | asNumber => return .ofOption (((← heap).number? v).map .number)
  | asDefault => return .ofOption (((← heap).default? v).map .primitive)
  | inspect => return .string ((← heap).outline v).inspect
  | toPrimitive hint => return .value (.primitive ((← heap).toPrimitive v hint))
  | primitiveNumber => return .number v.primitiveOrUndefined.toNumber
  | primitiveText => return .string v.primitiveOrUndefined.text
  | narrow kinds range => do
    let cast ← ofExcept (v.narrow kinds range)
    return .narrowed cast.kind cast.value
  | narrowNumberOrUndefined range =>
    return .ofOption ((← ofExcept (v.narrowNumberOrUndefined range)).map .number)
  | narrowNull range => do
    let _ ← ofExcept (v.narrowNull range)
    return .done
  | narrowKey range => return .key (← ofExcept (v.narrowKey range))
  | propertyKey => return (v.propertyKey?.map .key).getD .absent
  | receiverOf => return .value (← Execution.functionCell v).receiver
  | arraySize => return .count (← Execution.elements v).size
  | arrayIsEmpty => return .boolean (← Execution.elements v).isEmpty
  | arrayAt index => return .ofOption (← Execution.elements v)[index]?
  | copyArray => do
    let elements ← Execution.elements v
    valueOfHeap (.array <$> newArray elements)
  | recordKeys => do
    let keys := (← Execution.entries v).keys
    valueOfHeap (.array <$> newArray (keys.map Value.string).toArray)
  | recordSize => return .count (← Execution.entries v).size
  | recordIsEmpty => return .boolean (← Execution.entries v).isEmpty
  | ownEntry key => return .ofOption ((← Execution.entries v).get? key)
  | copyRecord => do
    let ref ← ofExcept v.toRecord
    valueOfHeap (.record <$> ref.copy)
  | globalRecordOf => do
    let entries ← Execution.entries v
    valueOfHeap (.record <$> newGlobalRecord entries)
  | toPlain => return .plain (← ofExcept ((← heap).toPlain v))
  | toJson => return .string (Json.library.render (← ofExcept ((← heap).toPlain v)).toJson)
  | newContext => do
    let ref ← ofExcept v.toRecord
    effect (modify fun realm => { realm with context := .ofGlobal ref })
  | assignName name range => effect (Realm.assignName name v range)
  | declareName name kind range => effect (Realm.declareName name v kind range)
  | setCurrentThis => valueOfRealm (Realm.setCurrentThis v)
  | nest depth inRecords => valueOfHeap (nestValue inRecords depth v)

end Unary

namespace Binary

def run (x y : Value) : Binary → Execution Answer
  | readMember range => valueOfHeap (x.read y range)
  | looseEquals => return .boolean ((← heap).looseEquals x y)
  | strictEquals => return .boolean (x.strictEquals y)
  | primitiveLooseEquals =>
    return .boolean (x.primitiveOrUndefined.looseEquals y.primitiveOrUndefined)
  | primitiveLess => return .boolean (x.primitiveOrUndefined.less y.primitiveOrUndefined)
  | primitiveAdd => return .value (.primitive (x.primitiveOrUndefined.add y.primitiveOrUndefined))
  | compare comparison hint =>
    return .value (.primitive ((← heap).compare comparison hint x y))
  | bind => do
    let cell ← Execution.functionCell x
    valueOfHeap (.function <$> newFunction (cell.bind y))
  | push => do
    let ref ← ofExcept x.toArray
    onHeap (ref.push y)
    return .done
  | insert key => do
    let ref ← ofExcept x.toRecord
    onHeap (ref.insert key y)
    return .done

end Binary

namespace Term

mutual

/-- Evaluates a term within a call. -/
def eval (invoke : Invocation) (call : Option Call) : Term → Execution Answer
  | nullary operation => operation.run call
  | unary operation operand => do
    let v ← eval invoke call operand
    operation.run v.toValue
  | binary operation left right => do
    let x ← eval invoke call left
    let y ← eval invoke call right
    operation.run x.toValue y.toValue
  | writeMember range target key value => do
    let target ← eval invoke call target
    let key ← eval invoke call key
    let value ← eval invoke call value
    onHeap (target.toValue.write key.toValue value.toValue range)
    return .done
  | array elements => do
    let elements ← evalAll invoke call elements
    valueOfHeap (.array <$> newArray elements.toArray)
  | record keys values => do
    let values ← evalAll invoke call values
    valueOfHeap (.record <$> newRecord (.ofList (keys.zip values)) none)
  | hookedRecord table operands => do
    let operands ← evalAll invoke call operands
    valueOfHeap (.record <$> newRecord .empty (some (table.hooks operands)))
  | closure isArrow receiver body => do
    let receiver ← eval invoke call receiver
    valueOfHeap (.function <$> newFunction ⟨.program body, receiver.toValue, isArrow⟩)
  | .call callee arguments isConstructing => do
    let callee ← eval invoke call callee
    let arguments ← evalAll invoke call arguments
    let callee ← ofExcept (callee.toValue.narrowFunction none)
    return .value (← invoke callee arguments isConstructing)
  | branch condition whenTrue whenFalse => do
    let condition ← eval invoke call condition
    if condition.toValue.isTruthy then return .value (← evalBody invoke call whenTrue)
    else return .value (← evalBody invoke call whenFalse)
  | inScope body => return .value (← Execution.inScope (evalBody invoke call body))
  | save name term => do
    let answer ← eval invoke call term
    match answer with
    | .value v =>
      modify fun machine => { machine with registers := machine.registers.insert name v }
    | _ => pure ()
    return answer

/-- The values of terms, evaluated from left to right. -/
def evalAll (invoke : Invocation) (call : Option Call) : List Term → Execution (List Value)
  | [] => return []
  | term :: rest => do
    let answer ← eval invoke call term
    return answer.toValue :: (← evalAll invoke call rest)

/-- The value of the last term of a body, or undefined. -/
def evalBody (invoke : Invocation) (call : Option Call) : List Term → Execution Value
  | [] => return .undefined
  | [term] => return (← eval invoke call term).toValue
  | term :: rest => do
    let _ ← eval invoke call term
    evalBody invoke call rest

end

end Term

/-- Calls a function, with at most `depth` calls in each other. -/
def invoke : Nat → Invocation
  | 0, _, _, _ => Execution.exhausted
  | depth + 1, ref, arguments, isConstructing => do
    let cell := (← heap).functionCell ref
    match cell.code with
    | .method method range =>
      method.run (invoke depth) cell.receiver arguments isConstructing range
    | .program body =>
      Term.evalBody (invoke depth) (some ⟨cell.receiver, arguments, isConstructing⟩) body

/-- The depth of calls that a step of a host program may reach. -/
def callDepthLimit : Nat := 2 ^ (32 : Nat)

/-- Runs one step of a host program, outside any call. -/
def Machine.step (machine : Machine) (term : Term) :
    Option (Except ScriptError Answer × Machine) :=
  (term.eval (invoke callDepthLimit) none).run machine

end ScriptCore
