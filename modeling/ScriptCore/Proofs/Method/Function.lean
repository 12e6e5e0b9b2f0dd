import ScriptCore.Proofs.Member.Access
import ScriptCore.Proofs.Program.Evolution

/-! # Methods as functions

Reading a method of a value makes a function with the method as its code and the value as its
receiver. Binding a function makes another one with the same code. A call runs the method on the
receiver that its function has.
-/

namespace ScriptCore

namespace Value

theorem readPayload_method {p : Primitive} {property : Value} {key : PropertyKey} {method : Method}
    (named : property.propertyKey? = some key)
    (has : Method.ofName? p.kind key.text = some method) (range : Option SourceRange) :
    readPayload p property range = newMethod method (.primitive p) range := by
  unfold readPayload
  rw [named]
  dsimp only
  split
  · next length =>
    rw [length] at has
    contradiction
  · rw [has]

/-- Reading a method of a value makes a new function, bound to the value. -/
theorem read_method {v property : Value} {key : PropertyKey} {method : Method}
    (named : property.propertyKey? = some key)
    (has : Method.ofName? v.kind key.text = some method) (range : Option SourceRange)
    (heap : Heap) : v.read property range heap = newMethod method v range heap := by
  cases v with
  | primitive p =>
    change Method.ofName? p.kind key.text = some method at has
    cases p with
    | null | undefined => simp [Primitive.kind, Method.ofName?] at has
    | boolean | number | string => exact congrFun (readPayload_method named has range) heap
  | array ref =>
    change Method.ofName? .array key.text = some method at has
    have wordlike : isIndexNumeral key.text.toList = false ∧ key.text ≠ "length" := by
      rcases Method.ofName?_array has with filters | maps
      · rw [filters]
        decide
      · rw [maps]
        decide
    change ref.read property range heap = _
    unfold ArrayRef.read
    rw [Action.bind_apply, Action.ofExcept_apply, narrowKey_eq, named]
    dsimp only
    rw [Action.bind_apply, Action.get_apply]
    simp only [wordlike.1, if_neg wordlike.2, has]
    rfl
  | record | function => simp [kind, Method.ofName?] at has

end Value

theorem FunctionCell.bind_code (cell : FunctionCell) (receiver : Value) :
    (cell.bind receiver).code = cell.code := by
  unfold bind
  split <;> rfl

namespace Machine

/-- The reference that the next new function gets. -/
def nextFunction (machine : Machine) : FunctionRef := ⟨machine.realm.heap.functions.size⟩

/-- The machine with a new function. -/
def withFunction (machine : Machine) (cell : FunctionCell) : Machine :=
  let heap := machine.realm.heap
  ⟨⟨{ heap with functions := heap.functions.push cell }, machine.realm.context⟩,
    machine.registers⟩

theorem nextFunction_lt (machine : Machine) (cell : FunctionCell) :
    machine.nextFunction.index < (machine.withFunction cell).realm.heap.functions.size := by
  simp [nextFunction, withFunction]

theorem functionCell_withFunction (machine : Machine) (cell : FunctionCell) :
    (machine.withFunction cell).realm.heap.functionCell machine.nextFunction = cell := by
  simp [nextFunction, withFunction, Heap.functionCell]

theorem readMember_method {v property : Value} {key : PropertyKey} {method : Method}
    (named : property.propertyKey? = some key)
    (has : Method.ofName? v.kind key.text = some method) (range : Option SourceRange)
    (machine : Machine) :
    (Binary.readMember range).run v property machine =
      some (.ok (.value (.function machine.nextFunction)),
        machine.withFunction ⟨.method method range, v, false⟩) := by
  change Execution.valueOfHeap (v.read property range) machine = _
  rw [Execution.valueOfHeap, Execution.map_apply, Execution.onHeap_apply,
    Value.read_method named has]
  rfl

theorem bind_apply (ref : FunctionRef) (receiver : Value) (machine : Machine) :
    Binary.bind.run (.function ref) receiver machine =
      some (.ok (.value (.function machine.nextFunction)),
        machine.withFunction ((machine.realm.heap.functionCell ref).bind receiver)) := rfl

theorem invoke_method {machine : Machine} {ref : FunctionRef} {method : Method}
    {range : Option SourceRange}
    (code : (machine.realm.heap.functionCell ref).code = .method method range) (depth : Nat)
    (arguments : List Value) (isConstructing : Bool) :
    invoke (depth + 1) ref arguments isConstructing machine =
      method.run (invoke depth) (machine.realm.heap.functionCell ref).receiver arguments
        isConstructing range machine := by
  rw [invoke, Execution.bind_apply, Execution.heap_apply]
  dsimp only
  rw [code]

end Machine

end ScriptCore
