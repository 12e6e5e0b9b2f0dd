import ScriptCore.Record.Global

/-! # Scopes

A context is a stack of frames over a global record. A name is looked up from the innermost frame
outwards and then on the global record; it is assigned where it was found, and declared in the
innermost frame. The stack is never empty. A realm is a heap with a context over it.
-/

namespace ScriptCore

structure Binding where
  value : Value
  kind : BindingKind

abbrev Frame := Entries Binding

structure Context where
  inner : Frame
  /-- The frames around `inner`, from the nearest to the base frame. -/
  outer : List Frame
  globalRecord : RecordRef
  currentThis : Value

namespace Context

/-- One empty frame; `this` is the global record. -/
def ofGlobal (globalRecord : RecordRef) : Context :=
  ⟨.empty, [], globalRecord, .record globalRecord⟩

/-- All frames, innermost first. -/
def frames (context : Context) : List Frame := context.inner :: context.outer

def depth (context : Context) : Nat := context.outer.length + 1

/-- The innermost binding of a name. -/
def find? (context : Context) (name : String) : Option Binding :=
  context.frames.findSome? (·.get? name)

def enter (context : Context) : Context :=
  { context with inner := .empty, outer := context.inner :: context.outer }

/-- Drops the innermost frame; `none` at the base frame. -/
def leave? (context : Context) : Option Context :=
  match context.outer with
  | [] => none
  | frame :: outer => some { context with inner := frame, outer }

/-- Drops innermost frames until at most `depth` are left. -/
def truncate (context : Context) (depth : Nat) : Context :=
  match context.frames.drop (context.depth - depth) with
  | [] => context
  | inner :: outer => { context with inner, outer }

/-- Gives a new value to the innermost binding of a name, in frames that have one. -/
def assignIn (name : String) (value : Value) : List Frame → List Frame
  | [] => []
  | frame :: outer =>
    match frame.get? name with
    | some binding => frame.insert name { binding with value } :: outer
    | none => frame :: assignIn name value outer

/-- Gives a new value to the innermost binding of a name. -/
def assignBinding (context : Context) (name : String) (value : Value) : Context :=
  match assignIn name value context.frames with
  | [] => context
  | inner :: outer => { context with inner, outer }

end Context

structure Realm where
  heap : Heap
  context : Context

namespace Realm

variable {α : Type}

/-- Runs an action of the heap. -/
def onHeap (action : Action Heap α) : Action Realm α := fun ⟨heap, context⟩ =>
  let (result, heap) := action heap
  (result, ⟨heap, context⟩)

/-- A realm with nothing but an empty global record. -/
def initial : Realm :=
  let (globalRecord, heap) := (newGlobalRecord .empty).run Heap.empty
  ⟨heap, .ofGlobal (globalRecord.toOption.getD default)⟩

/-- The value of a name. -/
def readName (name : String) (range : Option SourceRange) : Action Realm Value := do
  match (← get).context.find? name with
  | some binding => return binding.value
  | none => onHeap ((← get).context.globalRecord.read (.string name) range)

/-- Assigns a name where it is bound, or on the global record. -/
def assignName (name : String) (value : Value) (range : Option SourceRange) :
    Action Realm Unit := do
  match (← get).context.find? name with
  | some binding =>
    if binding.kind = .constant then Action.fail (.constantAssigned name) range
    else modify fun realm => { realm with context := realm.context.assignBinding name value }
  | none => onHeap ((← get).context.globalRecord.write (.string name) value range)

/-- Binds a name in the innermost frame, which must not bind it yet. -/
def declareName (name : String) (value : Value) (kind : BindingKind)
    (range : Option SourceRange) : Action Realm Unit := do
  let context := (← get).context
  if context.inner.contains name then Action.fail (.redeclared kind name) range
  else
    let context := { context with inner := context.inner.insert name ⟨value, kind⟩ }
    modify fun realm => { realm with context }

def enterScope : Action Realm Unit :=
  modify fun realm => { realm with context := realm.context.enter }

def leaveScope : Action Realm Unit := do
  match (← get).context.leave? with
  | none => Action.fail .baseScopeLeft none
  | some context => modify fun realm => { realm with context }

/-- Replaces `this` and gives back the one before. -/
def setCurrentThis (value : Value) : Action Realm Value :=
  modifyGet fun realm =>
    (realm.context.currentThis,
      { realm with context := { realm.context with currentThis := value } })

end Realm

end ScriptCore
