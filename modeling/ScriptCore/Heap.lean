import ScriptCore.Action
import ScriptCore.Entries
import ScriptCore.Method.Basic
import ScriptCore.Program.Term

/-! # The heap

Arrays, records and functions live in the heap and are reached through references. Allocation adds
a cell at the end, so a new reference differs from all earlier ones and no earlier object changes.
A reference to no cell reads as an empty object and writes nothing.
-/

namespace ScriptCore

/-- What a host may attach to a record to take part in its reads, writes and conversion. A hook is a
function of its own record, and the entries that it adds before an accepted write are its only
effect. Whatever else a host does when its hook is called, such as adding entries on a read, before
a refusal or to another record, is a change of the heap beside the hook. -/
structure Hooks where
  /-- A value answered in place of the entry under a key. -/
  answer? : RecordRef → Entries Value → PropertyKey → Option SourceRange → Option Value
  /-- Refuses a write, or accepts it together with the entries that are stored before it. -/
  accept : RecordRef → Entries Value → PropertyKey → Value → Option SourceRange →
    Except ScriptError (List (String × Value))
  /-- The record's own conversion to a primitive when no form is preferred. -/
  default? : Entries Value → Option Primitive

structure RecordCell where
  entries : Entries Value
  hooks : Option Hooks

/-- What a function runs: a built-in method, with the place where it was read, or host terms. -/
inductive Code
  | method (method : Method) (range : Option SourceRange)
  | program (body : List Term)

structure FunctionCell where
  code : Code
  /-- The receiver of the next call; the captured one of an arrow function. -/
  receiver : Value
  isArrow : Bool

/-- The same code with another receiver. An arrow function keeps the receiver it captured. -/
def FunctionCell.bind (cell : FunctionCell) (receiver : Value) : FunctionCell :=
  if cell.isArrow then cell else { cell with receiver }

instance : Inhabited RecordCell := ⟨.empty, none⟩
instance : Inhabited FunctionCell := ⟨.program [], .undefined, false⟩

structure Heap where
  arrays : Array (Array Value)
  records : Array RecordCell
  functions : Array FunctionCell

namespace Heap

def empty : Heap := ⟨#[], #[], #[]⟩

def elements (heap : Heap) (ref : ArrayRef) : Array Value := heap.arrays.getD ref.index #[]

def recordCell (heap : Heap) (ref : RecordRef) : RecordCell :=
  heap.records.getD ref.index default

def entries (heap : Heap) (ref : RecordRef) : Entries Value := (heap.recordCell ref).entries

def functionCell (heap : Heap) (ref : FunctionRef) : FunctionCell :=
  heap.functions.getD ref.index default

/-- The number of arrays and records. -/
def containerCount (heap : Heap) : Nat := heap.arrays.size + heap.records.size

/-- Changes the elements of an array. -/
def modifyElements (heap : Heap) (ref : ArrayRef) (change : Array Value → Array Value) : Heap :=
  { heap with arrays := heap.arrays.modify ref.index change }

/-- Changes the entries of a record and keeps its hooks. -/
def modifyEntries (heap : Heap) (ref : RecordRef) (change : Entries Value → Entries Value) :
    Heap :=
  { heap with
    records := heap.records.modify ref.index fun cell =>
      { cell with entries := change cell.entries } }

end Heap

/-! ## Allocation -/

def newArray (elements : Array Value) : Action Heap ArrayRef :=
  modifyGet fun heap =>
    (⟨heap.arrays.size⟩, { heap with arrays := heap.arrays.push elements })

def newRecord (entries : Entries Value) (hooks : Option Hooks) : Action Heap RecordRef :=
  modifyGet fun heap =>
    (⟨heap.records.size⟩, { heap with records := heap.records.push ⟨entries, hooks⟩ })

def newFunction (cell : FunctionCell) : Action Heap FunctionRef :=
  modifyGet fun heap =>
    (⟨heap.functions.size⟩, { heap with functions := heap.functions.push cell })

end ScriptCore
