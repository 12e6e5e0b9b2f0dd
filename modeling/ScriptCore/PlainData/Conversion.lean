import ScriptCore.PlainData.Basic
import ScriptCore.Record.Global

/-! # Plain data and values

Creating a value builds a fresh array or record for every list and every object of the data.
Projecting a value reads its own elements and entries, never its hooks; it fails exactly where a
function is reached. Created data projects to itself.
-/

namespace ScriptCore

namespace PlainData

mutual

/-- A new value with the content of the data. -/
def create : PlainData → Action Heap Value
  | primitive p => pure (.primitive p)
  | array items => do
    let elements ← createAll items
    .array <$> newArray elements.toArray
  | object members => do
    let entries ← createMembers members
    .record <$> newRecord (.ofList entries) none

def createAll : List PlainData → Action Heap (List Value)
  | [] => pure []
  | item :: rest => do
    let value ← create item
    return value :: (← createAll rest)

def createMembers : List (String × PlainData) → Action Heap (List (String × Value))
  | [] => pure []
  | (key, item) :: rest => do
    let value ← create item
    return (key, value) :: (← createMembers rest)

end

end PlainData

namespace Heap

/-- The data of a value in which containers stand up to `depth` deep, first element first and to
the first function. A container beyond that depth stands inside itself and has no data; it becomes
undefined. -/
def toPlainWithin (heap : Heap) : Nat → Value → Except ScriptError PlainData
  | _, .primitive p => .ok (.primitive p)
  | _, .function _ => .error ⟨.functionNotPlain, none⟩
  | 0, .array _ => .ok (.primitive .undefined)
  | 0, .record _ => .ok (.primitive .undefined)
  | depth + 1, .array ref =>
    .array <$> (heap.elements ref).toList.mapM (heap.toPlainWithin depth)
  | depth + 1, .record ref =>
    .object <$> (heap.entries ref).toList.mapM fun entry =>
      (entry.1, ·) <$> heap.toPlainWithin depth entry.2

/-- The data of a value. Each level opens one more container, so their number bounds the depth. -/
def toPlain (heap : Heap) (v : Value) : Except ScriptError PlainData :=
  heap.toPlainWithin (heap.containerCount + 1) v

end Heap

end ScriptCore
