import ScriptCore.Heap
import ScriptCore.Narrowing

/-! # Members of records

A record is read and written by the text of a key. Hooks may answer a read before the entries are
looked at, and may refuse a write or store entries before it. Direct access to the entries goes past
the hooks.
-/

namespace ScriptCore

namespace RecordRef

def read (ref : RecordRef) (property : Value) (range : Option SourceRange) :
    Action Heap Value := do
  let key ← ofExcept (property.narrowKey range)
  let cell := (← get).recordCell ref
  match cell.hooks.bind (·.answer? ref cell.entries key range) with
  | some value => return value
  | none => return (cell.entries.get? key.text).getD .undefined

/-- The entries that hooks store before a write, unless they refuse it. -/
def accept (ref : RecordRef) (cell : RecordCell) (key : PropertyKey) (value : Value)
    (range : Option SourceRange) : Except ScriptError (List (String × Value)) :=
  match cell.hooks with
  | some hooks => hooks.accept ref cell.entries key value range
  | none => .ok []

def write (ref : RecordRef) (property value : Value) (range : Option SourceRange) :
    Action Heap Unit := do
  let key ← ofExcept (property.narrowKey range)
  let stored ← ofExcept (ref.accept ((← get).recordCell ref) key value range)
  modify (·.modifyEntries ref fun entries => (entries.insertAll stored).insert key.text value)

/-- Stores an entry past the hooks. -/
def insert (ref : RecordRef) (key : String) (value : Value) : Action Heap Unit :=
  modify (·.modifyEntries ref (·.insert key value))

/-- A new record with the same entries and no hooks. -/
def copy (ref : RecordRef) : Action Heap RecordRef := do
  newRecord ((← get).entries ref) none

end RecordRef

end ScriptCore
