import ScriptCore.Record.Member

/-! # Global records

A global record answers to `self` and `globalThis` with itself and refuses to have them assigned.
It is never built with entries of these names.
-/

namespace ScriptCore

/-- The names by which a global record refers to itself. -/
def isReservedName (name : String) : Bool := name == "self" || name == "globalThis"

def Hooks.global : Hooks where
  answer? ref _ key _ := if isReservedName key.text then some (.record ref) else none
  accept _ _ key _ range :=
    if isReservedName key.text then .error ⟨.reservedName key.text, range⟩ else .ok []
  default? _ := none

/-- A new global record with the given entries, those with reserved names left out. -/
def newGlobalRecord (entries : Entries Value) : Action Heap RecordRef :=
  newRecord (entries.filterKeys (!isReservedName ·)) (some .global)

end ScriptCore
