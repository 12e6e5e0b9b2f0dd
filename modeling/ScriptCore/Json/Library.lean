import ScriptCore.Json.Basic

/-! # What a JSON library does

JSON is read and written by a library that is not part of the program, so the library is a
parameter: a reader and a printer. What its documentation promises is stated here in three steps,
and each result takes the steps that it needs as a premise.
-/

namespace ScriptCore

-- Powers of naturals are those of the core library in every context of imports.
attribute [local instance (2000)] instPowNat

/-- A reader and a printer of JSON. -/
structure JsonLibrary where
  /-- Reads a text that is one value, or says in its own words what is wrong with it. -/
  read : String → Except String Json
  /-- Writes a value without blanks. -/
  render : Json → String

namespace JsonLibrary

/-- Whether a value is what the reader makes of its text. -/
def ReadsBack (library : JsonLibrary) (json : Json) : Prop :=
  library.read (library.render json) = .ok json

/-- The reader keeps the members of an object in the order of their first insertion: of repeated
keys the last value wins, at the place of the first. `written` is what a text says, with the keys
that it repeats. -/
structure Collapses (library : JsonLibrary) (written : String → Except String Json) : Prop where
  collapses (text : String) : library.read text = (written text).map Json.collapse

/-- The reader undoes the printer, doubles left open. -/
structure ReadsValues (library : JsonLibrary) (written : String → Except String Json) : Prop
    extends Collapses library written where
  /-- At most 127 containers may stand in each other. -/
  nests {text : String} {json : Json} (reads : library.read text = .ok json) : json.NestsIn 127
  /-- Up to that depth an array or object is read back, its keys included, if what it holds is. -/
  containers {json : Json} (shallow : json.NestsIn 127) (distinct : json.DistinctKeys)
    (leaves : ∀ leaf : Json, leaf.Within json → leaf.isLeaf = true → library.ReadsBack leaf) :
    library.ReadsBack json
  null : library.ReadsBack .null
  boolean (b : Bool) : library.ReadsBack (.boolean b)
  /-- An integer is written as one, and read as one if 64 bits hold it. -/
  integer {n : Int} (exact : n.natAbs ≤ 2 ^ (53 : Nat)) : library.ReadsBack (.integer n)
  /-- The escapes in a string are undone. -/
  string (s : String) : library.ReadsBack (.string s)

/-- A double is written with the shortest digits that identify it, and such digits are read as that
double. -/
structure IsDocumented (library : JsonLibrary) (written : String → Except String Json) : Prop
    extends ReadsValues library written where
  float {x : Double} (finite : x.isFinite = true) : library.ReadsBack (.float x)

end JsonLibrary

end ScriptCore
