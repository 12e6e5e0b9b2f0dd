import ScriptCore.Array.Member
import ScriptCore.Record.Member
import ScriptCore.Text.Units

/-! # Members of values

Reading and writing a member of any value. Primitives have their methods, and strings a length, by
name; other names read as undefined whatever the key is. Nothing but arrays and records can be
written.
-/

namespace ScriptCore

namespace Value

/-- Reads a member of a boolean, number or string. -/
def readPayload (p : Primitive) (property : Value) (range : Option SourceRange) :
    Action Heap Value :=
  match property.propertyKey?, p with
  | none, _ => return .undefined
  | some key, p =>
    match p, key.text with
    | .string s, "length" => return .number (.ofNat (units16 s).length)
    | p, name =>
      match Method.ofName? p.kind name with
      | some method => newMethod method (.primitive p) range
      | none => return .undefined

/-- The member of a value under a property. -/
def read (v property : Value) (range : Option SourceRange) : Action Heap Value :=
  match v with
  | .null | .undefined => Action.fail (.nothingToRead v.kind) range
  | .primitive p => readPayload p property range
  | .array ref => ref.read property range
  | .record ref => ref.read property range
  | .function _ => do
    let _ ← ofExcept (property.narrowKey range)
    return .undefined

/-- Writes the member of a value under a property. -/
def write (v property value : Value) (range : Option SourceRange) : Action Heap Unit :=
  match v with
  | .null | .undefined => Action.fail (.nothingToWrite v.kind) range
  | .array ref => ref.write property value range
  | .record ref => ref.write property value range
  | .primitive _ | .function _ => Action.fail (.notWritable v.kind) range

end Value

end ScriptCore
