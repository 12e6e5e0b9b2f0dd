import ScriptCore.Value
import ScriptCore.Error

/-! # Narrowing

A narrowing asks whether a value has one of several kinds. Each attempt is recorded, whether it
matched or not, so that a failure can name all that would have been accepted; the first match is
kept.
-/

namespace ScriptCore

structure Narrowing (α : Type) where
  source : Value
  attempted : List Kind
  found : Option α

namespace Narrowing

variable {α : Type}

def start (source : Value) : Narrowing α := ⟨source, [], none⟩

def attempt (narrowing : Narrowing α) (kind : Kind) (extract : Value → Option α) : Narrowing α :=
  { narrowing with
    attempted := narrowing.attempted ++ [kind]
    found := narrowing.found <|> extract narrowing.source }

/-- Attempts one kind after another. -/
def attemptAll (narrowing : Narrowing α) (extract : Kind → Value → Option α) (kinds : List Kind) :
    Narrowing α :=
  kinds.foldl (fun narrowing kind => narrowing.attempt kind (extract kind)) narrowing

def finish (narrowing : Narrowing α) (range : Option SourceRange) : Except ScriptError α :=
  match narrowing.found with
  | some a => .ok a
  | none => .error ⟨.unexpectedKind narrowing.attempted narrowing.source.kind, range⟩

end Narrowing

/-- What a narrowing to any kind finds: the payload of a value, under the kind that was accepted. -/
inductive Cast
  | null
  | undefined
  | boolean (b : Bool)
  | number (n : Double)
  | string (s : String)
  | array (ref : ArrayRef)
  | record (ref : RecordRef)
  | function (ref : FunctionRef)
deriving DecidableEq

namespace Cast

def kind : Cast → Kind
  | null => .null
  | undefined => .undefined
  | boolean _ => .boolean
  | number _ => .number
  | string _ => .string
  | array _ => .array
  | record _ => .record
  | function _ => .function

/-- The value with the payload. -/
def value : Cast → Value
  | null => .null
  | undefined => .undefined
  | boolean b => .boolean b
  | number n => .number n
  | string s => .string s
  | array ref => .array ref
  | record ref => .record ref
  | function ref => .function ref

end Cast

namespace Value

def null? : Value → Option Unit
  | .null => some ()
  | _ => none

def undefined? : Value → Option Unit
  | .undefined => some ()
  | _ => none

def boolean? : Value → Option Bool
  | .boolean b => some b
  | _ => none

def number? : Value → Option Double
  | .number n => some n
  | _ => none

def string? : Value → Option String
  | .string s => some s
  | _ => none

def array? : Value → Option ArrayRef
  | .array ref => some ref
  | _ => none

def record? : Value → Option RecordRef
  | .record ref => some ref
  | _ => none

def function? : Value → Option FunctionRef
  | .function ref => some ref
  | _ => none

/-- The payload that the value has if it is of a kind. -/
def cast? : Kind → Value → Option Cast
  | .null, v => v.null?.map fun _ => .null
  | .undefined, v => v.undefined?.map fun _ => .undefined
  | .boolean, v => v.boolean?.map .boolean
  | .number, v => v.number?.map .number
  | .string, v => v.string?.map .string
  | .array, v => v.array?.map .array
  | .record, v => v.record?.map .record
  | .function, v => v.function?.map .function

/-- Narrows to the first of the listed kinds that is the value's. -/
def narrow (v : Value) (kinds : List Kind) (range : Option SourceRange) : Except ScriptError Cast :=
  ((Narrowing.start v).attemptAll cast? kinds).finish range

/-- Narrows to a key of a member, as every access to an array, record or function does. -/
def narrowKey (v : Value) (range : Option SourceRange) : Except ScriptError PropertyKey :=
  ((Narrowing.start v).attempt .string (fun v => v.string?.map .string)
    |>.attempt .number fun v => v.number?.map .number).finish range

/-- Narrows to an optional number, undefined being its absence. -/
def narrowNumberOrUndefined (v : Value) (range : Option SourceRange) :
    Except ScriptError (Option Double) :=
  ((Narrowing.start v).attempt .number (fun v => v.number?.map some)
    |>.attempt .undefined fun v => v.undefined?.map fun _ => none).finish range

def narrowNull (v : Value) (range : Option SourceRange) : Except ScriptError Unit :=
  ((Narrowing.start v).attempt .null null?).finish range

def narrowFunction (v : Value) (range : Option SourceRange) : Except ScriptError FunctionRef :=
  ((Narrowing.start v).attempt .function function?).finish range

end Value

end ScriptCore
