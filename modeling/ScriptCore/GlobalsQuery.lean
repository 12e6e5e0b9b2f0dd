import ScriptCore.Json.Library
import ScriptCore.PlainData.Conversion
import ScriptCore.PlainData.Json
import ScriptCore.Scope.Context

/-! # Querying globals

The command that takes a JSON object, makes its members the globals of a script and prints the
globals of given names as JSON, one on a line. The words of its command line are bytes. They become
texts before anything else happens, and a word that is not Unicode makes the command panic.
-/

namespace ScriptCore

/-- What a command leaves behind: its exit code and what it wrote. -/
structure ProcessOutcome where
  code : Nat
  stdout : String
  stderr : String
deriving DecidableEq

/-- How a command ends. It panics before it has printed anything, if at all; what the panic itself
writes to the standard error is left open. -/
inductive Termination
  | exited (outcome : ProcessOutcome)
  | panicked
deriving DecidableEq

namespace Termination

def code : Termination → Nat
  | exited outcome => outcome.code
  | panicked => 101

end Termination

namespace PlainData

/-- A new global record with the members of an object. -/
def createGlobal (members : List (String × PlainData)) : Action Heap RecordRef := do
  newGlobalRecord (.ofList (← createMembers members))

end PlainData

/-- A realm whose globals are the members of an object. -/
def Realm.ofGlobals (members : List (String × PlainData)) : Realm :=
  let (globalRecord, heap) := (PlainData.createGlobal members).run Heap.empty
  ⟨heap, .ofGlobal (globalRecord.toOption.getD default)⟩

namespace GlobalsQuery

def usage (program : String) : String :=
  "Usage: " ++ program ++ " -g '<json object>' name...\n"

variable (library : JsonLibrary)

/-- The JSON text of a global. -/
def globalText (realm : Realm) (name : String) : Except ScriptError String := do
  let (value, realm) := (Realm.readName name none).run realm
  let data ← realm.heap.toPlain (← value)
  return library.render data.toJson

/-- Adds what is written for a name. A failing name makes the exit code 1. -/
def answer (realm : Realm) (outcome : ProcessOutcome) (name : String) : ProcessOutcome :=
  match globalText library realm name with
  | .ok text => { outcome with stdout := outcome.stdout ++ name ++ " = " ++ text ++ "\n" }
  | .error error =>
    { outcome with code := 1, stderr := outcome.stderr ++ name ++ ": " ++ error.text ++ "\n" }

/-- Answers the arguments that come after the name of the program. -/
def query (program : String) : List String → ProcessOutcome
  | "-g" :: text :: name :: names =>
    match (library.read text).map PlainData.ofJson with
    | .error message => ⟨1, "", "Invalid JSON: " ++ message ++ "\n"⟩
    | .ok (.object members) =>
      (name :: names).foldl (answer library (.ofGlobals members)) ⟨0, "", ""⟩
    | .ok _ => ⟨1, "", "Globals must be a JSON object\n"⟩
  | _ => ⟨1, "", usage program⟩

/-- Runs the command on the words of its command line, of which the first is its own name. It panics
over a word that is not Unicode, and without a name to put into the usage. -/
def run (words : List ByteArray) : Termination :=
  match words.mapM String.fromUTF8? with
  | some (program :: arguments) => .exited (query library program arguments)
  | _ => .panicked

end GlobalsQuery

end ScriptCore
