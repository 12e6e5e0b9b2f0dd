import ScriptCore.GlobalsQuery
import ScriptCore.Json.Reader

/-! # The command line -/

namespace ScriptCore

/-- Prints what a command wrote and gives its exit code. -/
def Termination.report (termination : Termination) : IO UInt32 := do
  match termination with
  | exited outcome =>
    IO.print outcome.stdout
    IO.eprint outcome.stderr
  | panicked => IO.eprintln "panicked"
  return termination.code.toUInt32

end ScriptCore

def main (arguments : List String) : IO UInt32 :=
  let words := "fscript-globals" :: arguments
  (ScriptCore.GlobalsQuery.run ScriptCore.Json.library (words.map String.toUTF8)).report
