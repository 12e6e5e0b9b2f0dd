import ScriptCore.GlobalsQuery
import ScriptCore.Machine

/-! # Answers of host programs

Most steps answer with a value. The others leave nothing that a later step could use; as an operand
their answer is undefined.
-/

namespace ScriptCore

inductive Answer
  | value (v : Value)
  | done
  | absent
  | plain (data : PlainData)
  /-- A value with the kind to which it was narrowed. -/
  | narrowed (kind : Kind) (v : Value)
  | key (key : PropertyKey)
  | outcome (outcome : ProcessOutcome)

namespace Answer

/-- The value of an answer as an operand. -/
def toValue : Answer → Value
  | value v => v
  | _ => .undefined

def boolean (b : Bool) : Answer := value (.boolean b)
def number (n : Double) : Answer := value (.number n)
def string (s : String) : Answer := value (.string s)
def count (n : Nat) : Answer := number (.ofNat n)

/-- The answer to a question that may have none. -/
def ofOption : Option Value → Answer
  | some v => value v
  | none => absent

end Answer

end ScriptCore
