import ScriptCore.Coercion.Primitive
import ScriptCore.Method.Basic
import ScriptCore.Narrowing
import ScriptCore.Number.Fixed
import ScriptCore.Number.Radix
import ScriptCore.Text.Case

/-! # Methods of booleans, numbers and strings

They read nothing but their receiver and their first argument and change nothing. Their own errors
carry the place where the method was read.
-/

namespace ScriptCore

/-- The text of a number in the radix of an argument, ten if there is none. -/
def numberTextFor (n : Double) (radix : Option Double) (range : Option SourceRange) :
    Except ScriptError String :=
  match radix with
  | none => .ok (n.textInRadix 10)
  | some radix =>
    match radix.integerWithin? 2 36 with
    | some radix => .ok (n.textInRadix radix)
    | none => .error ⟨.radixOutOfRange, range⟩

/-- Runs a method on a receiver of its kind; methods of arrays have no payload to run on. -/
def Method.onPayload (method : Method) (p : Primitive) (argument : Value)
    (range : Option SourceRange) : Except ScriptError Value :=
  match method, p with
  | .numberText, .number n => do
    let radix ← argument.narrowNumberOrUndefined range
    return .string (← numberTextFor n radix range)
  | .numberFixed, .number n => do
    let places ← argument.narrowNumberOrUndefined range
    return .string (← n.toFixed (places.getD 0) range)
  | .stringUpper, .string s => .ok (.string (uppercase s))
  | .stringLower, .string s => .ok (.string (lowercase s))
  | .booleanText, p => .ok (.string p.text)
  | _, p => .ok (.primitive p)

end ScriptCore
