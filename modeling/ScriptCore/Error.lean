import ScriptCore.Kind
import ScriptCore.Scope.BindingKind
import ScriptCore.SourceRange

/-! # Script errors

An error is a cause and, if the caller gave one, the place where it was raised. The cause fixes the
class of the error and its message.
-/

namespace ScriptCore

inductive ErrorClass
  | type
  | range
  | syntaxError
  | internal
deriving DecidableEq, Repr

def ErrorClass.name : ErrorClass → String
  | type => "TypeError"
  | range => "RangeError"
  | syntaxError => "SyntaxError"
  | internal => "InternalError"

inductive Cause
  /-- A member of a value without members is read. -/
  | nothingToRead (actual : Kind)
  /-- A member of a value without members is written. -/
  | nothingToWrite (actual : Kind)
  /-- The members of the value cannot be written. -/
  | notWritable (actual : Kind)
  /-- None of the expected kinds is that of the value. -/
  | unexpectedKind (expected : List Kind) (actual : Kind)
  /-- A method runs on a receiver of another kind. -/
  | unexpectedReceiver (expected actual : Kind)
  /-- A function that constructs nothing is called to construct. -/
  | notConstructor
  | invalidIndex (index : String)
  /-- A write would make the array this long. -/
  | arrayTooLong (length limit : Nat)
  | radixOutOfRange
  | fixedPlacesOutOfRange
  /-- A write to a name by which the global record refers to itself. -/
  | reservedName (name : String)
  | constantAssigned (name : String)
  | redeclared (kind : BindingKind) (name : String)
  /-- The outermost scope is left. -/
  | baseScopeLeft
  /-- A function has no form as plain data. -/
  | functionNotPlain
  /-- The host program raised an error of its own. -/
  | raised (cls : ErrorClass) (message : String)
deriving DecidableEq, Repr

namespace Cause

def errorClass : Cause → ErrorClass
  | nothingToRead _ | nothingToWrite _ | notWritable _ | unexpectedKind _ _
  | unexpectedReceiver _ _ | notConstructor | reservedName _ | constantAssigned _
  | functionNotPlain => .type
  | invalidIndex _ | arrayTooLong _ _ | radixOutOfRange | fixedPlacesOutOfRange => .range
  | redeclared _ _ => .syntaxError
  | baseScopeLeft => .internal
  | raised cls _ => cls

def message : Cause → String
  | nothingToRead actual => "Cannot read properties of " ++ actual.name
  | nothingToWrite actual => "Cannot set properties of " ++ actual.name
  | notWritable actual => "You cannot set any value to " ++ actual.name
  | unexpectedKind expected actual =>
    "Expected type: [" ++ ", ".intercalate (expected.map Kind.label) ++
      "], Actual type: " ++ actual.name
  | unexpectedReceiver expected actual =>
    "Expected 'this' to be " ++ expected.withArticle ++ ", but actually " ++ actual.name
  | notConstructor => "This is not a constructor"
  | invalidIndex index => "\"" ++ index ++ "\" is an invalid index"
  | arrayTooLong length limit =>
    s!"Array length {length} exceeds the maximum of {limit}"
  | radixOutOfRange => "toString() radix must be between 2 and 36"
  | fixedPlacesOutOfRange => "toFixed() digits argument must be between 0 and 100"
  | reservedName name => "Assignment to '" ++ name ++ "' is not supported"
  | constantAssigned name => "invalid assignment to const '" ++ name ++ "'"
  | redeclared kind name => "redeclaration of " ++ kind.keyword ++ " " ++ name
  | baseScopeLeft => "the base scope cannot be popped"
  | functionNotPlain => "Function cannot be converted to plain data"
  | raised _ message => message

end Cause

structure ScriptError where
  cause : Cause
  range : Option SourceRange
deriving DecidableEq, Repr

namespace ScriptError

/-- The error on one line, its class first. -/
def text (error : ScriptError) : String :=
  error.cause.errorClass.name ++ ": " ++ error.cause.message

end ScriptError

end ScriptCore
