import ScriptCore.Program.Operation

/-! # Host programs

The language in which a host writes the bodies of its functions. A term computes an answer; its
parts are computed first, from left to right. A body is a list of terms, run in order.
-/

namespace ScriptCore

/-- Hooks written as tables. `getKeys` and `rejections` are looked up by the text of the key. -/
structure HookTable where
  /-- Keys whose reads are answered, each by one operand. -/
  getKeys : List String
  /-- Number keys are answered by the operand after those. -/
  answersNumbers : Bool
  /-- The next operand, a primitive, is the default conversion. -/
  hasDefault : Bool
  /-- The key whose reads are answered by the number of entries. -/
  countKey : Option String
  /-- Keys whose writes are refused, with their messages. -/
  rejections : List (String × String)
  /-- The key under which every other new value is stored first. -/
  echoKey : Option String

inductive Term
  | nullary (operation : Nullary)
  | unary (operation : Unary) (operand : Term)
  | binary (operation : Binary) (left right : Term)
  | writeMember (range : Option SourceRange) (target key value : Term)
  | array (elements : List Term)
  | record (keys : List String) (values : List Term)
  | hookedRecord (table : HookTable) (operands : List Term)
  | closure (isArrow : Bool) (receiver : Term) (body : List Term)
  | call (callee : Term) (arguments : List Term) (isConstructing : Bool)
  | branch (condition : Term) (whenTrue whenFalse : List Term)
  | inScope (body : List Term)
  /-- Keeps the answer in a register if it is a value. -/
  | save (name : String) (term : Term)

end ScriptCore
