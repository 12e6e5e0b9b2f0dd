/-! # Kinds of values

Every value has one of eight kinds. A kind has a name, by which messages and `typeof`-like queries
call it, and a label, by which a narrowing lists the kinds that it accepts.
-/

namespace ScriptCore

inductive Kind
  | null
  | undefined
  | boolean
  | number
  | string
  | array
  | record
  | function
deriving DecidableEq, Repr

namespace Kind

def name : Kind → String
  | null => "null"
  | undefined => "undefined"
  | boolean => "Boolean"
  | number => "Number"
  | string => "String"
  | array => "Array"
  | record => "Record"
  | function => "Function"

def label : Kind → String
  | null => "null"
  | undefined => "undefined"
  | boolean => "boolean"
  | number => "number"
  | string => "string"
  | array => "array"
  | record => "object"
  | function => "function"

/-- The kinds without a value of their own to read. -/
def isNullish : Kind → Bool
  | null | undefined => true
  | _ => false

/-- The name of a kind after its indefinite article. -/
def withArticle : Kind → String
  | array => "an Array"
  | kind => "a " ++ kind.name

end Kind

end ScriptCore
