/-! # Kinds of bindings -/

namespace ScriptCore

/-- How a name was declared. A constant is never assigned again. -/
inductive BindingKind
  | mutable
  | constant
deriving DecidableEq, Repr

/-- The keyword that declares a binding of this kind. -/
def BindingKind.keyword : BindingKind → String
  | mutable => "let"
  | constant => "const"

end ScriptCore
