/-! # Conversion hints -/

namespace ScriptCore

/-- The form that a conversion to a primitive prefers. -/
inductive Hint
  | default
  | string
  | number
deriving DecidableEq, Repr

end ScriptCore
