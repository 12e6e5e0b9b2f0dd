import ScriptCore.Entries
import ScriptCore.Value

/-! # Plain data

Trees of primitives, lists and keyed members: what a host hands to a script and gets back. Plain
data has no identity and no functions.
-/

namespace ScriptCore

inductive PlainData
  | primitive (p : Primitive)
  | array (items : List PlainData)
  | object (members : List (String × PlainData))
deriving Inhabited

/-- The object with given members; of members with one key the last wins, in the first one's
place. -/
def PlainData.ofMembers (members : List (String × PlainData)) : PlainData :=
  .object (Entries.ofList members).toList

end ScriptCore
