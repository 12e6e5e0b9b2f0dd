import ScriptCore.Entries
import ScriptCore.Number.Double

/-! # JSON values

JSON as a tree. A number is an integer or a double, and is written accordingly. A tree as it is
written may repeat keys in an object; a tree as it is read does not.
-/

namespace ScriptCore

inductive Json
  | null
  | boolean (b : Bool)
  | integer (n : Int)
  | float (x : Double)
  | string (s : String)
  | array (items : List Json)
  | object (members : List (String × Json))
deriving Inhabited

namespace Json

mutual

/-- A written value as it is read: of repeated keys the last value wins, at the place of the first,
in every object. -/
def collapse : Json → Json
  | array items => array (collapseAll items)
  | object members => object (Entries.ofList (collapseMembers members)).toList
  | json => json

def collapseAll : List Json → List Json
  | [] => []
  | item :: rest => collapse item :: collapseAll rest

def collapseMembers : List (String × Json) → List (String × Json)
  | [] => []
  | (key, item) :: rest => (key, collapse item) :: collapseMembers rest

end

/-- Whether a value is no container. -/
def isLeaf : Json → Bool
  | array _ | object _ => false
  | _ => true

/-- A part of a value, at any depth. -/
inductive Within (part : Json) : Json → Prop
  | self : Within part part
  | item {items : List Json} {item : Json} (isItem : item ∈ items) (inside : Within part item) :
      Within part (.array items)
  | member {members : List (String × Json)} {member : String × Json} (isMember : member ∈ members)
      (inside : Within part member.2) : Within part (.object members)

/-- Containers stand in each other up to the given depth. -/
inductive NestsIn : Nat → Json → Prop
  | leaf {depth : Nat} {json : Json} (isLeaf : json.isLeaf = true) : NestsIn depth json
  | array {depth : Nat} {items : List Json} (each : ∀ item ∈ items, item.NestsIn depth) :
      NestsIn (depth + 1) (.array items)
  | object {depth : Nat} {members : List (String × Json)}
      (each : ∀ member ∈ members, member.2.NestsIn depth) : NestsIn (depth + 1) (.object members)

/-- No object repeats a key. -/
inductive DistinctKeys : Json → Prop
  | leaf {json : Json} (isLeaf : json.isLeaf = true) : DistinctKeys json
  | array {items : List Json} (each : ∀ item ∈ items, item.DistinctKeys) :
      DistinctKeys (.array items)
  | object {members : List (String × Json)} (distinct : (members.map Prod.fst).Nodup)
      (each : ∀ member ∈ members, member.2.DistinctKeys) : DistinctKeys (.object members)

end Json

end ScriptCore
