import ScriptCore.Json.Library
import ScriptCore.Proofs.PlainData.Json
import ScriptCore.Proofs.PlainData.Projection

/-! # JSON through plain data

No member of plain data that come from JSON is undefined, so nothing is left out on the way back:
arrays and objects keep their items and members, and only numbers change, once. Integers that come
back are exact as doubles.
-/

namespace ScriptCore

namespace PlainData

theorem ofJsonAll_eq (items : List Json) : ofJsonAll items = items.map ofJson := by
  induction items with
  | nil => rw [ofJsonAll, List.map_nil]
  | cons item rest ih => rw [ofJsonAll, List.map_cons, ih]

theorem ofJsonMembers_eq (members : List (String × Json)) :
    ofJsonMembers members = members.map fun member => (member.1, ofJson member.2) := by
  induction members with
  | nil => rw [ofJsonMembers, List.map_nil]
  | cons member rest ih => rw [ofJsonMembers, List.map_cons, ih]

theorem toJsonAll_eq (items : List PlainData) : toJsonAll items = items.map toJson := by
  induction items with
  | nil => rw [toJsonAll, List.map_nil]
  | cons item rest ih => rw [toJsonAll, List.map_cons, ih]

theorem toJsonMembers_eq {members : List (String × PlainData)}
    (defined : ∀ member ∈ members, member.2.isUndefined = false) :
    toJsonMembers members = members.map fun member => (member.1, member.2.toJson) := by
  induction members with
  | nil => rw [toJsonMembers, List.map_nil]
  | cons member rest ih =>
    obtain ⟨isDefined, others⟩ := List.forall_mem_cons.mp defined
    rw [toJsonMembers, if_neg (Bool.eq_false_iff.mp isDefined), List.map_cons, ih others]

theorem isUndefined_ofJson (json : Json) : (ofJson json).isUndefined = false := by
  cases json <;> rw [ofJson] <;> rfl

theorem distinctKeys_ofJson {json : Json} (distinct : json.DistinctKeys) :
    (ofJson json).DistinctKeys := by
  induction distinct with
  | @leaf json leaf =>
    cases json with
    | array | object => cases leaf
    | null | boolean | integer | float | string =>
      rw [ofJson]
      exact .primitive _
  | array _ ih =>
    rw [ofJson, ofJsonAll_eq]
    exact .array (List.forall_mem_map.mpr ih)
  | object distinct _ ih =>
    rw [ofJson, ofJsonMembers_eq]
    refine .object ?_ (List.forall_mem_map.mpr ih)
    rw [List.map_map]
    exact distinct

theorem natAbs_le_of_numberToJson {x : Double} {n : Int}
    (isInteger : numberToJson x = .integer n) : n.natAbs ≤ 2 ^ 53 := by
  rw [numberToJson] at isInteger
  split at isInteger
  · cases isInteger
  · split at isInteger
    · next whole =>
      cases isInteger
      obtain ⟨integral, atMost⟩ := (Bool.and_eq_true ..).mp whole
      cases x with
      | nan => cases integral
      | signed negative m =>
        have value := Double.wholeNat_mul_unitsPerOne integral
        have finite : m.rank < Magnitude.infinityRank := by
          refine Nat.lt_of_le_of_ne m.rank_le fun last => ?_
          simp [Double.isIntegral, Magnitude.isInfinite, last] at integral
        have limit : Double.exactIntegerLimit = .ofNat (2 ^ 53) := rfl
        have exact := Magnitude.IsExact.ones (Nat.le_refl (2 ^ 53))
        rw [Double.abs, ← Double.ofUnits_units, limit, Double.ofNat_eq_ofUnits,
          Double.ofUnits_atMost ⟨m, finite, rfl⟩ exact, ← value] at atMost
        have bounded := Nat.le_of_mul_le_mul_right atMost Magnitude.unitsPerOne_pos
        rw [integerOf]
        split <;> omega
    · cases isInteger

end PlainData

namespace Json

open PlainData (ofJson)

/-- A value as plain data give it back. -/
def normal (json : Json) : Json := (ofJson json).toJson

theorem normal_normal (json : Json) : json.normal.normal = json.normal := by
  rw [normal, normal, PlainData.ofJson_toJson, PlainData.toJson_norm]

theorem normal_array (items : List Json) :
    normal (.array items) = .array (items.map normal) := by
  rw [normal, ofJson, PlainData.ofJsonAll_eq, PlainData.toJson, PlainData.toJsonAll_eq,
    List.map_map]
  rfl

theorem normal_object (members : List (String × Json)) :
    normal (.object members) = .object (members.map fun member => (member.1, member.2.normal)) := by
  rw [normal, ofJson, PlainData.ofJsonMembers_eq, PlainData.toJson, PlainData.toJsonMembers_eq,
    List.map_map]
  · rfl
  · intro member isMember
    obtain ⟨source, -, rfl⟩ := List.mem_map.mp isMember
    exact PlainData.isUndefined_ofJson source.2

theorem isLeaf_numberToJson (x : Double) : (PlainData.numberToJson x).isLeaf = true := by
  rw [PlainData.numberToJson]
  split_ifs <;> rfl

theorem isLeaf_normal {json : Json} (leaf : json.isLeaf = true) : json.normal.isLeaf = true := by
  cases json with
  | array | object => cases leaf
  | integer n => exact isLeaf_numberToJson (.ofInt n)
  | float x => exact isLeaf_numberToJson x
  | null | boolean | string => rfl

/-- The normal form is no deeper than the value. -/
theorem NestsIn.normal {depth : Nat} {json : Json} (nests : json.NestsIn depth) :
    json.normal.NestsIn depth := by
  induction nests with
  | leaf leaf => exact .leaf (isLeaf_normal leaf)
  | array _ ih =>
    rw [normal_array]
    exact .array (List.forall_mem_map.mpr ih)
  | object _ ih =>
    rw [normal_object]
    exact .object (List.forall_mem_map.mpr ih)

/-- The normal form has the keys of the value. -/
theorem DistinctKeys.normal {json : Json} (distinct : json.DistinctKeys) :
    json.normal.DistinctKeys := by
  induction distinct with
  | leaf leaf => exact .leaf (isLeaf_normal leaf)
  | array _ ih =>
    rw [normal_array]
    exact .array (List.forall_mem_map.mpr ih)
  | object distinct _ ih =>
    rw [normal_object]
    refine .object ?_ (List.forall_mem_map.mpr ih)
    rw [List.map_map]
    exact distinct

theorem Within.eq_of_isLeaf {part json : Json} (inside : part.Within json)
    (leaf : json.isLeaf = true) : part = json := by
  cases inside with
  | self => rfl
  | item | member => cases leaf

end Json

namespace JsonLibrary.IsDocumented

open Json (Within)

variable {library : JsonLibrary} {written : String → Except String Json} {json : Json}

theorem readsBack_numberToJson (documented : library.IsDocumented written) (x : Double) :
    library.ReadsBack (PlainData.numberToJson x) := by
  generalize isNumber : PlainData.numberToJson x = json
  have number := isNumber
  rw [PlainData.numberToJson] at number
  split_ifs at number with infinite whole
  · exact number ▸ documented.null
  · subst number
    exact documented.integer (PlainData.natAbs_le_of_numberToJson isNumber)
  · exact number ▸ documented.float (by simpa using infinite)

/-- Whatever is in a normal form reads back on its own. -/
theorem readsBack_of_within_normal (documented : library.IsDocumented written) {depth : Nat}
    (nests : json.NestsIn depth) {leaf : Json} (inside : leaf.Within json.normal)
    (isLeaf : leaf.isLeaf = true) : library.ReadsBack leaf := by
  induction nests with
  | @leaf _ json alone =>
    rw [inside.eq_of_isLeaf (Json.isLeaf_normal alone)]
    cases json with
    | array | object => cases alone
    | null => exact documented.null
    | boolean b => exact documented.boolean b
    | integer n => exact documented.readsBack_numberToJson (.ofInt n)
    | float x => exact documented.readsBack_numberToJson x
    | string s => exact documented.string s
  | array _ ih =>
    rw [Json.normal_array] at inside
    cases inside with
    | self => cases isLeaf
    | item isItem inside =>
      obtain ⟨source, isSource, rfl⟩ := List.mem_map.mp isItem
      exact ih source isSource inside
  | object _ ih =>
    rw [Json.normal_object] at inside
    cases inside with
    | self => cases isLeaf
    | member isMember inside =>
      obtain ⟨source, isSource, rfl⟩ := List.mem_map.mp isMember
      exact ih source isSource inside

/-- A normal form reads back. -/
theorem readsBack_normal (documented : library.IsDocumented written) (nests : json.NestsIn 127)
    (distinct : json.DistinctKeys) : library.ReadsBack json.normal :=
  documented.containers nests.normal distinct.normal fun _ inside isLeaf =>
    documented.readsBack_of_within_normal nests inside isLeaf

end JsonLibrary.IsDocumented

end ScriptCore
