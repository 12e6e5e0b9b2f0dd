import ScriptCore.Json.Reader
import ScriptCore.Proofs.Entries

/-! # What the reader builds

Collapsing repeated keys leaves distinct ones, and changes nothing where they are distinct already.
It makes nothing deeper, so what is read nests no deeper than the reader allows.
-/

namespace ScriptCore

namespace Json

/-! ## Collapsing -/

theorem collapseAll_eq (items : List Json) : collapseAll items = items.map collapse := by
  induction items with
  | nil => rw [collapseAll, List.map_nil]
  | cons item rest ih => rw [collapseAll, List.map_cons, ih]

theorem collapseMembers_eq (members : List (String × Json)) :
    collapseMembers members = members.map fun member => (member.1, member.2.collapse) := by
  induction members with
  | nil => rw [collapseMembers, List.map_nil]
  | cons member rest ih => rw [collapseMembers, List.map_cons, ih]

theorem collapse_of_isLeaf {json : Json} (leaf : json.isLeaf = true) : json.collapse = json := by
  cases json with
  | array | object => cases leaf
  | null | boolean | integer | float | string => rfl

theorem NestsIn.collapse {depth : Nat} {json : Json} (nests : json.NestsIn depth) :
    json.collapse.NestsIn depth := by
  induction nests with
  | leaf leaf =>
    rw [collapse_of_isLeaf leaf]
    exact .leaf leaf
  | array _ ih =>
    rw [Json.collapse, collapseAll_eq]
    exact .array (List.forall_mem_map.mpr ih)
  | object _ ih =>
    rw [Json.collapse, collapseMembers_eq]
    refine .object fun member isMember => ?_
    obtain ⟨source, isSource, rfl⟩ := List.mem_map.mp (Entries.mem_of_mem_ofList isMember)
    exact ih source isSource

mutual

theorem distinctKeys_collapse : ∀ json : Json, json.collapse.DistinctKeys
  | array items => by
    rw [collapse]
    exact .array (distinctKeys_collapseAll items)
  | object members => by
    rw [collapse]
    exact .object (Entries.ofList _).keys_nodup fun member isMember =>
      distinctKeys_collapseMembers members member (Entries.mem_of_mem_ofList isMember)
  | null | boolean _ | integer _ | float _ | string _ => .leaf rfl

theorem distinctKeys_collapseAll : ∀ items : List Json,
    ∀ item ∈ collapseAll items, item.DistinctKeys
  | [] => List.forall_mem_nil _
  | item :: rest =>
    List.forall_mem_cons.mpr ⟨distinctKeys_collapse item, distinctKeys_collapseAll rest⟩

theorem distinctKeys_collapseMembers : ∀ members : List (String × Json),
    ∀ member ∈ collapseMembers members, member.2.DistinctKeys
  | [] => List.forall_mem_nil _
  | (_, item) :: rest =>
    List.forall_mem_cons.mpr ⟨distinctKeys_collapse item, distinctKeys_collapseMembers rest⟩

end

theorem DistinctKeys.collapse_eq {json : Json} (distinct : json.DistinctKeys) :
    json.collapse = json := by
  induction distinct with
  | leaf leaf => exact collapse_of_isLeaf leaf
  | array _ ih =>
    rw [collapse, collapseAll_eq]
    exact congrArg Json.array ((List.map_congr_left ih).trans (List.map_id _))
  | @object members distinct _ ih =>
    have same : collapseMembers members = members := by
      rw [collapseMembers_eq]
      refine (List.map_congr_left fun member isMember => ?_).trans (List.map_id _)
      exact Prod.ext rfl (ih member isMember)
    rw [collapse, same, Entries.toList_ofList_of_nodup distinct]

theorem exists_of_collapse_eq_object {json : Json} {members : List (String × Json)}
    (isObject : json.collapse = .object members) :
    ∃ own, json = .object own ∧ (Entries.ofList (collapseMembers own)).toList = members := by
  cases json with
  | object own =>
    rw [collapse] at isObject
    exact ⟨own, rfl, Json.object.inj isObject⟩
  | array items =>
    rw [collapse] at isObject
    cases isObject
  | null | boolean | integer | float | string => cases isObject

/-! ## Reading -/

variable {α : Type} {item : Reader α} {close : Char} {limit : Nat}

/-- What holds of everything that a reader of items yields holds of all items of a list. -/
theorem forall_of_takeItems? {valid : α → Prop}
    (each : ∀ text a rest, item text = some (a, rest) → valid a)
    {text rest : List Char} {items : List α}
    (reads : takeItems? item close limit text = some (items, rest)) : ∀ a ∈ items, valid a := by
  induction limit generalizing text items rest with
  | zero => cases reads
  | succ limit ih =>
    rw [takeItems?] at reads
    obtain ⟨⟨first, afterFirst⟩, readsFirst, reads⟩ := Option.bind_eq_some_iff.mp reads
    have isValid := each _ _ _ readsFirst
    dsimp only at reads
    split at reads
    · cases reads
    · split at reads
      · obtain ⟨⟨others, afterOthers⟩, readsOthers, reads⟩ := Option.bind_eq_some_iff.mp reads
        cases reads
        exact List.forall_mem_cons.mpr ⟨isValid, ih readsOthers⟩
      · split at reads
        · cases reads
          exact List.forall_mem_singleton.mpr isValid
        · cases reads

theorem forall_of_takeList? {valid : α → Prop}
    (each : ∀ text a rest, item text = some (a, rest) → valid a)
    {text rest : List Char} {items : List α}
    (reads : takeList? item close limit text = some (items, rest)) : ∀ a ∈ items, valid a := by
  rw [takeList?] at reads
  split at reads
  · cases reads
  · split at reads
    · cases reads
      exact List.forall_mem_nil _
    · exact forall_of_takeItems? each reads

theorem value_of_takeMember? {value : Reader Json} {text rest : List Char} {member : String × Json}
    (reads : takeMember? value text = some (member, rest)) :
    ∃ text, value text = some (member.2, rest) := by
  rw [takeMember?] at reads
  obtain ⟨⟨key, afterKey⟩, -, reads⟩ := Option.bind_eq_some_iff.mp reads
  dsimp only at reads
  split at reads
  · next afterColon _ =>
    obtain ⟨⟨inner, afterValue⟩, readsValue, reads⟩ := Option.bind_eq_some_iff.mp reads
    cases reads
    exact ⟨_, readsValue⟩
  · cases reads

theorem eq_of_takeWord? {word : String} {value json : Json} {text rest : List Char}
    (reads : takeWord? word value text = some (json, rest)) : json = value := by
  rw [takeWord?] at reads
  split at reads
  · cases reads
    rfl
  · cases reads

variable {double? : Numeral → Option Double}

theorem numberOf?_isLeaf {numeral : Numeral} {json : Json}
    (isNumber : numberOf? double? numeral = some json) : json.isLeaf = true := by
  rw [numberOf?] at isNumber
  split at isNumber
  · cases isNumber
    rfl
  · obtain ⟨x, -, rfl⟩ := Option.map_eq_some_iff.mp isNumber
    rfl

theorem takeNumber?_isLeaf {text rest : List Char} {json : Json}
    (reads : takeNumber? double? text = some (json, rest)) : json.isLeaf = true := by
  obtain ⟨⟨numeral, left⟩, -, reads⟩ := Option.bind_eq_some_iff.mp reads
  obtain ⟨number, isNumber, reads⟩ := Option.bind_eq_some_iff.mp reads
  cases reads
  exact numberOf?_isLeaf isNumber

/-- What is read is no container, or an array or object of what is read one level deeper. -/
theorem takeValue?_cases {depth : Nat} {text rest : List Char} {json : Json}
    (reads : takeValue? double? limit depth text = some (json, rest)) :
    json.isLeaf = true ∨
      (∃ inner items inside, depth = inner + 1 ∧ json = .array items ∧
        takeList? (takeValue? double? limit inner) ']' limit inside = some (items, rest)) ∨
      ∃ inner members inside, depth = inner + 1 ∧ json = .object members ∧
        takeList? (takeMember? (takeValue? double? limit inner)) '\x7d' limit inside =
          some (members, rest) := by
  unfold takeValue? at reads
  split at reads
  · cases reads
  · exact .inl (eq_of_takeWord? reads ▸ rfl)
  · exact .inl (eq_of_takeWord? reads ▸ rfl)
  · exact .inl (eq_of_takeWord? reads ▸ rfl)
  · obtain ⟨_, -, isString⟩ := Option.map_eq_some_iff.mp reads
    cases isString
    exact .inl rfl
  · cases depth with
    | zero => cases reads
    | succ inner =>
      obtain ⟨⟨items, left⟩, readsItems, isArray⟩ := Option.map_eq_some_iff.mp reads
      cases isArray
      exact .inr (.inl ⟨inner, items, _, rfl, rfl, readsItems⟩)
  · cases depth with
    | zero => cases reads
    | succ inner =>
      obtain ⟨⟨members, left⟩, readsMembers, isObject⟩ := Option.map_eq_some_iff.mp reads
      cases isObject
      exact .inr (.inr ⟨inner, members, _, rfl, rfl, readsMembers⟩)
  · exact .inl (takeNumber?_isLeaf reads)

theorem takeValue?_nestsIn {depth : Nat} {text rest : List Char} {json : Json}
    (reads : takeValue? double? limit depth text = some (json, rest)) : json.NestsIn depth := by
  induction depth generalizing text json rest with
  | zero =>
    rcases takeValue?_cases reads with leaf | ⟨_, _, _, less, -⟩ | ⟨_, _, _, less, -⟩
    · exact .leaf leaf
    · cases less
    · cases less
  | succ depth ih =>
    rcases takeValue?_cases reads with
      leaf | ⟨_, _, _, same, rfl, readsItems⟩ | ⟨_, _, _, same, rfl, readsMembers⟩
    · exact .leaf leaf
    · cases same
      exact .array (forall_of_takeList? (fun _ _ _ readsItem => ih readsItem) readsItems)
    · cases same
      exact .object (forall_of_takeList? (fun _ _ _ readsMember =>
        ih (value_of_takeMember? readsMember).choose_spec) readsMembers)

theorem readWritten?_nestsIn {text : String} {json : Json}
    (reads : readWritten? double? text = some json) : json.NestsIn 127 := by
  obtain ⟨⟨value, rest⟩, readsValue, reads⟩ := Option.bind_eq_some_iff.mp reads
  dsimp only at reads
  split at reads
  · cases reads
    exact takeValue?_nestsIn readsValue
  · cases reads

end Json

end ScriptCore
