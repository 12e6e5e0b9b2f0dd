import ScriptCore.Proofs.Json.Float
import ScriptCore.Proofs.Json.Nesting

/-! # JSON values read back

A printed value is read back in front of anything that cannot continue a number, if it is no deeper
than the reader allows and its leaves read back on their own. The items between commas are the same
argument for arrays and objects. So a library made of the reader keeps the laws, whatever its way to
doubles, and the one that takes the nearest keeps that of doubles too.
-/

namespace ScriptCore

namespace Json

/-! ## Items between commas -/

section Items

variable {α : Type} {item : Reader α} {close : Char} {texts : List (List Char)} {items : List α}

/-- A text from which an item is read, in front of anything that cannot continue a number, and which
does not begin like the end of a list. -/
structure Prints (item : Reader α) (close : Char) (text : List Char) (a : α) : Prop where
  first : ∃ c left, text = c :: left ∧ isSpace c = false ∧ c ≠ close
  reads : ∀ rest, EndsNumeral rest → item (text ++ rest) = some (a, rest)

theorem skipSpaces_cons {c : Char} (visible : isSpace c = false) (rest : List Char) :
    skipSpaces (c :: rest) = c :: rest :=
  List.dropWhile_cons_of_neg (Bool.eq_false_iff.mp visible)

theorem Prints.skipSpaces {text : List Char} {a : α} (prints : Prints item close text a)
    (rest : List Char) : skipSpaces (text ++ rest) = text ++ rest := by
  obtain ⟨c, left, rfl, visible, -⟩ := prints.first
  exact skipSpaces_cons visible _

theorem endsNumeral_cons {c : Char} (value : digitValue? 10 c = none) (noPoint : c ≠ '.')
    (small : c ≠ 'e') (capital : c ≠ 'E') (rest : List Char) : EndsNumeral (c :: rest) := by
  intro other isFirst
  obtain rfl : c = other := Option.some.inj isFirst
  exact ⟨value, noPoint, small, capital⟩

theorem exists_intercalate_cons (separator text : List Char) (texts : List (List Char)) :
    ∃ more, separator.intercalate (text :: texts) = text ++ more := by
  cases texts with
  | nil => exact ⟨[], by rw [List.intercalate_singleton, List.append_nil]⟩
  | cons next texts =>
    rw [List.intercalate_cons_cons, List.append_assoc]
    exact ⟨_, rfl⟩

/-- Neither the texts between commas nor their number exceed the length of the whole. -/
theorem bounded_intercalate {texts : List (List Char)} (nonempty : ∀ text ∈ texts, text ≠ []) :
    texts.length ≤ ([','].intercalate texts).length ∧
      ∀ text ∈ texts, text.length ≤ ([','].intercalate texts).length := by
  induction texts with
  | nil => exact ⟨Nat.zero_le _, List.forall_mem_nil _⟩
  | cons first texts ih =>
    have some := List.length_pos_of_ne_nil (nonempty first (List.mem_cons_self ..))
    obtain ⟨fewer, shorter⟩ := ih fun text isText => nonempty text (List.mem_cons_of_mem _ isText)
    cases texts with
    | nil =>
      rw [List.intercalate_singleton]
      exact ⟨some, List.forall_mem_singleton.mpr (Nat.le_refl _)⟩
    | cons next texts =>
      rw [List.intercalate_cons_cons, List.length_append, List.length_append, List.length_cons]
      refine ⟨by omega, List.forall_mem_cons.mpr ⟨by omega, fun text isText => ?_⟩⟩
      have bounded := shorter text isText
      omega

/-- The texts of items may be read with the length of the list as the limit of their number. -/
theorem bounded_of_brackets {texts : List (List Char)} {opening closing : Char} {limit : Nat}
    (nonempty : ∀ text ∈ texts, ∃ c left, text = c :: left)
    (short : (opening :: ([','].intercalate texts ++ [closing])).length ≤ limit) :
    texts.length ≤ limit ∧ ∀ text ∈ texts, text.length ≤ limit := by
  obtain ⟨fewer, shorter⟩ := bounded_intercalate fun text isText => by
    obtain ⟨c, left, opened⟩ := nonempty text isText
    rw [opened]
    exact List.cons_ne_nil c left
  rw [List.length_cons, List.length_append] at short
  exact ⟨by omega, fun text isText => (shorter text isText).trans (by omega)⟩

/-- A bracket that ends a list is no space, no comma and no part of a number. -/
structure Closes (close : Char) : Prop where
  visible : isSpace close = false
  noComma : close ≠ ','
  ends : ∀ rest, EndsNumeral (close :: rest)

/-- Items between commas are read up to the closing bracket. -/
theorem takeItems?_intercalate (prints : List.Forall₂ (Prints item close) texts items)
    (nonempty : texts ≠ []) {limit : Nat} (few : texts.length ≤ limit) (closes : Closes close)
    (rest : List Char) :
    takeItems? item close limit ([','].intercalate texts ++ close :: rest) =
      some (items, rest) := by
  induction prints generalizing limit with
  | nil => exact absurd rfl nonempty
  | @cons text a texts items first others ih =>
    obtain ⟨limit, rfl⟩ : ∃ fewer, limit = fewer + 1 := by
      cases limit with
      | zero => cases few
      | succ fewer => exact ⟨fewer, rfl⟩
    cases others with
    | nil =>
      rw [List.intercalate_singleton, takeItems?, first.skipSpaces,
        first.reads _ (closes.ends rest)]
      simp only [Option.bind_eq_bind, Option.bind_some, skipSpaces_cons closes.visible,
        if_neg closes.noComma]
      rfl
    | @cons next b texts items second others =>
      have visible : isSpace ',' = false := by decide
      have comma : EndsNumeral (',' :: ([','].intercalate (next :: texts) ++ close :: rest)) :=
        endsNumeral_cons (by decide) (by decide) (by decide) (by decide) _
      have left := ih (List.cons_ne_nil _ _) (Nat.le_of_succ_le_succ few)
      rw [List.intercalate_cons_cons, takeItems?]
      simp only [List.append_assoc, List.cons_append, List.nil_append]
      rw [first.skipSpaces, first.reads _ comma]
      simp only [Option.bind_eq_bind, Option.bind_some, skipSpaces_cons visible, if_true]
      rw [left]
      rfl

theorem takeList?_intercalate (prints : List.Forall₂ (Prints item close) texts items)
    {limit : Nat} (few : texts.length ≤ limit) (closes : Closes close) (rest : List Char) :
    takeList? item close limit ([','].intercalate texts ++ close :: rest) = some (items, rest) := by
  rw [takeList?]
  cases prints with
  | nil =>
    rw [List.intercalate_nil, List.nil_append, skipSpaces_cons closes.visible]
    exact if_pos rfl
  | @cons text a texts items first others =>
    have read := takeItems?_intercalate (.cons first others) (List.cons_ne_nil _ _) few closes rest
    obtain ⟨c, left, rfl, visible, noClose⟩ := first.first
    obtain ⟨more, isMore⟩ := exists_intercalate_cons [','] (c :: left) texts
    rw [isMore] at read ⊢
    simp only [List.cons_append] at read ⊢
    rw [skipSpaces_cons visible]
    exact (if_neg noClose).trans read

end Items

/-! ## Values -/

variable {double? : Numeral → Option Double}

theorem renderAll_eq (items : List Json) : renderAll items = items.map render := by
  induction items with
  | nil => rw [renderAll, List.map_nil]
  | cons item rest ih => rw [renderAll, List.map_cons, ih]

/-- The text of a member. -/
def memberText (member : String × Json) : String := quote member.1 ++ ":" ++ member.2.render

theorem renderMembers_eq (members : List (String × Json)) :
    renderMembers members = members.map memberText := by
  induction members with
  | nil => rw [renderMembers, List.map_nil]
  | cons member rest ih => rw [renderMembers, List.map_cons, ih, memberText]

theorem toList_render_array (items : List Json) :
    (render (.array items)).toList =
      '[' :: ([','].intercalate (items.map fun item => item.render.toList) ++ [']']) := by
  rw [render, renderAll_eq]
  simp [String.toList_append, String.toList_intercalate, List.map_map, Function.comp_def]

theorem toList_render_object (members : List (String × Json)) :
    (render (.object members)).toList =
      '\x7b' :: ([','].intercalate (members.map fun member => (memberText member).toList) ++
        ['\x7d']) := by
  rw [render, renderMembers_eq]
  simp [String.toList_append, String.toList_intercalate, List.map_map, Function.comp_def]

theorem closes_array : Closes ']' :=
  ⟨by decide, by decide, endsNumeral_cons (by decide) (by decide) (by decide) (by decide)⟩

theorem closes_object : Closes '\x7d' :=
  ⟨by decide, by decide, endsNumeral_cons (by decide) (by decide) (by decide) (by decide)⟩

theorem quote_first (s : String) : ∃ left, (quote s).toList = '"' :: left := by
  rw [quote, String.toList_ofList, List.cons_append]
  exact ⟨_, rfl⟩

theorem takeValue?_string (limit depth : Nat) (s : String) (rest : List Char) :
    takeValue? double? limit depth ((quote s).toList ++ rest) = some (.string s, rest) := by
  have read := takeString?_quote s rest
  obtain ⟨left, opened⟩ := quote_first s
  rw [opened, List.cons_append] at read ⊢
  rw [takeValue?.eq_def]
  simp only [read, Option.map_some]

/-- A printed value begins neither with a space nor like the end of a list. -/
theorem render_first (json : Json) :
    ∃ c left, json.render.toList = c :: left ∧ isSpace c = false ∧ c ≠ ']' := by
  have numeric (numeral : Numeral) (legible : numeral.Legible) :
      ∃ c left, (numeral.render 10 true).toList = c :: left ∧ isSpace c = false ∧ c ≠ ']' := by
    obtain ⟨c, left, opened, isPart⟩ := exists_first legible true
    have foreign : ']' ∉ Numeral.alphabet := by decide
    refine ⟨c, left, ?_, isSpace_eq_false isPart, fun same => foreign (same ▸ isPart)⟩
    rw [Numeral.render, String.toList_ofList, opened]
  cases json with
  | null => exact ⟨'n', "ull".toList, by rw [render]; rfl, by decide, by decide⟩
  | boolean b =>
    rw [render]
    cases b with
    | true => exact ⟨'t', "rue".toList, rfl, by decide, by decide⟩
    | false => exact ⟨'f', "alse".toList, rfl, by decide, by decide⟩
  | integer n =>
    rw [render, toString_eq_render]
    exact numeric _ (strict_integer n).toLegible
  | float x =>
    rw [render]
    cases finite : x.isFinite with
    | false =>
      rw [floatText_of_not_isFinite finite]
      exact ⟨'n', "ull".toList, rfl, by decide, by decide⟩
    | true =>
      obtain ⟨numeral, strict, isText, -⟩ := exists_floatText finite
      rw [isText]
      exact numeric numeral strict.toLegible
  | string s =>
    obtain ⟨left, opened⟩ := quote_first s
    exact ⟨'"', left, by rw [render, opened], by decide, by decide⟩
  | array items => exact ⟨'[', _, toList_render_array items, by decide, by decide⟩
  | object members => exact ⟨'\x7b', _, toList_render_object members, by decide, by decide⟩

theorem memberText_first (member : String × Json) :
    ∃ left, (memberText member).toList = '"' :: left := by
  obtain ⟨left, quoted⟩ := quote_first member.1
  rw [memberText, String.toList_append, String.toList_append, quoted]
  exact ⟨_, rfl⟩

theorem prints_member {value : Reader Json} {member : String × Json}
    (reads : ∀ rest, EndsNumeral rest →
      value (member.2.render.toList ++ rest) = some (member.2, rest)) :
    Prints (takeMember? value) '\x7d' (memberText member).toList member := by
  have opened : (memberText member).toList =
      (quote member.1).toList ++ ':' :: member.2.render.toList := by
    rw [memberText]
    simp [String.toList_append]
  constructor
  · obtain ⟨left, quoted⟩ := memberText_first member
    exact ⟨'"', left, quoted, by decide, by decide⟩
  · intro rest ends
    obtain ⟨c, left, first, visible, -⟩ := render_first member.2
    have valueFirst : skipSpaces (member.2.render.toList ++ rest) =
        member.2.render.toList ++ rest := by
      rw [first, List.cons_append, skipSpaces_cons visible]
    have colon : isSpace ':' = false := by decide
    rw [opened, List.append_assoc, List.cons_append, takeMember?, takeString?_quote]
    simp only [Option.bind_eq_bind, Option.bind_some, skipSpaces_cons colon, valueFirst]
    rw [reads rest ends]
    rfl

/-! ## Leaves -/

theorem read_eq_ok_iff {text : String} {json : Json} :
    (libraryBy double?).read text = .ok json ↔
      ∃ own, readWritten? double? text = some own ∧ own.collapse = json := by
  change (written double? text).map collapse = .ok json ↔ _
  rw [written]
  cases readWritten? double? text with
  | none => simp [Except.map]
  | some own => simp [Except.map]

theorem takeValue?_number {numeral : Numeral} {json : Json} (strict : numeral.IsStrict)
    (isText : json.render = numeral.render 10 true) (readsBack : (libraryBy double?).ReadsBack json)
    (limit depth : Nat) {rest : List Char} (ends : EndsNumeral rest) :
    takeValue? double? limit depth (json.render.toList ++ rest) = some (json, rest) := by
  obtain ⟨own, reads, collapsed⟩ := read_eq_ok_iff.mp readsBack
  change readWritten? double? json.render = some own at reads
  rw [isText, readWritten?_numeral strict] at reads
  rw [collapse_of_isLeaf (numberOf?_isLeaf reads)] at collapsed
  rw [isText, Numeral.render, String.toList_ofList, takeValue?_chars strict true limit depth ends,
    reads, Option.map_some, collapsed]

/-- What reads back on its own is read in front of anything that cannot continue it. -/
theorem takeValue?_leaf {json : Json} (leaf : json.isLeaf = true)
    (readsBack : (libraryBy double?).ReadsBack json) (limit depth : Nat) {rest : List Char}
    (ends : EndsNumeral rest) :
    takeValue? double? limit depth (json.render.toList ++ rest) = some (json, rest) := by
  cases json with
  | null =>
    rw [render]
    exact takeValue?_null limit depth rest
  | boolean b => exact takeValue?_boolean limit depth b rest
  | string s =>
    rw [render]
    exact takeValue?_string limit depth s rest
  | integer n =>
    refine takeValue?_number (strict_integer n) ?_ readsBack limit depth ends
    rw [render, toString_eq_render]
  | float x =>
    cases finite : x.isFinite with
    | false =>
      obtain ⟨own, reads, collapsed⟩ := read_eq_ok_iff.mp readsBack
      have isNull : (libraryBy double?).render (.float x) = "null" := by
        change render _ = _
        rw [render, floatText_of_not_isFinite finite]
      have null : readWritten? double? "null" = some .null := rfl
      rw [isNull, null] at reads
      cases reads
      cases collapsed
    | true =>
      obtain ⟨numeral, strict, isText, -⟩ := exists_floatText finite
      refine takeValue?_number strict ?_ readsBack limit depth ends
      rw [render, isText]
  | array | object => cases leaf

/-! ## Containers -/

section Containers

variable {limit depth : Nat}

/-- Whether a value is read from its text, in front of anything that cannot continue it. -/
def Returns (double? : Numeral → Option Double) (limit depth : Nat) (json : Json) : Prop :=
  json.render.toList.length ≤ limit → ∀ rest, EndsNumeral rest →
    takeValue? double? limit depth (json.render.toList ++ rest) = some (json, rest)

theorem returns_array {items : List Json}
    (each : ∀ item ∈ items, Returns double? limit depth item) :
    Returns double? limit (depth + 1) (.array items) := by
  intro short rest _
  rw [toList_render_array] at short ⊢
  obtain ⟨few, shorter⟩ := bounded_of_brackets (fun text isText => by
    obtain ⟨item, -, rfl⟩ := List.mem_map.mp isText
    obtain ⟨c, left, opened, -⟩ := render_first item
    exact ⟨c, left, opened⟩) short
  have prints : List.Forall₂ (Prints (takeValue? double? limit depth) ']')
      (items.map fun item => item.render.toList) items := by
    rw [List.forall₂_map_left_iff, List.forall₂_same]
    intro item isItem
    have itemShort := shorter _ (List.mem_map.mpr ⟨item, isItem, rfl⟩)
    exact ⟨render_first item, each item isItem itemShort⟩
  rw [List.cons_append, List.append_assoc, takeValue?.eq_def]
  simp only [List.singleton_append, takeList?_intercalate prints few closes_array, Option.map_some]

theorem returns_object {members : List (String × Json)}
    (each : ∀ member ∈ members, Returns double? limit depth member.2) :
    Returns double? limit (depth + 1) (.object members) := by
  intro short rest _
  rw [toList_render_object] at short ⊢
  obtain ⟨few, shorter⟩ := bounded_of_brackets (fun text isText => by
    obtain ⟨member, -, rfl⟩ := List.mem_map.mp isText
    exact ⟨'"', memberText_first member⟩) short
  have prints : List.Forall₂ (Prints (takeMember? (takeValue? double? limit depth)) '\x7d')
      (members.map fun member => (memberText member).toList) members := by
    rw [List.forall₂_map_left_iff, List.forall₂_same]
    intro member isMember
    have memberShort := shorter _ (List.mem_map.mpr ⟨member, isMember, rfl⟩)
    have valueShort : member.2.render.toList.length ≤ (memberText member).toList.length := by
      rw [memberText, String.toList_append, List.length_append]
      exact Nat.le_add_left ..
    exact prints_member (each member isMember (valueShort.trans memberShort))
  rw [List.cons_append, List.append_assoc, takeValue?.eq_def]
  simp only [List.singleton_append, takeList?_intercalate prints few closes_object, Option.map_some]

end Containers

theorem NestsIn.returns {depth : Nat} {json : Json} (nests : json.NestsIn depth)
    (leaves : ∀ leaf : Json, leaf.Within json → leaf.isLeaf = true →
      (libraryBy double?).ReadsBack leaf) (limit : Nat) : Returns double? limit depth json := by
  induction nests with
  | leaf leaf => exact fun _ rest ends => takeValue?_leaf leaf (leaves _ .self leaf) limit _ ends
  | array _ ih =>
    exact returns_array fun item isItem =>
      ih item isItem fun leaf inside => leaves leaf (.item isItem inside)
  | object _ ih =>
    exact returns_object fun member isMember =>
      ih member isMember fun leaf inside => leaves leaf (.member isMember inside)

theorem readWritten?_of_returns {json : Json} (returns : ∀ limit, Returns double? limit 127 json) :
    readWritten? double? json.render = some json := by
  have ends : EndsNumeral [] := fun c isFirst => nomatch isFirst
  have returned := returns json.render.length (Nat.le_of_eq String.length_toList) [] ends
  obtain ⟨c, left, opened, visible, -⟩ := render_first json
  have spaceless : skipSpaces json.render.toList = json.render.toList := by
    rw [opened, skipSpaces_cons visible]
  rw [List.append_nil] at returned
  rw [readWritten?, spaceless, returned]
  rfl

/-! ## Libraries -/

theorem readsBack_of_readWritten? {json : Json}
    (reads : readWritten? double? json.render = some json) (distinct : json.DistinctKeys) :
    (libraryBy double?).ReadsBack json :=
  read_eq_ok_iff.mpr ⟨json, reads, distinct.collapse_eq⟩

theorem libraryBy_readsValues (double? : Numeral → Option Double) :
    (libraryBy double?).ReadsValues (written double?) where
  collapses _ := rfl
  nests reads := by
    obtain ⟨own, isWritten, rfl⟩ := read_eq_ok_iff.mp reads
    exact (readWritten?_nestsIn isWritten).collapse
  containers shallow distinct leaves :=
    readsBack_of_readWritten? (readWritten?_of_returns (shallow.returns leaves)) distinct
  null := readsBack_of_readWritten? rfl (.leaf rfl)
  boolean b := by
    refine readsBack_of_readWritten? ?_ (.leaf rfl)
    cases b <;> rfl
  integer {n} exact := by
    refine readsBack_of_readWritten? ?_ (.leaf rfl)
    rw [render, toString_eq_render, readWritten?_numeral (strict_integer n), numberOf?,
      integerOf?_integer exact]
  string s := by
    refine readsBack_of_readWritten? (readWritten?_of_returns fun limit _ rest _ => ?_) (.leaf rfl)
    rw [render]
    exact takeValue?_string limit 127 s rest

theorem documentedLibrary_isDocumented :
    documentedLibrary.IsDocumented (written nearestDouble?) where
  toReadsValues := libraryBy_readsValues nearestDouble?
  float finite := by
    refine readsBack_of_readWritten? ?_ (.leaf rfl)
    rw [render]
    exact readWritten?_floatText finite

end Json

end ScriptCore
