import ScriptCore.Proofs.Array.Nesting

/-! # The text of an array

An array is written as its elements between commas. Arrays among them are written in the same way
and without brackets, so their elements might as well stand in their place, unless there are none:
an empty array leaves an empty text, and its place. Where no nested array is empty, the text of an
array is that of its leaves.
-/

namespace ScriptCore

/-! ## Texts between commas -/

/-- The lists of texts cannot be told apart between commas, whatever stands around them. -/
structure JoinsAlike (texts others : List String) : Prop where
  empty_iff : texts = [] ↔ others = []
  join_eq : ",".intercalate texts = ",".intercalate others

namespace JoinsAlike

variable {texts others more rest : List String}

theorem refl (texts : List String) : JoinsAlike texts texts := ⟨.rfl, rfl⟩

/-- A text that is itself a join stands for what it joins, if that is anything. -/
theorem of_join (nonempty : texts ≠ []) : JoinsAlike [",".intercalate texts] texts :=
  ⟨⟨nofun, fun empty => absurd empty nonempty⟩, String.intercalate_singleton⟩

theorem append (left : JoinsAlike texts others) (right : JoinsAlike more rest) :
    JoinsAlike (texts ++ more) (others ++ rest) := by
  refine ⟨?_, ?_⟩
  · rw [List.append_eq_nil_iff, List.append_eq_nil_iff, left.empty_iff, right.empty_iff]
  · by_cases first : texts = []
    · rw [first, left.empty_iff.mp first]
      exact right.join_eq
    · by_cases second : more = []
      · rw [second, right.empty_iff.mp second, List.append_nil, List.append_nil]
        exact left.join_eq
      · rw [String.intercalate_append_of_ne_nil first second,
          String.intercalate_append_of_ne_nil (mt left.empty_iff.mpr first)
            (mt right.empty_iff.mpr second), left.join_eq, right.join_eq]

theorem trans {third : List String} (left : JoinsAlike texts others)
    (right : JoinsAlike others third) : JoinsAlike texts third :=
  ⟨left.empty_iff.trans right.empty_iff, left.join_eq.trans right.join_eq⟩

end JoinsAlike

/-! ## The text of an array by its elements -/

theorem Outline.texts_eq (items : List Outline) :
    texts items = items.map fun item => (text? item).getD "" := by
  induction items with
  | nil => rfl
  | cons item rest ih => rw [texts, ih, List.map_cons]

namespace Heap

/-- What an array is written with for an element: nothing for null and undefined. -/
def itemText (heap : Heap) (v : Value) : String := (heap.text? v).getD ""

variable {heap : Heap} {ref : ArrayRef}

theorem ArraysAcyclic.text?_array (acyclic : heap.ArraysAcyclic (.array ref)) :
    heap.text? (.array ref) =
      some (",".intercalate ((heap.elements ref).toList.map heap.itemText)) := by
  rw [text?, acyclic.outline_array, Outline.text?, Outline.texts_eq, List.map_map]
  rfl

theorem ArraysAcyclic.itemText_array (acyclic : heap.ArraysAcyclic (.array ref)) :
    heap.itemText (.array ref) =
      ",".intercalate ((heap.elements ref).toList.map heap.itemText) := by
  rw [itemText, acyclic.text?_array, Option.getD_some]

/-- A nested array that is not empty is written as its elements would be in its place. -/
theorem ArraysAcyclic.joinsAlike_elements (acyclic : heap.ArraysAcyclic (.array ref))
    (nonempty : heap.elements ref ≠ #[]) :
    JoinsAlike [heap.itemText (.array ref)] ((heap.elements ref).toList.map heap.itemText) := by
  rw [acyclic.itemText_array]
  refine .of_join fun empty => nonempty ?_
  exact Array.toList_eq_nil_iff.mp (List.map_eq_nil_iff.mp empty)

theorem itemText_of_isNullish {v : Value} (nullish : v.isNullish = true) : heap.itemText v = "" := by
  cases v with
  | primitive p =>
    have silent : heap.text? (.primitive p) = none := if_pos nullish
    rw [itemText, silent, Option.getD_none]
  | array | record | function => contradiction

/-- No cycle comes of putting the elements of a nested array in its place. -/
theorem ArraysAcyclic.of_flattened {whole flat inner : ArrayRef} {before after : Array Value}
    (acyclic : heap.ArraysAcyclic (.array whole))
    (whole_eq : heap.elements whole = before ++ #[.array inner] ++ after)
    (flat_eq : heap.elements flat = before ++ heap.elements inner ++ after) :
    heap.ArraysAcyclic (.array flat) := by
  apply acyclic.of_found
  rintro w ⟨isThere⟩
  simp only [flat_eq, Array.toList_append, List.mem_append] at isThere
  rcases isThere with (isBefore | isInner) | isAfter
  · exact .single (.element (by simp [whole_eq, isBefore]))
  · exact .head (.element (by simp [whole_eq])) (.single (.element isInner))
  · exact .single (.element (by simp [whole_eq, isAfter]))

/-! ## Leaves -/

/-- The leaves of values, depth first: what is left when each array is replaced by its elements
until there is none. -/
inductive Leaves (heap : Heap) : List Value → List Value → Prop
  | nil : Leaves heap [] []
  | leaf {v rest leaves} (plain : v.kind ≠ .array) (others : Leaves heap rest leaves) :
      Leaves heap (v :: rest) (v :: leaves)
  | array {ref rest inner leaves} (inside : Leaves heap (heap.elements ref).toList inner)
      (others : Leaves heap rest leaves) :
      Leaves heap (.array ref :: rest) (inner ++ leaves)

theorem Leaves.append {values leaves more others : List Value} (left : heap.Leaves values leaves)
    (right : heap.Leaves more others) : heap.Leaves (values ++ more) (leaves ++ others) := by
  induction left with
  | nil => exact right
  | leaf plain _ ih => exact .leaf plain ih
  | array inside _ _ ih =>
    rw [List.append_assoc]
    exact .array inside ih

theorem exists_leaves_of_forall {values : List Value}
    (each : ∀ v ∈ values, ∃ leaves, heap.Leaves [v] leaves) :
    ∃ leaves, heap.Leaves values leaves := by
  induction values with
  | nil => exact ⟨[], .nil⟩
  | cons v rest ih =>
    obtain ⟨first, ofFirst⟩ := each v (List.mem_cons_self ..)
    obtain ⟨others, ofRest⟩ := ih fun w isThere => each w (List.mem_cons_of_mem _ isThere)
    exact ⟨first ++ others, ofFirst.append ofRest⟩

theorem ArraysAcyclic.exists_leaves {v : Value} (acyclic : heap.ArraysAcyclic v) :
    ∃ leaves, heap.Leaves [v] leaves := by
  refine acyclic.induction (motive := fun v => ∃ leaves, heap.Leaves [v] leaves) fun v _ ih => ?_
  cases v with
  | primitive p => exact ⟨_, .leaf (by cases p <;> nofun) .nil⟩
  | record | function => exact ⟨_, .leaf nofun .nil⟩
  | array ref =>
    obtain ⟨inner, inside⟩ := exists_leaves_of_forall fun w isThere => ih w (.element isThere)
    exact ⟨inner ++ [], .array inside .nil⟩

/-- Where no array is empty, values are written as their leaves. -/
theorem Leaves.joinsAlike {values leaves : List Value} (ofValues : heap.Leaves values leaves)
    (acyclic : ∀ v ∈ values, heap.ArraysAcyclic v)
    (nonempty : ∀ v ∈ values, ∀ inner, Relation.ReflTransGen heap.Holds v (.array inner) →
      heap.elements inner ≠ #[]) :
    JoinsAlike (values.map heap.itemText) (leaves.map heap.itemText) := by
  induction ofValues with
  | nil => exact .refl _
  | @leaf v rest leaves plain _ ih =>
    have others := ih (fun w isThere => acyclic w (List.mem_cons_of_mem _ isThere))
      fun w isThere => nonempty w (List.mem_cons_of_mem _ isThere)
    exact .append (.refl [heap.itemText v]) others
  | @array ref rest inner leaves _ _ ihInside ih =>
    have others := ih (fun w isThere => acyclic w (List.mem_cons_of_mem _ isThere))
      fun w isThere => nonempty w (List.mem_cons_of_mem _ isThere)
    have here := List.mem_cons_self (a := Value.array ref) (l := rest)
    have inside := ihInside
      (fun w isThere => (acyclic _ here).of_holds (.element isThere))
      fun w isThere inner found => nonempty _ here inner (.head (.element isThere) found)
    have whole := (acyclic _ here).joinsAlike_elements (nonempty _ here ref .refl)
    rw [List.map_append, List.map_cons]
    exact .append (whole.trans inside) others

/-- A nested array that is not empty can be replaced by its elements without a change of the text.
If none of the nested arrays is empty, at any depth, the text is that of the leaves. -/
theorem arrayText_flattened (heap : Heap) :
    (∀ (whole flat inner : ArrayRef) (before after : Array Value),
      heap.ArraysAcyclic (.array whole) →
      heap.elements whole = before ++ #[.array inner] ++ after →
      heap.elements inner ≠ #[] →
      heap.elements flat = before ++ heap.elements inner ++ after →
        ∃ text, heap.text? (.array whole) = some text ∧ heap.text? (.array flat) = some text) ∧
    (∀ ref, heap.ArraysAcyclic (.array ref) →
      (∀ inner, Relation.TransGen heap.Holds (.array ref) (.array inner) →
        heap.elements inner ≠ #[]) →
      (∃ leaves, heap.Leaves (heap.elements ref).toList leaves) ∧
        ∀ leaves, heap.Leaves (heap.elements ref).toList leaves →
          heap.text? (.array ref) = some (",".intercalate (leaves.map heap.itemText))) ∧
    ∀ v : Value, v.isNullish = true → heap.itemText v = "" := by
  refine ⟨?_, ?_, fun v nullish => itemText_of_isNullish nullish⟩
  · intro whole flat inner before after acyclic whole_eq nonempty flat_eq
    have holds : heap.Holds (.array whole) (.array inner) := .element (by simp [whole_eq])
    have alike := JoinsAlike.append
      (.append (.refl (before.toList.map heap.itemText))
        ((acyclic.of_holds holds).joinsAlike_elements nonempty))
      (.refl (after.toList.map heap.itemText))
    refine ⟨_, acyclic.text?_array, ?_⟩
    rw [(acyclic.of_flattened whole_eq flat_eq).text?_array, whole_eq, flat_eq]
    simpa using alike.join_eq.symm
  · intro ref acyclic nonempty
    have inside : ∀ w ∈ (heap.elements ref).toList, heap.ArraysAcyclic w :=
      fun w isThere => acyclic.of_holds (.element isThere)
    refine ⟨exists_leaves_of_forall fun w isThere => (inside w isThere).exists_leaves, ?_⟩
    intro leaves ofElements
    have alike := ofElements.joinsAlike inside fun w isThere inner found =>
      nonempty inner (.head' (.element isThere) found)
    rw [acyclic.text?_array, alike.join_eq]

/-- Two levels down, `undefined` leaves an empty text between commas. -/
theorem arrayText_flattened_nested :
    let heap : Heap := ⟨#[
      #[.undefined, .string "b"],
      #[.array ⟨0⟩],
      #[.string "a", .array ⟨1⟩, .boolean true],
      #[.string "a", .array ⟨0⟩, .boolean true]], #[], #[]⟩
    heap.ArraysAcyclic (.array ⟨2⟩) ∧
      (∃ text, heap.text? (.array ⟨2⟩) = some text ∧ heap.text? (.array ⟨3⟩) = some text) ∧
      heap.text? (.array ⟨2⟩) = some "a,,b,true" := by
  intro heap
  have older : heap.HoldsOlder := by decide
  have acyclic := older.arraysAcyclic (.array ⟨2⟩)
  have nonempty : ∀ inner, Relation.TransGen heap.Holds (.array ⟨2⟩) (.array inner) →
      heap.elements inner ≠ #[] := by
    intro inner found
    have nonempty : ∀ index < 2, heap.elements ⟨index⟩ ≠ #[] := by decide
    exact nonempty inner.index (older.index_lt found)
  have innermost : heap.Leaves (heap.elements ⟨0⟩).toList [.undefined, .string "b"] :=
    .leaf (by decide) (.leaf (by decide) .nil)
  have leaves : heap.Leaves (heap.elements ⟨2⟩).toList
      (.string "a" :: ([.undefined, .string "b"] ++ [] ++ [.boolean true])) :=
    .leaf (by decide) (.array (.array innermost .nil) (.leaf (by decide) .nil))
  obtain ⟨flattens, isJoin, -⟩ := arrayText_flattened heap
  refine ⟨acyclic, ?_, ?_⟩
  · exact flattens ⟨2⟩ ⟨3⟩ ⟨1⟩ #[.string "a"] #[.boolean true] acyclic rfl (by decide) rfl
  · exact (isJoin ⟨2⟩ acyclic nonempty).2 _ leaves

end Heap

end ScriptCore
