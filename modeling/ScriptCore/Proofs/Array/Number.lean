import ScriptCore.Proofs.Array.Nesting
import ScriptCore.Proofs.Number.Acceptance

/-! # The number of an array

An array is read back from the texts of the numbers of its elements between commas. No form of a
number has a comma, so an array of two elements or more is not a number. A single element comes
back as the number it is, because numbers read back from their texts, but for the sign of zero. An
array around it then changes nothing more, however many there are.
-/

namespace ScriptCore

/-! ## Texts with a comma -/

theorem SignMark.comma_notMem (sign : SignMark) : ',' ∉ sign.chars := by
  cases sign <;> decide

/-- No form of a number has a comma. -/
theorem NumberForm.comma_notMem (form : NumberForm) : ',' ∉ form.chars := by
  intro comma
  cases form with
  | infinity sign =>
    rw [chars, List.mem_append] at comma
    rcases comma with inSign | inWord
    · exact sign.comma_notMem inSign
    · exact absurd inWord (by decide)
  | prefixed mark capital digits _ valid =>
    simp only [chars, List.mem_cons] at comma
    rcases comma with isZero | isLetter | isDigit
    · exact absurd isZero (by decide)
    · cases mark <;> cases capital <;> exact absurd isLetter (by decide)
    · have inAlphabet := valid isDigit
      cases mark <;> exact absurd inAlphabet (by decide)
  | decimal form => exact absurd (form.chars_subset comma) (by decide)

namespace Double

theorem ofText_of_comma {text : String} (comma : ',' ∈ text.toList) : ofText text = nan := by
  obtain ⟨⟨before, after, split, blank⟩, -, -⟩ := isTrimmed_trimBlanks text.toList
  have inside : ',' ∈ trimBlanks text.toList := by
    rw [split, List.mem_append, List.mem_append] at comma
    rcases comma with (isBefore | inside) | isAfter
    · exact absurd (blank _ (List.mem_append_left _ isBefore)) (by decide)
    · exact inside
    · exact absurd (blank _ (List.mem_append_right _ isAfter)) (by decide)
  by_contra reads
  obtain ⟨form, isForm⟩ :=
    exists_form_of_readTrimmedBy (parseBy?_hasSyntax _) (List.ne_nil_of_mem inside) reads
  apply form.comma_notMem
  rw [isForm]
  exact inside

/-- Zero for negative zero, and every other number as it is. -/
def withoutNegativeZero (n : Double) : Double := if n = negativeZero then zero else n

theorem withoutNegativeZero_idem (n : Double) :
    n.withoutNegativeZero.withoutNegativeZero = n.withoutNegativeZero := by
  unfold withoutNegativeZero
  split_ifs with isNegativeZero isZero
  · contradiction
  · rfl
  · rfl

theorem ofText_text_eq (n : Double) : ofText n.text = n.withoutNegativeZero := by
  unfold withoutNegativeZero
  split_ifs with isNegativeZero
  · rw [isNegativeZero]
    decide
  · exact ofText_text_of_ne isNegativeZero

end Double

/-! ## The number of an array by its elements -/

theorem Outline.numberTexts_eq (items : List Outline) :
    numberTexts items = items.map fun item => ((number? item).map Double.text).getD "" := by
  induction items with
  | nil => rfl
  | cons item rest ih => rw [numberTexts, ih, List.map_cons]

namespace Heap

/-- What an array has for an element when it is read as a number. -/
def itemNumberText (heap : Heap) (v : Value) : String := ((heap.number? v).map Double.text).getD ""

/-- The first value is an array of the second one alone. -/
inductive Wraps (heap : Heap) : Value → Value → Prop
  | single {ref v} (single : heap.elements ref = #[v]) : Wraps heap (.array ref) v

variable {heap : Heap} {v w : Value} {ref : ArrayRef}

theorem Wraps.holds (wraps : heap.Wraps v w) : heap.Holds v w := by
  obtain ⟨single⟩ := wraps
  exact .element (by simp [single])

theorem number?_of_isNullish (nullish : v.isNullish = true) : heap.number? v = none := by
  cases v with
  | primitive p => exact if_pos nullish
  | array | record | function => contradiction

namespace ArraysAcyclic

theorem of_nest (acyclic : heap.ArraysAcyclic v) (nest : Relation.TransGen heap.Wraps v w) :
    heap.ArraysAcyclic w := by
  induction nest with
  | single wraps => exact acyclic.of_holds wraps.holds
  | tail _ wraps ih => exact ih.of_holds wraps.holds

theorem number?_array (acyclic : heap.ArraysAcyclic (.array ref)) :
    heap.number? (.array ref) =
      some (.ofText (",".intercalate ((heap.elements ref).toList.map heap.itemNumberText))) := by
  rw [number?, acyclic.outline_array, Outline.number?, Outline.numberTexts_eq, List.map_map]
  rfl

/-- All other values than null and undefined have a number. -/
theorem exists_number? (acyclic : heap.ArraysAcyclic v) (other : v.isNullish = false) :
    ∃ n, heap.number? v = some n := by
  cases v with
  | primitive p => exact ⟨_, if_neg (Bool.eq_false_iff.mp other)⟩
  | array => exact ⟨_, acyclic.number?_array⟩
  | record | function => exact ⟨_, rfl⟩

theorem number?_of_empty (acyclic : heap.ArraysAcyclic (.array ref))
    (empty : heap.elements ref = #[]) : heap.number? (.array ref) = some .zero := by
  rw [acyclic.number?_array, empty]
  exact congrArg some (by decide : Double.ofText "" = .zero)

theorem number?_of_several (acyclic : heap.ArraysAcyclic (.array ref))
    (several : 2 ≤ (heap.elements ref).size) : heap.number? (.array ref) = some .nan := by
  rw [acyclic.number?_array]
  rw [← Array.length_toList] at several
  match (heap.elements ref).toList, several with
  | first :: second :: rest, _ =>
    rw [List.map_cons, List.map_cons, String.intercalate_cons_cons, Double.ofText_of_comma]
    simp

/-- The number of a single element, and zero if it has none. -/
theorem number?_of_wraps (acyclic : heap.ArraysAcyclic v) (wraps : heap.Wraps v w) :
    heap.number? v = some ((heap.number? w).getD .zero).withoutNegativeZero := by
  obtain ⟨single⟩ := wraps
  rw [acyclic.number?_array, single, List.map_singleton, String.intercalate_singleton,
    itemNumberText]
  cases heap.number? w with
  | none => exact congrArg some (by decide : Double.ofText "" = .zero)
  | some n => exact congrArg some n.ofText_text_eq

/-- Around one element, any number of arrays comes to the same as one of them. -/
theorem number?_of_nest (acyclic : heap.ArraysAcyclic v)
    (nest : Relation.TransGen heap.Wraps v w) :
    heap.number? v = some ((heap.number? w).getD .zero).withoutNegativeZero := by
  induction nest using Relation.TransGen.head_induction_on with
  | single wraps => exact acyclic.number?_of_wraps wraps
  | head wraps _ ih =>
    rw [acyclic.number?_of_wraps wraps, ih (acyclic.of_holds wraps.holds), Option.getD_some,
      Double.withoutNegativeZero_idem]

end ArraysAcyclic

/-- An empty array is zero and an array of two elements or more is not a number. A single element,
in any number of arrays around it, is what the array is as a number, but zero if it is negative
zero, null or undefined. -/
theorem arrayNumber_degenerate (acyclic : heap.ArraysAcyclic (.array ref)) :
    (heap.elements ref = #[] → heap.number? (.array ref) = some .zero) ∧
      (∀ v, Relation.TransGen heap.Wraps (.array ref) v →
        (v.isNullish = true → heap.number? (.array ref) = some .zero) ∧
        (v.isNullish = false → ∃ n, heap.number? v = some n ∧
          heap.number? (.array ref) = some n.withoutNegativeZero)) ∧
      (2 ≤ (heap.elements ref).size → heap.number? (.array ref) = some .nan) := by
  refine ⟨acyclic.number?_of_empty, fun v nest => ?_, acyclic.number?_of_several⟩
  have isNumber := acyclic.number?_of_nest nest
  constructor
  · intro nullish
    rw [number?_of_isNullish nullish] at isNumber
    exact isNumber
  · intro other
    obtain ⟨n, own⟩ := (acyclic.of_nest nest).exists_number? other
    rw [own] at isNumber
    exact ⟨n, own, isNumber⟩

/-- Inside two arrays negative zero is zero. With an empty array beside it, it is not a number. -/
theorem arrayNumber_degenerate_nested :
    let heap : Heap := ⟨#[
      #[],
      #[.number .negativeZero],
      #[.array ⟨1⟩],
      #[.array ⟨0⟩, .array ⟨2⟩]], #[], #[]⟩
    heap.HoldsOlder ∧ heap.number? (.array ⟨0⟩) = some .zero ∧
      heap.number? (.array ⟨2⟩) = some .zero ∧ heap.number? (.array ⟨3⟩) = some .nan := by
  intro heap
  have older : heap.HoldsOlder := by decide
  have nest : Relation.TransGen heap.Wraps (.array ⟨2⟩) (.number .negativeZero) :=
    .head (.single rfl) (.single (.single rfl))
  refine ⟨older, ?_, ?_, ?_⟩
  · exact (arrayNumber_degenerate (older.arraysAcyclic _)).1 rfl
  · obtain ⟨-, single, -⟩ := arrayNumber_degenerate (older.arraysAcyclic (.array ⟨2⟩))
    obtain ⟨n, own, isNumber⟩ := (single _ nest).2 (by decide)
    obtain rfl : Double.negativeZero = n := Option.some.inj own
    exact isNumber
  · exact (arrayNumber_degenerate (older.arraysAcyclic _)).2.2 (by decide)

end Heap

end ScriptCore
