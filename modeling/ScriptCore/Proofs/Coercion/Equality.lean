import Mathlib.Tactic.Common
import ScriptCore.Coercion.Basic
import ScriptCore.Record.Hooked

/-! # Strict and loose equality

Strict equality holds between values of one kind only and, not-a-number apart, is an equivalence.
Loose equality of primitives is decided by three laws: nullish primitives equal each other and
nothing else, texts equal as texts, and all other pairs equal as their numbers do. None of the laws
asks which operand was converted, so loose equality is symmetric, and it does not matter to it
whether a boolean was brought to a number before. Hence the comparison that converts both operands
first agrees with the one that converts references alone.
-/

namespace ScriptCore

namespace Double

theorem equals_comm (a b : Double) : a.equals b = b.equals a := by
  cases a <;> cases b <;> simp only [equals, Bool.beq_comm]

theorem equals_trans {a b c : Double} (left : a.equals b) (right : b.equals c) : a.equals c := by
  cases b with
  | nan => cases c <;> contradiction
  | signed =>
    cases a with
    | nan => contradiction
    | signed =>
      cases c with
      | nan => contradiction
      | signed =>
        simp only [equals, beq_iff_eq] at *
        exact left.trans right

theorem equals_self_iff (n : Double) : n.equals n ↔ n ≠ nan := by
  cases n <;> simp [equals]

end Double

/-! ## Primitives -/

namespace Primitive

variable {a b c : Primitive}

theorem strictEquals_comm (a b : Primitive) : a.strictEquals b = b.strictEquals a := by
  cases a <;> cases b <;> simp only [strictEquals, Double.equals_comm, Bool.beq_comm]

theorem strictEquals_trans (left : a.strictEquals b) (right : b.strictEquals c) :
    a.strictEquals c := by
  cases a <;> cases b <;> cases c <;> simp_all [strictEquals]
  exact Double.equals_trans left right

theorem strictEquals_self_iff (a : Primitive) : a.strictEquals a ↔ a ≠ number .nan := by
  cases a <;> simp [strictEquals, Double.equals_self_iff]

theorem kind_eq_of_strictEquals (equal : a.strictEquals b) : a.kind = b.kind := by
  cases a <;> cases b <;> simp_all [strictEquals, kind]

/-- A nullish primitive loosely equals the nullish ones. -/
theorem looseEquals_of_nullish (nullish : a.isNullish) (b : Primitive) :
    a.looseEquals b = b.isNullish := by
  cases a with
  | null | undefined => rfl
  | boolean | number | string => contradiction

theorem looseEquals_nullish (a : Primitive) (nullish : b.isNullish) :
    a.looseEquals b = a.isNullish := by
  cases b with
  | null | undefined => cases a <;> rfl
  | boolean | number | string => contradiction

/-- Primitives that are not nullish and not both texts are compared by their numbers. -/
theorem looseEquals_eq_equals (left : a.isNullish = false) (right : b.isNullish = false)
    (mixed : ¬ (a.kind = .string ∧ b.kind = .string)) :
    a.looseEquals b = a.toNumber.equals b.toNumber := by
  cases a with
  | null | undefined => contradiction
  | boolean s =>
    cases b with
    | null | undefined => contradiction
    | boolean t => cases s <;> cases t <;> decide +kernel
    | number | string => rfl
  | number n =>
    cases b with
    | null | undefined => contradiction
    | boolean | number | string => rfl
  | string s =>
    cases b with
    | null | undefined => contradiction
    | boolean t => exact Double.equals_comm ..
    | number n => exact Double.equals_comm ..
    | string => exact absurd ⟨rfl, rfl⟩ mixed

theorem looseEquals_comm (a b : Primitive) : a.looseEquals b = b.looseEquals a := by
  cases left : a.isNullish with
  | true => rw [looseEquals_of_nullish left, looseEquals_nullish b left]
  | false =>
    cases right : b.isNullish with
    | true => rw [looseEquals_of_nullish right, looseEquals_nullish a right]
    | false =>
      by_cases texts : a.kind = .string ∧ b.kind = .string
      · cases a <;> cases b <;> simp_all [kind, looseEquals, Bool.beq_comm]
      · rw [looseEquals_eq_equals left right texts,
          looseEquals_eq_equals right left (texts ∘ And.symm), Double.equals_comm]

/-- Only a text is told apart from its number. -/
theorem looseEquals_toNumber (payload : a.isNullish = false) (noText : a.kind ≠ .string)
    (b : Primitive) : (number a.toNumber).looseEquals b = a.looseEquals b := by
  cases nullish : b.isNullish with
  | true => rw [looseEquals_nullish _ nullish, looseEquals_nullish a nullish, payload]; rfl
  | false =>
    have number : (number a.toNumber).looseEquals b = a.toNumber.equals b.toNumber :=
      looseEquals_eq_equals rfl nullish (by simp [kind])
    rw [number, looseEquals_eq_equals payload nullish fun texts => noText texts.1]

theorem looseEquals_of_kind_eq (same : a.kind = b.kind) : a.looseEquals b = a.strictEquals b := by
  cases a <;> cases b <;> simp_all [kind] <;> rfl

end Primitive

/-! ## Values -/

namespace Value

variable {x y z : Value}

/-- Whether the value is an object of the heap. -/
def isReference : Value → Bool
  | primitive _ => false
  | array _ | record _ | function _ => true

theorem strictEquals_comm (x y : Value) : x.strictEquals y = y.strictEquals x := by
  cases x <;> cases y <;> simp only [strictEquals, Primitive.strictEquals_comm, Bool.beq_comm]

theorem strictEquals_trans (left : x.strictEquals y) (right : y.strictEquals z) :
    x.strictEquals z := by
  cases x <;> cases y <;> cases z <;> simp_all [strictEquals]
  exact Primitive.strictEquals_trans left right

theorem strictEquals_self_iff (x : Value) : x.strictEquals x ↔ x ≠ .number .nan := by
  cases x <;> simp [strictEquals, Primitive.strictEquals_self_iff]

theorem kind_eq_of_strictEquals (equal : x.strictEquals y) : x.kind = y.kind := by
  cases x <;> cases y <;> simp_all [strictEquals, kind]
  exact Primitive.kind_eq_of_strictEquals equal

end Value

namespace Heap

variable {heap : Heap} {x y : Value} {a : Primitive}

theorem looseEquals_of_nullish (nullish : x.isNullish) (y : Value) :
    heap.looseEquals x y = y.isNullish := by
  simp [looseEquals, nullish]

theorem looseEquals_nullish (x : Value) (nullish : y.isNullish) :
    heap.looseEquals x y = x.isNullish := by
  simp [looseEquals, nullish]

theorem looseEquals_comm (x y : Value) : heap.looseEquals x y = heap.looseEquals y x := by
  unfold looseEquals
  rw [Bool.or_comm, Bool.and_comm]
  split
  · rfl
  · cases x.payload? <;> cases y.payload? <;>
      simp only [Primitive.looseEquals_comm, Value.strictEquals_comm]

theorem looseEquals_primitive (a b : Primitive) :
    heap.looseEquals (.primitive a) (.primitive b) = a.looseEquals b := by
  cases a <;> cases b <;> rfl

theorem looseEquals_of_kind_eq (same : x.kind = y.kind) :
    heap.looseEquals x y = x.strictEquals y := by
  cases x with
  | primitive a =>
    cases y with
    | primitive b => exact (looseEquals_primitive a b).trans (Primitive.looseEquals_of_kind_eq same)
    | array | record | function => cases a <;> contradiction
  | array | record | function =>
    cases y with
    | primitive b => cases b <;> contradiction
    | array | record | function => rfl

/-! ## Conversion before comparison -/

/-- The value has a conversion of its own, to null or undefined. Only hooks of a record give one. -/
def AnswersNullish (heap : Heap) (v : Value) : Prop :=
  ∃ p, heap.default? v = some p ∧ p.isNullish

theorem toPrimitive_default (payload : x.isNullish = false) :
    heap.toPrimitive x .default = (heap.default? x).getD (heap.toNumberPrimitive x) := by
  cases x with
  | primitive a =>
    cases a with
    | null | undefined => contradiction
    | boolean | number | string => rfl
  | array | function => rfl
  | record ref =>
    cases answer : heap.default? (.record ref) <;> simp only [toPrimitive, answer] <;> rfl

theorem toPrimitive_isNullish_iff :
    (heap.toPrimitive x .default).isNullish ↔ x.isNullish ∨ heap.AnswersNullish x := by
  cases payload : x.isNullish with
  | true =>
    refine iff_of_true ?_ (.inl rfl)
    cases x with
    | primitive a =>
      cases a with
      | null | undefined => rfl
      | boolean | number | string => contradiction
    | array | record | function => contradiction
  | false =>
    rw [toPrimitive_default payload]
    unfold AnswersNullish
    cases heap.default? x with
    | none => simp [toNumberPrimitive, Primitive.isNullish, Primitive.kind, Kind.isNullish]
    | some p => simp

/-- A payload compares as what it converts to: a boolean as its number, the others as themselves. -/
theorem looseEquals_toPrimitive (payload : a.isNullish = false) (b : Primitive) :
    (heap.toPrimitive (.primitive a) .default).looseEquals b = a.looseEquals b := by
  by_cases text : a.kind = .string
  · cases a with
    | string s => rfl
    | null | undefined | boolean | number => contradiction
  · have silent : heap.default? (.primitive a) = none := by
      cases a with
      | string s => contradiction
      | null | undefined | boolean | number => rfl
    have converted : heap.number? (.primitive a) = some a.toNumber := by
      simp [number?, outline, outlineWithin, Outline.number?, payload]
    have direct : heap.toPrimitive (.primitive a) .default = .number a.toNumber := by
      rw [toPrimitive_default (by exact payload), silent, Option.getD_none, toNumberPrimitive,
        converted, Option.getD_some]
    rw [direct, Primitive.looseEquals_toNumber payload text]

theorem looseEquals_of_reference (payload : a.isNullish = false) (reference : y.isReference) :
    heap.looseEquals (.primitive a) y = a.looseEquals (heap.toPrimitive y .default) := by
  have own : (Value.primitive a).payload? = some a := by simp [Value.payload?, payload]
  have nullish : (Value.primitive a).isNullish = false := payload
  obtain ⟨notNullish, foreign⟩ : y.isNullish = false ∧ y.payload? = none := by
    cases y with
    | primitive => contradiction
    | array | record | function => exact ⟨rfl, rfl⟩
  rw [looseEquals, nullish, notNullish, own, foreign, Bool.or_self, if_neg Bool.false_ne_true]

/-- Converting both operands first makes no difference where at most one is a reference and no
nullish operand meets a record that converts to a nullish primitive. -/
theorem looseEquals_converted (apart : ¬ (x.isReference ∧ y.isReference))
    (left : x.isNullish → ¬ heap.AnswersNullish y) (right : y.isNullish → ¬ heap.AnswersNullish x) :
    (heap.toPrimitive x .default).looseEquals (heap.toPrimitive y .default) =
      heap.looseEquals x y := by
  by_cases first : x.isNullish
  · rw [Primitive.looseEquals_of_nullish (toPrimitive_isNullish_iff.mpr (.inl first)),
      looseEquals_of_nullish first, Bool.eq_iff_iff, toPrimitive_isNullish_iff,
      or_iff_left (left first)]
  by_cases second : y.isNullish
  · rw [Primitive.looseEquals_nullish _ (toPrimitive_isNullish_iff.mpr (.inl second)),
      looseEquals_nullish x second, Bool.eq_iff_iff, toPrimitive_isNullish_iff,
      or_iff_left (right second)]
  rw [Bool.not_eq_true] at first second
  cases x with
  | primitive a =>
    rw [looseEquals_toPrimitive first]
    cases y with
    | primitive b =>
      rw [Primitive.looseEquals_comm, looseEquals_toPrimitive second, Primitive.looseEquals_comm,
        looseEquals_primitive]
    | array | record | function => exact (looseEquals_of_reference first rfl).symm
  | array | record | function =>
    cases y with
    | primitive b =>
      rw [Primitive.looseEquals_comm, looseEquals_toPrimitive second, looseEquals_comm]
      exact (looseEquals_of_reference second rfl).symm
    | array | record | function => exact absurd ⟨rfl, rfl⟩ apart

/-! ## The laws -/

/-- Strict equality is symmetric, transitive and, but for not-a-number, reflexive; loose equality is
symmetric, holds where strict equality does, says the same on values of one kind, and relates a
nullish value to the nullish ones, whatever the hooks of a record convert it to. -/
theorem equality_laws (heap : Heap) :
    (∀ x y : Value, x.strictEquals y = y.strictEquals x) ∧
    (∀ x y z : Value, x.strictEquals y → y.strictEquals z → x.strictEquals z) ∧
    (∀ x : Value, x.strictEquals x ↔ x ≠ .number .nan) ∧
    (∀ x y, heap.looseEquals x y = heap.looseEquals y x) ∧
    (∀ x y, x.strictEquals y → heap.looseEquals x y) ∧
    (∀ x y, x.kind = y.kind → heap.looseEquals x y = x.strictEquals y) ∧
    (∀ x y, x.isNullish →
      heap.looseEquals x y = y.isNullish ∧ heap.looseEquals y x = y.isNullish) := by
  refine ⟨Value.strictEquals_comm, fun _ _ _ => Value.strictEquals_trans,
    Value.strictEquals_self_iff, looseEquals_comm, ?_, fun _ _ => looseEquals_of_kind_eq, ?_⟩
  · intro x y equal
    rw [looseEquals_of_kind_eq (Value.kind_eq_of_strictEquals equal)]
    exact equal
  · intro x y nullish
    exact ⟨looseEquals_of_nullish nullish y, looseEquals_nullish y nullish⟩

/-- Two records with hooks, of which the first converts to null and the second to a boolean. -/
def converting : Heap where
  arrays := #[]
  records :=
    #[⟨.empty, some (HookTable.hooks ⟨[], false, true, none, [], none⟩ [.null])⟩,
      ⟨.empty, some (HookTable.hooks ⟨[], false, true, none, [], none⟩ [.boolean true])⟩]
  functions := #[]

theorem equality_laws_converting :
    let zero := Value.number .zero
    let negative := Value.number .negativeZero
    zero.strictEquals negative ∧ zero.strictEquals zero ∧ converting.looseEquals zero negative ∧
      converting.default? (.record ⟨0⟩) = some .null ∧
      converting.looseEquals .undefined (.record ⟨0⟩) = false := by
  intro zero negative
  obtain ⟨symmetric, transitive, -, -, weaker, -, nullish⟩ := equality_laws converting
  have equal : zero.strictEquals negative := by decide
  have back : negative.strictEquals zero := (symmetric negative zero).trans equal
  exact ⟨equal, transitive _ _ _ equal back, weaker _ _ equal, rfl, (nullish _ _ rfl).1⟩

/-- The comparison that converts both operands without a preferred form is loose equality, unless
two references meet, or a nullish operand and a record that converts to a nullish primitive. -/
theorem compare_looseEquals (heap : Heap) (x y : Value)
    (apart : ¬ (x.isReference ∧ y.isReference))
    (left : x.isNullish → ¬ heap.AnswersNullish y)
    (right : y.isNullish → ¬ heap.AnswersNullish x) :
    heap.compare .looseEquals .default x y = .boolean (heap.looseEquals x y) :=
  congrArg Primitive.boolean (looseEquals_converted apart left right)

theorem compare_looseEquals_converting :
    let record := Value.record ⟨1⟩
    ¬ converting.AnswersNullish record ∧
      converting.compare .looseEquals .default .null record = .boolean false ∧
      converting.compare .looseEquals .default record (.boolean true) = .boolean true := by
  intro record
  have settled : ¬ converting.AnswersNullish record := by
    rintro ⟨p, answers, nullish⟩
    cases answers
    contradiction
  refine ⟨settled, ?_, ?_⟩
  · exact compare_looseEquals converting .null record (by decide) (fun _ => settled) nofun
  · exact compare_looseEquals converting record (.boolean true) (by decide) nofun nofun

/-- A nullish operand and a record that converts to a nullish primitive are equal to the comparison
that converts both, and to no other. -/
theorem compare_looseEquals_of_answersNullish {x y : Value} (nullish : x.isNullish)
    (answers : heap.AnswersNullish y) :
    heap.compare .looseEquals .default x y = .boolean true ∧ heap.looseEquals x y = false := by
  constructor
  · have equal : (heap.toPrimitive x .default).looseEquals (heap.toPrimitive y .default) := by
      rw [Primitive.looseEquals_of_nullish (toPrimitive_isNullish_iff.mpr (.inl nullish))]
      exact toPrimitive_isNullish_iff.mpr (.inr answers)
    exact congrArg Primitive.boolean equal
  · rw [looseEquals_of_nullish nullish]
    obtain ⟨p, converts, -⟩ := answers
    cases y with
    | primitive b =>
      cases b with
      | null | undefined => contradiction
      | boolean | number | string => rfl
    | array | record | function => rfl

end Heap

end ScriptCore
