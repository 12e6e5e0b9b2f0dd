import Mathlib.Data.List.Lex
import ScriptCore.Coercion.Primitive

/-! # The order of primitives

Texts are ordered as lists of UTF-16 units. No unit of one character is taken for a unit of another,
because surrogates are not characters, so texts with the same units are the same and the order of
lists is a strict total order of texts. It is not that of code points: a character of two units
comes before the characters of one unit that are greater than the surrogates. All other pairs are
ordered as their numbers, where not-a-number is neither less nor greater than anything.
-/

namespace ScriptCore

/-! ## Units of texts -/

theorem not_surrogate (c : Char) :
    c.toNat < 0xD800 ∨ 0xDFFF < c.toNat ∧ c.toNat < 0x110000 := c.valid

theorem unitsOfChar_of_lt {c : Char} (basic : c.toNat < 0x10000) : unitsOfChar c = [c.toNat] :=
  if_pos basic

/-- A character beyond the basic plane has two surrogates, which share its offset from there. -/
theorem unitsOfChar_of_le {c : Char} (beyond : 0x10000 ≤ c.toNat) :
    ∃ high < 0x400, ∃ low < 0x400, unitsOfChar c = [0xD800 + high, 0xDC00 + low] ∧
      c.toNat = 0x10000 + 0x400 * high + low := by
  have bounds := not_surrogate c
  refine ⟨(c.toNat - 0x10000) / 0x400, by omega, (c.toNat - 0x10000) % 0x400, by omega,
    if_neg (Nat.not_lt.mpr beyond), by omega⟩

theorem unitsOfChar_ne_nil (c : Char) : unitsOfChar c ≠ [] := by
  unfold unitsOfChar
  split <;> exact List.cons_ne_nil _ _

/-- The units of a character tell where they end and which character it is. -/
theorem unitsOfChar_append_inj {c d : Char} {rest others : List Nat}
    (same : unitsOfChar c ++ rest = unitsOfChar d ++ others) : c = d ∧ rest = others := by
  have surrogates := not_surrogate c
  have surrogates' := not_surrogate d
  rw [← Char.toNat_inj]
  -- The first unit is a surrogate of a pair or a character, and no surrogate is one.
  rcases Nat.lt_or_ge c.toNat 0x10000 with basic | beyond <;>
    rcases Nat.lt_or_ge d.toNat 0x10000 with basic' | beyond'
  · rw [unitsOfChar_of_lt basic, unitsOfChar_of_lt basic'] at same
    simpa using same
  · obtain ⟨high, _, low, _, units, -⟩ := unitsOfChar_of_le beyond'
    rw [unitsOfChar_of_lt basic, units] at same
    have first : c.toNat = 0xD800 + high := (List.cons.inj same).1
    omega
  · obtain ⟨high, _, low, _, units, -⟩ := unitsOfChar_of_le beyond
    rw [units, unitsOfChar_of_lt basic'] at same
    have first : 0xD800 + high = d.toNat := (List.cons.inj same).1
    omega
  · obtain ⟨high, _, low, _, units, code⟩ := unitsOfChar_of_le beyond
    obtain ⟨high', _, low', _, units', code'⟩ := unitsOfChar_of_le beyond'
    rw [units, units'] at same
    obtain ⟨first, second, rest⟩ :
        0xD800 + high = 0xD800 + high' ∧ 0xDC00 + low = 0xDC00 + low' ∧ rest = others := by
      simpa using same
    exact ⟨by omega, rest⟩

theorem flatMap_unitsOfChar_injective : Function.Injective (List.flatMap unitsOfChar) := by
  intro text other same
  induction text generalizing other with
  | nil =>
    cases other with
    | nil => rfl
    | cons d _ => exact absurd (List.append_eq_nil_iff.mp same.symm).1 (unitsOfChar_ne_nil d)
  | cons c rest ih =>
    cases other with
    | nil => exact absurd (List.append_eq_nil_iff.mp same).1 (unitsOfChar_ne_nil c)
    | cons d others =>
      obtain ⟨rfl, following⟩ := unitsOfChar_append_inj same
      rw [ih following]

theorem units16_injective : Function.Injective units16 :=
  flatMap_unitsOfChar_injective.comp fun _ _ => String.toList_injective

/-! ## The order of texts -/

theorem unitsBefore_iff_lt (units others : List Nat) :
    unitsBefore units others ↔ units < others := by
  induction units generalizing others with
  | nil =>
    cases others with
    | nil => exact iff_of_false nofun (List.not_lt_nil [])
    | cons => exact iff_of_true rfl (List.nil_lt_cons _ _)
  | cons unit rest ih =>
    cases others with
    | nil => exact iff_of_false nofun (List.not_lt_nil _)
    | cons other others => simp [unitsBefore, List.cons_lt_cons_iff, ih]

theorem textBefore_iff_lt (a b : String) : textBefore a b ↔ units16 a < units16 b :=
  unitsBefore_iff_lt ..

/-- In the same place, a character of two units comes before the last ones of the basic plane. -/
theorem textBefore_of_beyond {a b : String} {shared rest others : List Char} {c d : Char}
    (first : a.toList = shared ++ c :: rest) (second : b.toList = shared ++ d :: others)
    (beyond : 0x10000 ≤ c.toNat) (last : 0xE000 ≤ d.toNat) (basic : d.toNat < 0x10000) :
    textBefore a b := by
  obtain ⟨high, small, low, -, units, -⟩ := unitsOfChar_of_le beyond
  have less : 0xD800 + high < d.toNat := by omega
  rw [textBefore_iff_lt, units16, units16, first, second, List.flatMap_append, List.flatMap_append,
    List.flatMap_cons, List.flatMap_cons, units, unitsOfChar_of_lt basic]
  exact List.Lex.append_left _ (.rel less) _

/-- The first list is a proper beginning of the second or smaller in the first place where they
differ. -/
def UnitsPrecede (units others : List Nat) : Prop :=
  (units <+: others ∧ units.length < others.length) ∨
    ∃ index, ∃ (_ : index < units.length) (_ : index < others.length),
      (∀ earlier (_ : earlier < index), units[earlier] = others[earlier]) ∧
        units[index] < others[index]

theorem unitsPrecede_iff_lt (units others : List Nat) :
    UnitsPrecede units others ↔ units < others := by
  rw [List.lt_iff_exists, UnitsPrecede, List.prefix_iff_eq_take]

/-! ## The order of primitives -/

theorem Double.less_asymm {a b : Double} (less : a.less b) : ¬ b.less a := by
  cases a with
  | nan => contradiction
  | signed s m =>
    cases b with
    | nan => contradiction
    | signed t k =>
      simp only [Double.less, decide_eq_true_eq] at less ⊢
      omega

namespace Primitive

theorem less_string_iff (a b : String) : (string a).less (string b) ↔ units16 a < units16 b :=
  textBefore_iff_lt a b

/-- Primitives that are not both texts are ordered by their numbers. -/
theorem less_of_mixed {x y : Primitive} (mixed : ¬ (x.kind = .string ∧ y.kind = .string)) :
    x.less y = x.toNumber.less y.toNumber := by
  cases x with
  | string s =>
    cases y with
    | string t => exact absurd ⟨rfl, rfl⟩ mixed
    | null | undefined | boolean | number => rfl
  | null | undefined | boolean | number => rfl

theorem exists_string {x : Primitive} (text : x.kind = .string) : ∃ s, x = string s := by
  cases x with
  | string s => exact ⟨s, rfl⟩
  | null | undefined | boolean | number => contradiction

theorem less_asymm {x y : Primitive} (less : x.less y) : ¬ y.less x := by
  by_cases texts : x.kind = .string ∧ y.kind = .string
  · obtain ⟨a, rfl⟩ := exists_string texts.1
    obtain ⟨b, rfl⟩ := exists_string texts.2
    rw [less_string_iff] at less ⊢
    exact lt_asymm less
  · rw [less_of_mixed texts] at less
    rw [less_of_mixed (texts ∘ And.symm)]
    exact Double.less_asymm less

/-- The order is a strict total order of texts, the one of their units, and of no two primitives is
each less than the other. -/
theorem less_orders_texts :
    (∀ a b : String,
      ((string a).less (string b) ∧ ¬ (string b).less (string a) ∧ a ≠ b) ∨
      (¬ (string a).less (string b) ∧ (string b).less (string a) ∧ a ≠ b) ∨
      (¬ (string a).less (string b) ∧ ¬ (string b).less (string a) ∧ a = b)) ∧
    (∀ a b c : String, (string a).less (string b) → (string b).less (string c) →
      (string a).less (string c)) ∧
    (∀ a b : String, (string a).less (string b) ↔ UnitsPrecede (units16 a) (units16 b)) ∧
    (∀ (a b : String) shared c d rest others,
      a.toList = shared ++ c :: rest → b.toList = shared ++ d :: others →
      0x10000 ≤ c.toNat → 0xE000 ≤ d.toNat → d.toNat < 0x10000 →
        (string a).less (string b)) ∧
    ∀ x y : Primitive, ¬ (x.less y ∧ y.less x) := by
  refine ⟨fun a b => ?_, fun a b c => ?_, fun a b => ?_, ?_, fun x y both => ?_⟩
  · rw [less_string_iff, less_string_iff]
    rcases lt_trichotomy (units16 a) (units16 b) with before | same | after
    · exact .inl ⟨before, lt_asymm before, fun same => before.ne (congrArg units16 same)⟩
    · exact .inr (.inr ⟨same.not_lt, same.not_gt, units16_injective same⟩)
    · exact .inr (.inl ⟨lt_asymm after, after, fun same => after.ne' (congrArg units16 same)⟩)
  · rw [less_string_iff, less_string_iff, less_string_iff]
    exact lt_trans
  · rw [less_string_iff, unitsPrecede_iff_lt]
  · intro a b shared c d rest others first second beyond last basic
    exact textBefore_of_beyond first second beyond last basic
  · exact less_asymm both.1 both.2

theorem less_orders_texts_beyond :
    (string "x").less (string "x😀") ∧ (string "x😀").less (string "x\uFFFF") ∧
      (string "x").less (string "x\uFFFF") ∧ '\uFFFF' < '😀' := by
  obtain ⟨-, transitive, units, beyond, -⟩ := less_orders_texts
  have shorter : (string "x").less (string "x😀") := by
    refine (units _ _).mpr (.inl ?_)
    decide +kernel
  have smaller : (string "x😀").less (string "x\uFFFF") := by
    apply beyond "x😀" "x\uFFFF" ['x'] '😀' '\uFFFF' [] [] <;> decide +kernel
  exact ⟨shorter, smaller, transitive _ _ _ shorter smaller, by decide⟩

end Primitive

end ScriptCore
