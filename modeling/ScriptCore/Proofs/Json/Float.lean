import ScriptCore.Proofs.Json.Text

/-! # Doubles read back

The text of a double shows a fraction or an exponent, so it is read as no integer. Its value is
attracted by the double, so the double nearest to it is the one that was written.
-/

namespace ScriptCore

namespace Layout

variable (layout : Layout) (negative : Bool) {digits : List Nat}

/-- A layout with zero fractions marks what is not an integer as such. -/
theorem numeral_marked (zeroFraction : layout.zeroFraction = true) (nonempty : digits ≠ [])
    (point : Int) : (layout.numeral negative digits point).fraction ≠ [] ∨
      (layout.numeral negative digits point).exponent ≠ none := by
  unfold numeral
  split_ifs
  · exact .inl (List.cons_ne_nil _ _)
  · refine .inl fun all => ?_
    have reached := List.drop_eq_nil_iff.mp all
    omega
  · exact .inl (List.append_ne_nil_of_right_ne_nil _ nonempty)
  · exact .inr (Option.some_ne_none _)

end Layout

namespace Json

variable {m : Magnitude} {x : Double}

theorem written_marked (negative : Bool) (m : Magnitude) :
    (layout.written negative m).fraction ≠ [] ∨ (layout.written negative m).exponent ≠ none :=
  layout.numeral_marked negative rfl (digitsOf_ne_nil (by decide) _) _

theorem written_toDouble (negative : Bool) (nonzero : 0 < m.rank)
    (finite : m.rank < Magnitude.infinityRank) :
    (layout.written negative m).toDouble = .signed negative m := by
  have strict := layout.written_isStrict negative nonzero finite
  have attracted := layout.written_attracts negative nonzero
  have each := List.forall_mem_append.mpr ⟨strict.whole, strict.fraction⟩
  rw [Numeral.toDouble, layout.written_negative]
  exact attracted.ofDecimal_eq nonzero finite each negative

theorem floatText_signed (negative : Bool) (nonzero : 0 < m.rank)
    (finite : m.rank < Magnitude.infinityRank) :
    floatText (.signed negative m) = (layout.written negative m).render 10 true := by
  rw [floatText, Double.isInfinite_eq_false finite, Magnitude.isZero,
    beq_eq_false_iff_ne.mpr nonzero.ne']
  rfl

theorem floatText_of_not_isFinite (infinite : x.isFinite = false) : floatText x = "null" := by
  cases x with
  | nan => rfl
  | signed negative m =>
    rw [Double.isFinite, Bool.not_eq_false'] at infinite
    exact if_pos infinite

/-- A finite double is written as a numeral of which it is the nearest double, and which is marked
as no integer. -/
theorem exists_floatText (finite : x.isFinite = true) :
    ∃ numeral : Numeral, numeral.IsStrict ∧ floatText x = numeral.render 10 true ∧
      (numeral.fraction ≠ [] ∨ numeral.exponent ≠ none) ∧ numeral.toDouble = x := by
  cases x with
  | nan => cases finite
  | signed negative m =>
    rcases m.zero_or_infinity_or_between with rfl | rfl | ⟨nonzero, finite⟩
    · have digit : ∀ digit ∈ [0], digit < 10 := by decide
      refine ⟨⟨negative, [0], [0], none⟩, ?_, ?_, .inl (List.cons_ne_nil _ _), rfl⟩
      · exact ⟨⟨digit, digit, List.cons_ne_nil _ _, nofun⟩, fun _ => rfl⟩
      · cases negative <;> rfl
    · cases finite
    · exact ⟨_, layout.written_isStrict negative nonzero finite,
        floatText_signed negative nonzero finite, written_marked negative m,
        written_toDouble negative nonzero finite⟩

/-- The reader of the documentation takes a double back from its text. -/
theorem readWritten?_floatText (finite : x.isFinite = true) :
    readWritten? nearestDouble? (floatText x) = some (.float x) := by
  obtain ⟨numeral, strict, isText, marked, isNearest⟩ := exists_floatText finite
  rw [isText, readWritten?_numeral strict, numberOf?, integerOf?_marked marked]
  simp only [nearestDouble?, isNearest, if_pos finite, Option.map_some]

end Json

end ScriptCore
