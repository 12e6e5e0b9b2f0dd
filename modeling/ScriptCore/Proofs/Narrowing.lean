import ScriptCore.Proofs.Member.Access

/-! # The order of attempts

A narrowing keeps its source, records every attempt and holds on to the first payload that one
finds. A value has a payload for its own kind and for no other, so it does not matter to what is
found where among the attempts the kind of the value stands, or how often. What a failure lists are
the attempts as they were made.
-/

namespace ScriptCore

namespace Narrowing

variable {α : Type}

/-- A run of attempts records them all and finds what the first of them to find anything does. -/
theorem attemptAll_eq (narrowing : Narrowing α) (extract : Kind → Value → Option α)
    (kinds : List Kind) :
    narrowing.attemptAll extract kinds =
      ⟨narrowing.source, narrowing.attempted ++ kinds,
        narrowing.found.or (kinds.findSome? (extract · narrowing.source))⟩ := by
  induction kinds generalizing narrowing with
  | nil => simp [attemptAll]
  | cons kind rest ih =>
    have step : narrowing.attemptAll extract (kind :: rest) =
        (narrowing.attempt kind (extract kind)).attemptAll extract rest := rfl
    rw [step, ih, attempt, List.append_assoc, List.singleton_append, List.findSome?_cons]
    cases narrowing.found <;> cases extract kind narrowing.source <;> rfl

end Narrowing

namespace Value

/-- A value has one payload, which is found under its own kind alone. -/
theorem exists_cast (v : Value) : ∃ cast : Cast, cast.kind = v.kind ∧ cast.value = v ∧
    ∀ kind, cast? kind v = if v.kind = kind then some cast else none := by
  cases v with
  | primitive p =>
    cases p with
    | null => exact ⟨.null, rfl, rfl, fun kind => by cases kind <;> rfl⟩
    | undefined => exact ⟨.undefined, rfl, rfl, fun kind => by cases kind <;> rfl⟩
    | boolean b => exact ⟨.boolean b, rfl, rfl, fun kind => by cases kind <;> rfl⟩
    | number n => exact ⟨.number n, rfl, rfl, fun kind => by cases kind <;> rfl⟩
    | string s => exact ⟨.string s, rfl, rfl, fun kind => by cases kind <;> rfl⟩
  | array ref => exact ⟨.array ref, rfl, rfl, fun kind => by cases kind <;> rfl⟩
  | record ref => exact ⟨.record ref, rfl, rfl, fun kind => by cases kind <;> rfl⟩
  | function ref => exact ⟨.function ref, rfl, rfl, fun kind => by cases kind <;> rfl⟩

theorem findSome?_cast? {v : Value} {cast : Cast}
    (own : ∀ kind, cast? kind v = if v.kind = kind then some cast else none) (kinds : List Kind) :
    kinds.findSome? (cast? · v) = if v.kind ∈ kinds then some cast else none := by
  induction kinds with
  | nil => rfl
  | cons kind rest ih =>
    rw [List.findSome?_cons, own, ih]
    by_cases same : v.kind = kind <;> simp [same]

theorem narrow_eq (v : Value) : ∃ cast : Cast, cast.kind = v.kind ∧ cast.value = v ∧
    ∀ kinds range, v.narrow kinds range =
      if v.kind ∈ kinds then .ok cast else .error ⟨.unexpectedKind kinds v.kind, range⟩ := by
  obtain ⟨cast, sameKind, sameValue, own⟩ := v.exists_cast
  refine ⟨cast, sameKind, sameValue, fun kinds range => ?_⟩
  rw [narrow, Narrowing.attemptAll_eq, Narrowing.start, findSome?_cast? own]
  by_cases attempted : v.kind ∈ kinds
  · rw [if_pos attempted, if_pos attempted]
    rfl
  · rw [if_neg attempted, if_neg attempted]
    rfl

/-- Whichever kinds are attempted, in whatever order: if the kind of the value is among them, its
payload is found, the same for all of them, and if not, the error lists them as they were attempted.
Keys are found exactly in the values that name members. -/
theorem narrowing_ignores_order (v : Value) :
    (∃ cast : Cast, cast.kind = v.kind ∧ cast.value = v ∧
      ∀ kinds range, v.narrow kinds range =
        if v.kind ∈ kinds then .ok cast else .error ⟨.unexpectedKind kinds v.kind, range⟩) ∧
    (∀ kinds, (Cause.unexpectedKind kinds v.kind).errorClass = .type ∧
      (Cause.unexpectedKind kinds v.kind).message =
        "Expected type: [" ++ ", ".intercalate (kinds.map Kind.label) ++
          "], Actual type: " ++ v.kind.name) ∧
    (∀ kinds others range place, (∀ kind, kind ∈ kinds ↔ kind ∈ others) →
      (v.narrow kinds range).toOption = (v.narrow others place).toOption) ∧
    ∀ range key, v.narrowKey range = .ok key ↔ v.propertyKey? = some key := by
  refine ⟨v.narrow_eq, fun kinds => ⟨rfl, rfl⟩, ?_, ?_⟩
  · intro kinds others range place same
    obtain ⟨cast, -, -, narrows⟩ := v.narrow_eq
    rw [narrows, narrows]
    by_cases attempted : v.kind ∈ kinds
    · rw [if_pos attempted, if_pos ((same v.kind).mp attempted)]
    · rw [if_neg attempted, if_neg (mt (same v.kind).mpr attempted)]
      rfl
  · intro range key
    rw [narrowKey_eq]
    cases v.propertyKey? with
    | none => exact iff_of_false nofun nofun
    | some found => rw [Except.ok.injEq, Option.some.injEq]

theorem narrowing_ignores_order_repeated :
    let kinds := [Kind.string, .record, .string, .array, .record]
    let others := [Kind.array, .string, .record]
    (∀ kind, kind ∈ kinds ↔ kind ∈ others) ∧
      (narrow (.record ⟨3⟩) kinds none).toOption = (narrow (.record ⟨3⟩) others none).toOption ∧
      (narrow (.record ⟨3⟩) kinds none).toOption = some (.record ⟨3⟩) ∧
      (narrow .null kinds none).toOption = (narrow .null others none).toOption ∧
      (narrow .null kinds none).toOption = none := by
  intro kinds others
  have same : ∀ kind, kind ∈ kinds ↔ kind ∈ others := by
    intro kind
    cases kind <;> decide
  exact ⟨same, (narrowing_ignores_order (.record ⟨3⟩)).2.2.1 kinds others none none same, by decide,
    (narrowing_ignores_order .null).2.2.1 kinds others none none same, by decide⟩

end Value

end ScriptCore
