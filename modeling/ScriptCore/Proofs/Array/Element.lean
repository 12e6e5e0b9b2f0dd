import ScriptCore.Coercion.Basic
import ScriptCore.Proofs.Array.Index
import ScriptCore.Proofs.Member.Access

/-! # Elements of arrays

A key names an element if its text is an index numeral. A write to an index is read back under every
key of the same text and leaves all else in the heap as it was; the array becomes longer only if the
index lies beyond its end. A write is refused for its key, or because the index is not below the
limit, whatever length the array has.
-/

namespace ScriptCore

/-- The text under which a value names a member, if it does. -/
def Value.keyText? (v : Value) : Option String := v.propertyKey?.map PropertyKey.text

theorem Value.keyText?_eq_none_iff {v : Value} :
    v.keyText? = none ↔ v.kind ≠ .string ∧ v.kind ≠ .number := by
  cases v with
  | primitive p => cases p <;> simp [keyText?, propertyKey?, kind, Primitive.kind]
  | array | record | function => simp [keyText?, propertyKey?, kind]

theorem Value.narrowKey_of_keyText? {v : Value} {text : String} (named : v.keyText? = some text)
    (range : Option SourceRange) :
    ∃ key : PropertyKey, v.narrowKey range = .ok key ∧ key.text = text := by
  obtain ⟨key, isKey, isText⟩ := Option.map_eq_some_iff.mp named
  exact ⟨key, by rw [narrowKey_eq, isKey], isText⟩

theorem Value.narrowKey_of_keyless {v : Value} (keyless : v.keyText? = none)
    (range : Option SourceRange) :
    v.narrowKey range = .error ⟨.unexpectedKind [.string, .number] v.kind, range⟩ := by
  rw [narrowKey_eq, Option.map_eq_none_iff.mp keyless]

/-! ## One element put -/

section Put

variable (elements : Array Value) (index : Nat) (value : Value)

theorem size_putElement :
    (putElement elements index value).size = max elements.size (index + 1) := by
  unfold putElement
  split
  · rw [Array.size_setIfInBounds]
    omega
  · rw [Array.size_push, Array.size_append, Array.size_replicate]
    omega

theorem getElem?_putElement_self : (putElement elements index value)[index]? = some value := by
  unfold putElement
  split
  · next inside => exact Array.getElem?_setIfInBounds_self_of_lt inside
  · next beyond =>
    have last : (elements ++ Array.replicate (index - elements.size) Value.undefined).size =
        index := by
      rw [Array.size_append, Array.size_replicate]
      omega
    rw [Array.getElem?_push, if_pos last.symm]

variable {index} {other : Nat}

theorem getElem?_putElement_of_lt (different : other ≠ index) (old : other < elements.size) :
    (putElement elements index value)[other]? = elements[other]? := by
  unfold putElement
  split
  · exact Array.getElem?_setIfInBounds_ne different.symm
  · rw [Array.getElem?_push, Array.getElem?_append_left old, if_neg]
    rw [Array.size_append, Array.size_replicate]
    omega

/-- The elements between the old end and a new element are undefined. -/
theorem getElem?_putElement_of_hole (before : other < index) (new : elements.size ≤ other) :
    (putElement elements index value)[other]? = some .undefined := by
  have last : (elements ++ Array.replicate (index - elements.size) Value.undefined).size =
      index := by
    rw [Array.size_append, Array.size_replicate]
    omega
  unfold putElement
  rw [if_neg (by omega), Array.getElem?_push, last, if_neg (Nat.ne_of_lt before),
    Array.getElem?_append_right new, Array.getElem?_replicate, if_pos (by omega)]

end Put

theorem Heap.elements_modifyElements_self (heap : Heap) {ref : ArrayRef}
    (present : ref.index < heap.arrays.size) (change : Array Value → Array Value) :
    (heap.modifyElements ref change).elements ref = change (heap.elements ref) := by
  simp only [elements, modifyElements, Array.getD_eq_getD_getElem?, Array.getElem?_modify, if_true,
    Array.getElem?_eq_getElem present]
  rfl

namespace ArrayRef

/-- The later heap has the value as the element at an index of an array. Otherwise it is the heap
before, but that the array now reaches as far as the index, and its new elements before that are
undefined. -/
structure Stores (ref : ArrayRef) (index : Nat) (value : Value) (heap later : Heap) : Prop where
  size : (later.elements ref).size = max (heap.elements ref).size (index + 1)
  element : (later.elements ref)[index]? = some value
  kept : ∀ other ≠ index, other < (heap.elements ref).size →
    (later.elements ref)[other]? = (heap.elements ref)[other]?
  holes : ∀ other < index, (heap.elements ref).size ≤ other →
    (later.elements ref)[other]? = some .undefined
  otherArrays : later.arrays.size = heap.arrays.size ∧
    ∀ other ≠ ref, later.arrays[other.index]? = heap.arrays[other.index]?
  records : later.records = heap.records
  functions : later.functions = heap.functions

variable {ref : ArrayRef} {heap : Heap} {property : Value} {text : String} {index : Nat}

theorem stores_modifyElements (present : ref.index < heap.arrays.size) (index : Nat)
    (value : Value) :
    ref.Stores index value heap (heap.modifyElements ref (putElement · index value)) where
  size := by rw [heap.elements_modifyElements_self present, size_putElement]
  element := by rw [heap.elements_modifyElements_self present, getElem?_putElement_self]
  kept other different old := by
    rw [heap.elements_modifyElements_self present, getElem?_putElement_of_lt _ _ different old]
  holes other before new := by
    rw [heap.elements_modifyElements_self present, getElem?_putElement_of_hole _ _ before new]
  otherArrays := by
    refine ⟨by rw [Heap.modifyElements, Array.size_modify], fun other different => ?_⟩
    have apart : ref.index ≠ other.index := fun same =>
      different (congrArg ArrayRef.mk same.symm)
    rw [Heap.modifyElements, Array.getElem?_modify, if_neg apart]
  records := rfl
  functions := rfl

/-! ## Reading and writing under a key -/

theorem read_of_keyText? (named : property.keyText? = some text) (range : Option SourceRange) :
    ref.read property range heap =
      if isIndexNumeral text.toList then
        (.ok (((readIndex? text.toList).bind ((heap.elements ref)[·]?)).getD .undefined), heap)
      else if text = "length" then (.ok (.number (.ofNat (heap.elements ref).size)), heap)
      else match Method.ofName? .array text with
        | some method => newMethod method (.array ref) range heap
        | none => (.error ⟨.invalidIndex text, range⟩, heap) := by
  obtain ⟨key, narrowed, rfl⟩ := Value.narrowKey_of_keyText? named range
  simp only [read, Action.bind_apply, Action.ofExcept_apply, Action.get_apply, narrowed]
  split
  · rfl
  · split
    · rfl
    · split <;> simp only [*, Action.fail_apply]

/-- An index numeral of any length reads as the element that it names or as undefined. -/
theorem read_of_index (named : property.keyText? = some (toString index))
    (range : Option SourceRange) :
    ref.read property range heap =
      (.ok (if index ≤ greatestIndex then ((heap.elements ref)[index]?).getD .undefined
        else .undefined), heap) := by
  rw [read_of_keyText? named, if_pos (isIndexNumeral_toString index), readIndex?_toString]
  split <;> rfl

theorem write_of_keyText? (named : property.keyText? = some text) (value : Value)
    (range : Option SourceRange) :
    ref.write property value range heap =
      match readIndex? text.toList with
      | none => (.error ⟨.invalidIndex text, range⟩, heap)
      | some index =>
        if arrayLengthLimit ≤ index then
          (.error ⟨.arrayTooLong (index + 1) arrayLengthLimit, range⟩, heap)
        else (.ok (), heap.modifyElements ref (putElement · index value)) := by
  obtain ⟨key, narrowed, rfl⟩ := Value.narrowKey_of_keyText? named range
  have applied := ref.write_apply property value range heap
  rw [narrowed] at applied
  exact applied

theorem write_of_keyless (keyless : property.keyText? = none) (value : Value)
    (range : Option SourceRange) :
    ref.write property value range heap =
      (.error ⟨.unexpectedKind [.string, .number] property.kind, range⟩, heap) := by
  rw [write_apply, Value.narrowKey_of_keyless keyless]

theorem write_of_foreign (named : property.keyText? = some text)
    (foreign : ∀ index ≤ greatestIndex, text ≠ toString index) (value : Value)
    (range : Option SourceRange) :
    ref.write property value range heap = (.error ⟨.invalidIndex text, range⟩, heap) := by
  have unread : readIndex? text.toList = none := by
    rw [Option.eq_none_iff_forall_ne_some]
    intro index isIndex
    obtain ⟨isText, within⟩ := readIndex?_eq_some_iff.mp isIndex
    exact foreign index within (String.toList_injective isText)
  rw [write_of_keyText? named, unread]

theorem write_of_index (named : property.keyText? = some (toString index))
    (within : index ≤ greatestIndex) (value : Value) (range : Option SourceRange) :
    ref.write property value range heap =
      if arrayLengthLimit ≤ index then
        (.error ⟨.arrayTooLong (index + 1) arrayLengthLimit, range⟩, heap)
      else (.ok (), heap.modifyElements ref (putElement · index value)) := by
  rw [write_of_keyText? named, readIndex?_toString, if_pos within]

theorem le_greatestIndex (below : index < arrayLengthLimit) : index ≤ greatestIndex :=
  below.le.trans (by decide)

/-- A write succeeds for an index below the limit and for no other key. -/
theorem write_eq_ok_iff {value : Value} {range : Option SourceRange} {after : Heap} :
    ref.write property value range heap = (.ok (), after) ↔
      ∃ index < arrayLengthLimit, property.keyText? = some (toString index) ∧
        after = heap.modifyElements ref (putElement · index value) := by
  constructor
  · intro succeeds
    cases named : property.keyText? with
    | none =>
      rw [write_of_keyless named] at succeeds
      cases succeeds
    | some text =>
      by_cases isIndex : ∃ index ≤ greatestIndex, text = toString index
      · obtain ⟨index, within, rfl⟩ := isIndex
        rw [write_of_index named within] at succeeds
        split at succeeds
        · cases succeeds
        · next below =>
          obtain ⟨-, rfl⟩ := Prod.mk.inj succeeds
          exact ⟨index, Nat.lt_of_not_le below, rfl, rfl⟩
      · rw [write_of_foreign named fun index within isText => isIndex ⟨index, within, isText⟩]
          at succeeds
        cases succeeds
  · rintro ⟨index, below, named, rfl⟩
    rw [write_of_index named (le_greatestIndex below), if_neg (Nat.not_le.mpr below)]

/-- Whatever was stored at an index is read under every key that names it, and from every value that
is the array. -/
theorem Stores.read_eq {after : Heap} {value : Value} (stores : ref.Stores index value heap after)
    (within : index ≤ greatestIndex) {holder other : Value}
    (same : holder.strictEquals (.array ref) = true)
    (named : other.keyText? = some (toString index)) (range : Option SourceRange) :
    holder.read other range after = (.ok value, after) := by
  cases holder with
  | primitive | record | function => contradiction
  | array self =>
    obtain rfl : self = ref := by simpa [Value.strictEquals] using same
    change self.read other range after = _
    rw [read_of_index named, if_pos within, stores.element]
    rfl

/-- Elements of an array are written and read by index. A write that succeeds has a canonical
decimal as its key and changes nothing but that element, with undefined ones before it where there
were none; every key of the same text then reads the value, from whatever holds the array. A
canonical decimal of any length can be read, and is undefined from the end of the array on. Any other
key, or a decimal beyond the greatest index, is refused in writing, with a type error if it is not a
key at all; and of the decimals just those below the limit are accepted. -/
theorem elements_by_index (present : ref.index < heap.arrays.size) (property value : Value)
    (range : Option SourceRange) :
    (∀ after, ref.write property value range heap = (.ok (), after) →
      ∃ index, property.keyText? = some (toString index) ∧ ref.Stores index value heap after ∧
        ∀ (holder other : Value) place, holder.strictEquals (.array ref) = true →
          other.keyText? = property.keyText? → holder.read other place after = (.ok value, after)) ∧
    (∀ index, property.keyText? = some (toString index) →
      ∃ element, ref.read property range heap = (.ok element, heap) ∧
        ((heap.elements ref).size ≤ index → element = .undefined) ∧
        (index ≤ greatestIndex → element = ((heap.elements ref)[index]?).getD .undefined)) ∧
    (property.kind ≠ .string ∧ property.kind ≠ .number →
      ∃ error, error.cause.errorClass = .type ∧
        ref.write property value range heap = (.error error, heap)) ∧
    (∀ text, property.keyText? = some text → (∀ index ≤ greatestIndex, text ≠ toString index) →
      ∃ error, error.cause.errorClass = .range ∧
        ref.write property value range heap = (.error error, heap)) ∧
    ((∃ after, ref.write property value range heap = (.ok (), after)) ↔
      ∃ index < arrayLengthLimit, property.keyText? = some (toString index)) := by
  refine ⟨fun after succeeds => ?_, fun index named => ?_, fun foreign => ?_,
    fun text named foreign => ?_, ?_⟩
  · obtain ⟨index, below, named, rfl⟩ := write_eq_ok_iff.mp succeeds
    have stores := stores_modifyElements present index value
    refine ⟨index, named, stores, fun holder other place same sameText => ?_⟩
    exact stores.read_eq (le_greatestIndex below) same (sameText.trans named) place
  · refine ⟨_, read_of_index named range, fun beyond => ?_, fun within => if_pos within⟩
    rw [Array.getElem?_eq_none beyond, Option.getD_none, ite_self]
  · exact ⟨_, rfl, write_of_keyless (Value.keyText?_eq_none_iff.mpr foreign) value range⟩
  · exact ⟨_, rfl, write_of_foreign named foreign value range⟩
  · constructor
    · rintro ⟨after, succeeds⟩
      obtain ⟨index, below, named, -⟩ := write_eq_ok_iff.mp succeeds
      exact ⟨index, below, named⟩
    · rintro ⟨index, below, named⟩
      exact ⟨_, write_eq_ok_iff.mpr ⟨index, below, named, rfl⟩⟩

/-- An array of two elements, written at `4` and read at the number of the same text. -/
theorem elements_by_index_growing :
    let heap : Heap := ⟨#[#[.null, .null]], #[], #[]⟩
    let ref : ArrayRef := ⟨0⟩
    let property : Value := .string "4"
    ref.index < heap.arrays.size ∧
      ∃ after, ref.write property (.boolean true) none heap = (.ok (), after) ∧
        ∃ index, property.keyText? = some (toString index) ∧
          ref.Stores index (.boolean true) heap after ∧
          (Value.array ref).read (.number 4) none after = (.ok (.boolean true), after) := by
  intro heap ref property
  have present : ref.index < heap.arrays.size := by decide
  have named : property.keyText? = some (toString 4) := rfl
  have sameText : (Value.number 4).keyText? = property.keyText? := by decide +kernel
  obtain ⟨written, -, -, -, accepted⟩ := elements_by_index present property (.boolean true) none
  obtain ⟨after, succeeds⟩ := accepted.mpr ⟨4, by decide, named⟩
  obtain ⟨index, isIndex, stores, read⟩ := written after succeeds
  exact ⟨present, after, succeeds, index, isIndex, stores,
    read _ _ none (by simp [Value.strictEquals]) sameText⟩

/-! ## The limit -/

/-- Below the limit every index can be written, in place or beyond the end; a write in place leaves
the length as it is. From the limit on every write is refused: one beyond the end, which would make
the array longer than the limit, and also one in place, where a longer array has such an element. -/
theorem write_by_limit (present : ref.index < heap.arrays.size)
    (named : property.keyText? = some (toString index)) (within : index ≤ greatestIndex)
    (value : Value) (range : Option SourceRange) :
    (index < arrayLengthLimit → ∃ after, ref.write property value range heap = (.ok (), after) ∧
      ref.Stores index value heap after ∧
      (index < (heap.elements ref).size →
        (after.elements ref).size = (heap.elements ref).size)) ∧
    (arrayLengthLimit ≤ index →
      ref.write property value range heap =
          (.error ⟨.arrayTooLong (index + 1) arrayLengthLimit, range⟩, heap) ∧
        ((heap.elements ref).size ≤ index →
          arrayLengthLimit < max (heap.elements ref).size (index + 1) ∧
            (heap.elements ref).size < max (heap.elements ref).size (index + 1))) := by
  constructor
  · intro below
    have stores := stores_modifyElements present index value
    refine ⟨_, write_eq_ok_iff.mpr ⟨index, below, named, rfl⟩, stores, fun inside => ?_⟩
    rw [stores.size, Nat.max_eq_left inside]
  · intro beyond
    refine ⟨?_, fun outside => by omega⟩
    rw [write_of_index named within, if_pos beyond]

/-- The heap of one array that has an element more than writes can reach. -/
def longHeap : Heap := ⟨#[Array.replicate (arrayLengthLimit + 1) .undefined], #[], #[]⟩

/-- The last index below the limit can be written in an array that is longer. -/
theorem write_by_limit_below :
    let ref : ArrayRef := ⟨0⟩
    let property : Value := .string "1048575"
    ref.index < longHeap.arrays.size ∧ property.keyText? = some (toString 1048575) ∧
      1048575 ≤ greatestIndex ∧
      ∃ after, ref.write property .null none longHeap = (.ok (), after) ∧
        (after.elements ref)[1048575]? = some .null ∧
        (after.elements ref).size = (longHeap.elements ref).size := by
  intro ref property
  have present : ref.index < longHeap.arrays.size := by decide
  have named : property.keyText? = some (toString 1048575) := rfl
  have within : 1048575 ≤ greatestIndex := by decide
  have inside : 1048575 < (longHeap.elements ref).size :=
    (show 1048575 < arrayLengthLimit + 1 by decide).trans_eq Array.size_replicate.symm
  obtain ⟨after, succeeds, stores, sameSize⟩ :=
    (write_by_limit present named within .null none).1 (by decide)
  exact ⟨present, named, within, after, succeeds, stores.element, sameSize inside⟩

/-- The last element of that array is there and is read, but cannot be written. -/
theorem write_refused_in_place :
    let ref : ArrayRef := ⟨0⟩
    let property : Value := .string "1048576"
    1048576 < (longHeap.elements ref).size ∧
      ref.read property none longHeap = (.ok .undefined, longHeap) ∧
      ref.write property .null none longHeap =
        (.error ⟨.arrayTooLong 1048577 arrayLengthLimit, none⟩, longHeap) := by
  intro ref property
  have named : property.keyText? = some (toString 1048576) := rfl
  have inside : 1048576 < (longHeap.elements ref).size :=
    (show 1048576 < arrayLengthLimit + 1 by decide).trans_eq Array.size_replicate.symm
  have last : (longHeap.elements ref)[1048576]? = some .undefined := by
    change (Array.replicate (arrayLengthLimit + 1) Value.undefined)[1048576]? = _
    rw [Array.getElem?_replicate, if_pos (by decide)]
  refine ⟨inside, ?_, ?_⟩
  · rw [read_of_index named, last]
    rfl
  · rw [write_of_index named (by decide), if_pos (by decide)]

end ArrayRef

end ScriptCore
