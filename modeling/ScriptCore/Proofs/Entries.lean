import Mathlib.Data.List.Basic
import ScriptCore.Entries

/-! # Looking up inserted entries

An insertion is seen under its own key and under no other. Replacing a value changes nothing but
that value, so whatever is read off the entries and agrees on it stays the same.
-/

namespace ScriptCore

variable {α β : Type}

theorem lookup_cons_eq_ite (entry : String × α) (rest : List (String × α)) (key : String) :
    (entry :: rest).lookup key = if entry.1 = key then some entry.2 else rest.lookup key := by
  by_cases same : entry.1 = key
  · rw [List.lookup_cons, beq_iff_eq.mpr same.symm, if_pos same]
  · rw [List.lookup_cons, beq_false_of_ne (Ne.symm same), if_neg same]

theorem lookup_upsert (key other : String) (value : α) (list : List (String × α)) :
    (upsert key value list).lookup other =
      if key = other then some value else list.lookup other := by
  induction list with
  | nil => simp only [upsert, lookup_cons_eq_ite]
  | cons entry rest ih =>
    by_cases replaced : entry.1 = key
    · subst replaced
      by_cases same : entry.1 = other <;> simp [upsert, lookup_cons_eq_ite, same]
    · by_cases first : entry.1 = other
      · subst first
        simp [upsert, lookup_cons_eq_ite, replaced, Ne.symm replaced]
      · simp [upsert, lookup_cons_eq_ite, replaced, first, ih]

/-- Inserting the value that is there already changes nothing. -/
theorem upsert_of_lookup {key : String} {value : α} {list : List (String × α)}
    (present : list.lookup key = some value) : upsert key value list = list := by
  induction list with
  | nil => simp at present
  | cons entry rest ih =>
    rw [lookup_cons_eq_ite] at present
    by_cases same : entry.1 = key
    · rw [if_pos same] at present
      simp [upsert, same, ← Option.some.inj present, Prod.ext_iff]
    · rw [if_neg same] at present
      simp [upsert, same, ih present]

theorem map_upsert (change : α → β) (key : String) (value : α) (list : List (String × α)) :
    (upsert key value list).map (fun entry => (entry.1, change entry.2)) =
      upsert key (change value) (list.map fun entry => (entry.1, change entry.2)) := by
  induction list with
  | nil => rfl
  | cons entry rest ih => by_cases same : entry.1 = key <;> simp [upsert, same, ih]

theorem lookup_map (change : α → β) (key : String) (list : List (String × α)) :
    (list.map fun entry => (entry.1, change entry.2)).lookup key =
      (list.lookup key).map change := by
  induction list with
  | nil => rfl
  | cons entry rest ih =>
    by_cases same : entry.1 = key <;> simp [lookup_cons_eq_ite, same, ih]

theorem lookup_filter_keys (keep : String → Bool) (list : List (String × α)) (key : String) :
    (list.filter fun entry => keep entry.1).lookup key =
      if keep key then list.lookup key else none := by
  induction list with
  | nil => simp
  | cons entry rest ih =>
    by_cases same : entry.1 = key
    · subst same
      cases kept : keep entry.1 <;> simp [lookup_cons_eq_ite, kept, ih]
    · cases kept : keep entry.1 <;> simp [lookup_cons_eq_ite, kept, same, ih]

theorem map_fst_upsert (key : String) (value : α) (list : List (String × α)) :
    (upsert key value list).map Prod.fst =
      if key ∈ list.map Prod.fst then list.map Prod.fst else list.map Prod.fst ++ [key] := by
  induction list with
  | nil => rfl
  | cons entry rest ih =>
    by_cases same : entry.1 = key
    · simp [upsert, same]
    · simp only [upsert, same, if_false, List.map_cons, ih, List.mem_cons, Ne.symm same, false_or]
      split <;> rfl

/-- What inserted entries leave comes from among them. -/
theorem mem_of_mem_upsert {key : String} {value : α} {list : List (String × α)}
    {entry : String × α} (isEntry : entry ∈ upsert key value list) :
    entry = (key, value) ∨ entry ∈ list := by
  induction list with
  | nil => exact .inl (List.mem_singleton.mp isEntry)
  | cons first rest ih =>
    rw [upsert] at isEntry
    split at isEntry
    · exact (List.mem_cons.mp isEntry).imp_right (List.mem_cons_of_mem _)
    · rcases List.mem_cons.mp isEntry with rfl | isLater
      · exact .inr (List.mem_cons_self ..)
      · exact (ih isLater).imp_right (List.mem_cons_of_mem _)

/-- Entries under distinct keys are found one by one. -/
theorem eq_filterMap_lookup {list : List (String × α)} (distinct : (list.map Prod.fst).Nodup) :
    list = (list.map Prod.fst).filterMap fun key => (list.lookup key).map (key, ·) := by
  induction list with
  | nil => rfl
  | cons entry rest ih =>
    rw [List.map_cons, List.nodup_cons] at distinct
    rw [List.map_cons, List.filterMap_cons]
    simp only [lookup_cons_eq_ite, if_true, Option.map_some]
    refine congrArg _ ((ih distinct.2).trans ?_)
    apply List.filterMap_congr
    intro key member
    have different : entry.1 ≠ key := fun same => distinct.1 (same ▸ member)
    rw [if_neg different]

namespace Entries

theorem insertAll_concat (entries : Entries α) (stores : List (String × α)) (key : String)
    (value : α) :
    entries.insertAll (stores ++ [(key, value)]) = (entries.insertAll stores).insert key value := by
  simp [insertAll]

theorem insertAll_append (entries : Entries α) (first second : List (String × α)) :
    entries.insertAll (first ++ second) = (entries.insertAll first).insertAll second := by
  simp [insertAll]

/-- Entries under distinct new keys are added at the end, in order. -/
theorem toList_insertAll_of_new (entries : Entries α) (list : List (String × α))
    (distinct : ((entries.toList ++ list).map Prod.fst).Nodup) :
    (entries.insertAll list).toList = entries.toList ++ list := by
  induction list generalizing entries with
  | nil => simp [insertAll]
  | cons entry rest ih =>
    have new : entry.1 ∉ entries.toList.map Prod.fst := by
      rw [List.map_append, List.map_cons] at distinct
      exact fun member => (List.nodup_append.mp distinct).2.2 _ member _ (List.mem_cons_self ..) rfl
    have inserted : (entries.insert entry.1 entry.2).toList = entries.toList ++ [entry] := by
      rw [toList_insert, upsert_of_new entry.2 new]
    have assembled := ih (entries.insert entry.1 entry.2) (by
      rw [inserted, List.append_assoc]
      exact distinct)
    rw [inserted, List.append_assoc] at assembled
    exact assembled

theorem toList_ofList_of_nodup {list : List (String × α)} (distinct : (list.map Prod.fst).Nodup) :
    (ofList list).toList = list :=
  toList_insertAll_of_new empty list distinct

theorem mem_of_mem_insertAll {entries : Entries α} {list : List (String × α)}
    {entry : String × α} (isEntry : entry ∈ (entries.insertAll list).toList) :
    entry ∈ entries.toList ∨ entry ∈ list := by
  induction list generalizing entries with
  | nil => exact .inl isEntry
  | cons first rest ih =>
    rcases ih isEntry with isInserted | isLater
    · rw [toList_insert] at isInserted
      rcases mem_of_mem_upsert isInserted with rfl | isEarlier
      · exact .inr (List.mem_cons_self ..)
      · exact .inl isEarlier
    · exact .inr (List.mem_cons_of_mem _ isLater)

theorem mem_of_mem_ofList {list : List (String × α)} {entry : String × α}
    (isEntry : entry ∈ (ofList list).toList) : entry ∈ list :=
  (mem_of_mem_insertAll isEntry).resolve_left List.not_mem_nil

theorem get?_insert (entries : Entries α) (key other : String) (value : α) :
    (entries.insert key value).get? other =
      if key = other then some value else entries.get? other := by
  simp only [get?_eq_lookup, toList_insert, lookup_upsert]

@[simp] theorem get?_insert_self (entries : Entries α) (key : String) (value : α) :
    (entries.insert key value).get? key = some value := by
  simp [get?_insert]

theorem get?_insert_of_ne {key other : String} (different : key ≠ other) (entries : Entries α)
    (value : α) : (entries.insert key value).get? other = entries.get? other := by
  simp [get?_insert, different]

theorem get?_filterKeys (entries : Entries α) (keep : String → Bool) (key : String) :
    (entries.filterKeys keep).get? key = if keep key then entries.get? key else none := by
  rw [get?_eq_lookup, get?_eq_lookup, toList_filterKeys, lookup_filter_keys]

theorem contains_eq_false_iff (entries : Entries α) (key : String) :
    entries.contains key = false ↔ entries.get? key = none := by
  simp [contains]

end Entries

end ScriptCore
