import ScriptCore.GlobalsQuery
import ScriptCore.Proofs.Json.RoundTrip
import ScriptCore.Proofs.PlainData.Normal
import ScriptCore.Proofs.PlainData.Projection
import ScriptCore.Proofs.Record.Global
import ScriptCore.Proofs.Record.History

/-! # What the globals query prints

The members of an object become the entries of a global record, all but those with reserved names,
and each entry projects to its member again. So no name fails: it prints its member, null if there
is none, and a reserved name prints the object without members of reserved names. Of the library
only its treatment of repeated keys matters.
-/

namespace ScriptCore

/-! ## The realm of an object -/

section Pairs

variable {α β : Type} {related : α → β → Prop} {entries : List (String × α)}
  {members : List (String × β)}

/-- The same key with related values. -/
def Pairs (related : α → β → Prop) (entry : String × α) (member : String × β) : Prop :=
  entry.1 = member.1 ∧ related entry.2 member.2

theorem forall₂_filter_keys (keep : String → Bool)
    (pairs : List.Forall₂ (Pairs related) entries members) :
    List.Forall₂ (Pairs related) (entries.filter fun entry => keep entry.1)
      (members.filter fun member => keep member.1) := by
  induction pairs with
  | nil => exact .nil
  | @cons entry member _ _ pair _ ih =>
    rw [List.filter_cons, List.filter_cons, pair.1]
    split
    · exact .cons pair ih
    · exact ih

theorem lookup_of_forall₂ (pairs : List.Forall₂ (Pairs related) entries members) (key : String) :
    entries.lookup key = none ∧ members.lookup key = none ∨
      ∃ a b, entries.lookup key = some a ∧ members.lookup key = some b ∧ related a b := by
  induction pairs with
  | nil => exact .inl ⟨rfl, rfl⟩
  | @cons entry member _ _ pair _ ih =>
    rw [lookup_cons_eq_ite, lookup_cons_eq_ite, pair.1]
    split
    · exact .inr ⟨_, _, rfl, rfl, pair.2⟩
    · exact ih

end Pairs

namespace Realm

/-- No frame binds a name, and the entries of the global record project to given members. -/
structure HasGlobals (realm : Realm) (members : List (String × PlainData)) : Prop where
  unbound : ∀ name, realm.context.find? name = none
  isGlobal : realm.context.globalRecord.IsGlobal realm.heap
  projects : ∀ depth, realm.heap.containerCount ≤ depth →
    List.Forall₂ (Pairs fun value data => realm.heap.toPlainWithin depth value = .ok data)
      (realm.heap.entries realm.context.globalRecord).toList members

theorem ofGlobals_hasGlobals {members : List (String × PlainData)}
    (distinct : (PlainData.object members).DistinctKeys) :
    (ofGlobals members).HasGlobals (members.filter fun member => !isReservedName member.1) := by
  cases distinct with
  | object keysDistinct each =>
    obtain ⟨entries, middle, created, keys, -, projects⟩ :=
      PlainData.createMembers_projects members each Heap.empty
    obtain ⟨after, allocated, growth, -, holds⟩ :=
      newRecord_apply ((Entries.ofList entries).filterKeys (!isReservedName ·)) (some .global)
        middle
    have built : PlainData.createGlobal members Heap.empty =
        (.ok ⟨middle.records.size⟩, after) := by
      rw [PlainData.createGlobal, Action.bind_of_ok created]
      exact allocated
    have ran : (PlainData.createGlobal members).run Heap.empty =
        (.ok ⟨middle.records.size⟩, after) := built
    have realm : ofGlobals members = ⟨after, .ofGlobal ⟨middle.records.size⟩⟩ := by
      rw [ofGlobals, ran]
      rfl
    rw [realm]
    have cell := holds after (.refl after)
    refine ⟨fun _ => rfl, ?_, fun depth enough => ?_⟩
    · exact congrArg RecordCell.hooks cell
    · have shown : (after.entries ⟨middle.records.size⟩).toList =
          entries.filter fun entry => !isReservedName entry.1 := by
        rw [Heap.entries, cell, Entries.toList_filterKeys,
          Entries.toList_ofList_of_nodup (by rw [keys]; exact keysDistinct)]
      have pairs := forall₂_of_mapM_eq_ok (projects after growth depth (by
        have grown := growth.containerCount_le
        have bounded : after.containerCount ≤ depth := enough
        omega))
      change List.Forall₂ _ (after.entries ⟨middle.records.size⟩).toList _
      rw [shown]
      apply forall₂_filter_keys (!isReservedName ·)
      refine pairs.imp fun entry member succeeds => ?_
      obtain ⟨data, isData, isMember⟩ := exists_eq_ok_of_map succeeds
      rw [← isMember]
      exact ⟨rfl, isData⟩

end Realm

namespace GlobalsQuery

variable {library : JsonLibrary} {written : String → Except String Json}

/-- The data that a name shows: the whole object for a reserved name, and its member, or undefined,
for another. -/
def shownData (members : List (String × PlainData)) (name : String) : PlainData :=
  if isReservedName name then .object members
  else (members.lookup name).getD (.primitive .undefined)

theorem globalText_eq {realm : Realm} {members : List (String × PlainData)}
    (globals : realm.HasGlobals members) (name : String) :
    globalText library realm name = .ok (library.render (shownData members name).toJson) := by
  -- A name that no frame binds is read off the global record, and what is read is projected.
  obtain ⟨heap, context⟩ := realm
  obtain ⟨unbound, isGlobal, projects⟩ := globals
  have read := isGlobal.read_name name none
  have value : (Realm.readName name none).run ⟨heap, context⟩ =
      (.ok (if isReservedName name then .record context.globalRecord
        else ((heap.entries context.globalRecord).get? name).getD .undefined),
          ⟨heap, context⟩) := by
    change Realm.readName name none ⟨heap, context⟩ = _
    rw [Realm.readName_apply, unbound name]
    dsimp only [Realm.onHeap]
    rw [read]
  have data : heap.toPlain (if isReservedName name then .record context.globalRecord
      else ((heap.entries context.globalRecord).get? name).getD .undefined) =
        .ok (shownData members name) := by
    rw [shownData, Heap.toPlain]
    split
    · have each := (projects _ (Nat.le_refl _)).imp fun entry member pair =>
        show (entry.1, ·) <$> heap.toPlainWithin heap.containerCount entry.2 = .ok member by
          rw [pair.2, pair.1]
          rfl
      rw [Heap.toPlainWithin_record, mapM_eq_ok_of_forall₂ each]
      rfl
    · rw [Entries.get?_eq_lookup]
      rcases lookup_of_forall₂ (projects _ (Nat.le_succ _)) name with
        ⟨noEntry, noMember⟩ | ⟨value, data, isEntry, isMember, isData⟩
      · rw [noEntry, noMember]
        rfl
      · rw [isEntry, isMember]
        exact isData
  rw [globalText, value]
  exact congrArg (· >>= fun data => Except.ok (library.render data.toJson)) data

/-- What is printed for a name of an object with the given members, of which some may have one key:
for a reserved name all members of other names, and for another the last member of that name. -/
def shown (members : List (String × Json)) (name : String) : Json :=
  if isReservedName name then
    (PlainData.ofJson (.object
      ((Entries.ofList members).toList.filter fun member => !isReservedName member.1))).toJson
  else
    match lastStored members name with
    | some value => (PlainData.ofJson value).toJson
    | none => .null

/-- The line that is printed for a name. -/
def line (library : JsonLibrary) (members : List (String × Json)) (name : String) : String :=
  name ++ " = " ++ library.render (shown members name) ++ "\n"

theorem toJson_shownData (members : List (String × Json)) (name : String) :
    (shownData ((PlainData.ofJsonMembers (Entries.ofList members).toList).filter fun member =>
      !isReservedName member.1) name).toJson = shown members name := by
  rw [PlainData.ofJsonMembers_eq, shownData, shown]
  split
  · rw [PlainData.ofJson, PlainData.ofJsonMembers_eq, List.filter_map]
    rfl
  · next free =>
    have last : (Entries.ofList members).toList.lookup name = lastStored members name := by
      rw [← Entries.get?_eq_lookup, Entries.ofList, Entries.get?_insertAll]
      rfl
    rw [lookup_filter_keys (!isReservedName ·), lookup_map, last, if_pos (by simpa using free)]
    cases lastStored members name <;> rfl

theorem foldl_answer {realm : Realm} {lines : String → String} {names : List String}
    (each : ∀ name ∈ names, ∃ text, globalText library realm name = .ok text ∧
      lines name = name ++ " = " ++ text ++ "\n") (outcome : ProcessOutcome) :
    names.foldl (answer library realm) outcome =
      { outcome with stdout := outcome.stdout ++ String.join (names.map lines) } := by
  induction names generalizing outcome with
  | nil => simp
  | cons name names ih =>
    obtain ⟨text, isText, isLine⟩ := each name (List.mem_cons_self ..)
    rw [List.foldl_cons, ih fun other isName => each other (List.mem_cons_of_mem _ isName), answer,
      isText, List.map_cons, isLine]
    simp [String.append_assoc]

/-- The object that is read is what its written members leave, and no key of it is repeated. -/
theorem exists_written (collapses : library.Collapses written) {text : String}
    {members : List (String × Json)} (reads : library.read text = .ok (.object members)) :
    ∃ own, written text = .ok (.object own) ∧
      (Entries.ofList (Json.collapseMembers own)).toList = members ∧
      (Json.object members).DistinctKeys := by
  rw [collapses.collapses] at reads
  cases isWritten : written text with
  | error message =>
    rw [isWritten] at reads
    cases reads
  | ok json =>
    rw [isWritten] at reads
    have isObject : json.collapse = .object members := Except.ok.inj reads
    obtain ⟨own, rfl, left⟩ := Json.exists_of_collapse_eq_object isObject
    exact ⟨own, rfl, left, isObject ▸ Json.distinctKeys_collapse _⟩

theorem query_of_reads {text : String} {members : List (String × Json)}
    (reads : library.read text = .ok (.object (Entries.ofList members).toList))
    (distinct : (Json.object (Entries.ofList members).toList).DistinctKeys) (program name : String)
    (names : List String) :
    query library program ("-g" :: text :: name :: names) =
      ⟨0, String.join ((name :: names).map (line library members)), ""⟩ := by
  have dataDistinct := PlainData.distinctKeys_ofJson distinct
  rw [PlainData.ofJson] at dataDistinct
  have globals := Realm.ofGlobals_hasGlobals dataDistinct
  have each : ∀ other ∈ name :: names, ∃ text,
      globalText library (.ofGlobals (PlainData.ofJsonMembers (Entries.ofList members).toList))
        other = .ok text ∧ line library members other = other ++ " = " ++ text ++ "\n" := by
    intro other _
    refine ⟨_, globalText_eq globals other, ?_⟩
    rw [toJson_shownData, line]
  simp only [query, reads, Except.map, PlainData.ofJson]
  rw [foldl_answer each, String.empty_append]

/-! ## The command line -/

/-- The words of a command line of texts. -/
def commandLine (program : String) (arguments : List String) : List ByteArray :=
  (program :: arguments).map String.toUTF8

theorem fromUTF8?_toUTF8 (text : String) : String.fromUTF8? text.toUTF8 = some text :=
  dif_pos text.isValidUTF8

theorem run_commandLine (program : String) (arguments : List String) :
    run library (commandLine program arguments) = .exited (query library program arguments) := by
  have texts : (commandLine program arguments).mapM String.fromUTF8? =
      some (program :: arguments) := by
    generalize isAll : program :: arguments = all
    rw [commandLine, isAll]
    clear isAll
    induction all with
    | nil => rfl
    | cons text texts ih =>
      rw [List.map_cons, List.mapM_cons, fromUTF8?_toUTF8, ih]
      rfl
  rw [run, texts]

end GlobalsQuery

end ScriptCore
