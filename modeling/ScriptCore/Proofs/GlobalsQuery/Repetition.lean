import ScriptCore.Proofs.GlobalsQuery

/-! # The globals query on its own output

What is printed for the global object is an object again: it is no deeper than the one before and
keeps the distinct keys, so a documented library reads it back. Printing it once more has nothing
left to normalize and no reserved name to leave out, so the output repeats itself.
-/

namespace ScriptCore

namespace GlobalsQuery

/-- The members that the global object shows of an object. -/
def selfShown (members : List (String × Json)) : List (String × Json) :=
  (members.filter fun member => !isReservedName member.1).map fun member =>
    (member.1, member.2.normal)

theorem object_selfShown (members : List (String × Json)) :
    Json.object (selfShown members) =
      (Json.object (members.filter fun member => !isReservedName member.1)).normal :=
  (Json.normal_object _).symm

theorem selfShown_selfShown (members : List (String × Json)) :
    selfShown (selfShown members) = selfShown members := by
  have kept : (selfShown members).filter (fun member => !isReservedName member.1) =
      selfShown members := by
    refine List.filter_eq_self.mpr fun member isMember => ?_
    obtain ⟨source, isSource, rfl⟩ := List.mem_map.mp isMember
    exact (List.mem_filter.mp isSource).2
  rw [selfShown, kept, selfShown, List.map_map]
  exact List.map_congr_left fun member _ => Prod.ext rfl member.2.normal_normal

variable {library : JsonLibrary} {written : String → Except String Json} {text : String}
  {members : List (String × Json)}

theorem run_self (collapses : library.Collapses written) (program : String)
    (reads : library.read text = .ok (.object members)) :
    run library (commandLine program ["-g", text, "self"]) =
      .exited ⟨0, "self = " ++ library.render (.object (selfShown members)) ++ "\n", ""⟩ := by
  obtain ⟨own, -, rfl, distinct⟩ := exists_written collapses reads
  have reserved : isReservedName "self" = true := by decide
  rw [run_commandLine, query_of_reads reads distinct, object_selfShown, List.map_singleton, line,
    shown, if_pos reserved]
  rfl

theorem readsBack_selfShown (documented : library.IsDocumented written)
    (reads : library.read text = .ok (.object members)) :
    library.ReadsBack (.object (selfShown members)) := by
  have kept := List.filter_sublist (p := fun member => !isReservedName member.1) (l := members)
  obtain ⟨-, -, -, distinct⟩ := exists_written documented.toCollapses reads
  rw [object_selfShown]
  apply documented.readsBack_normal
  · cases documented.nests reads with
    | leaf leaf => cases leaf
    | object each => exact .object fun member isMember => each member (kept.subset isMember)
  · cases distinct with
    | leaf leaf => cases leaf
    | object distinct each =>
      exact .object (distinct.sublist (kept.map _)) fun member isMember =>
        each member (kept.subset isMember)

/-- What is printed for the global object of an object is read as an object again, for which the
same is printed. -/
theorem run_self_again (documented : library.IsDocumented written) (program : String)
    (reads : library.read text = .ok (.object members)) :
    run library (commandLine program ["-g", text, "self"]) =
        .exited ⟨0, "self = " ++ library.render (.object (selfShown members)) ++ "\n", ""⟩ ∧
      library.read (library.render (.object (selfShown members))) =
        .ok (.object (selfShown members)) ∧
      run library (commandLine program
          ["-g", library.render (.object (selfShown members)), "self"]) =
        .exited ⟨0, "self = " ++ library.render (.object (selfShown members)) ++ "\n", ""⟩ := by
  have readsAgain := readsBack_selfShown documented reads
  have again := run_self documented.toCollapses program readsAgain
  rw [selfShown_selfShown] at again
  exact ⟨run_self documented.toCollapses program reads, readsAgain, again⟩

/-- A reserved name is left out the first time, and nothing the second time. -/
theorem run_self_again_reserved :
    Json.documentedLibrary.read "\x7b\"self\":null,\"a\":0.1\x7d" =
        .ok (.object [("self", .null), ("a", .float (.ofRatio false 1 10))]) ∧
      run Json.documentedLibrary
          (commandLine "fscript-globals" ["-g", "\x7b\"self\":null,\"a\":0.1\x7d", "self"]) =
        .exited ⟨0, "self = \x7b\"a\":0.1\x7d\n", ""⟩ ∧
      run Json.documentedLibrary
          (commandLine "fscript-globals" ["-g", "\x7b\"a\":0.1\x7d", "self"]) =
        .exited ⟨0, "self = \x7b\"a\":0.1\x7d\n", ""⟩ := by
  have documented := Json.documentedLibrary_isDocumented
  have text : "\x7b\"self\":null,\"a\":0.1\x7d" = Json.documentedLibrary.render
      (.object [("self", .null), ("a", .float (.ofRatio false 1 10))]) := by
    decide +kernel
  have reads : Json.documentedLibrary.read "\x7b\"self\":null,\"a\":0.1\x7d" =
      .ok (.object [("self", .null), ("a", .float (.ofRatio false 1 10))]) := by
    rw [text]
    apply documented.containers
    · refine .object (List.forall_mem_cons.mpr ⟨.leaf rfl, ?_⟩)
      exact List.forall_mem_singleton.mpr (.leaf rfl)
    · refine .object (by decide) (List.forall_mem_cons.mpr ⟨.leaf rfl, ?_⟩)
      exact List.forall_mem_singleton.mpr (.leaf rfl)
    · rintro leaf (_ | _ | ⟨isMember, inside⟩) isLeaf
      · cases isLeaf
      · obtain rfl | rfl := List.mem_pair.mp isMember
        · exact inside.eq_of_isLeaf rfl ▸ documented.null
        · exact inside.eq_of_isLeaf rfl ▸ documented.float (by decide +kernel)
  have number : PlainData.numberToJson (.ofRatio false 1 10) = .float (.ofRatio false 1 10) := by
    rw [PlainData.numberToJson, if_neg (by decide +kernel), if_neg (by decide +kernel)]
  have shows : selfShown [("self", .null), ("a", .float (.ofRatio false 1 10))] =
      [("a", .float (.ofRatio false 1 10))] :=
    congrArg (fun json => [("a", json)]) number
  have prints : Json.documentedLibrary.render (.object [("a", .float (.ofRatio false 1 10))]) =
      "\x7b\"a\":0.1\x7d" := by
    decide +kernel
  obtain ⟨first, -, again⟩ := run_self_again documented "fscript-globals" reads
  rw [shows, prints] at first again
  exact ⟨reads, first, again⟩

end GlobalsQuery

end ScriptCore
