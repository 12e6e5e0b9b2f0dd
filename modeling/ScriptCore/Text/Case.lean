import ScriptCore.Text.CaseTables

/-! # Upper and lower case

The full case mappings, the same in every language. A capital sigma becomes a final small sigma
where the nearest character before it that is not case-ignorable is cased and the nearest one after
it is not.
-/

namespace ScriptCore

def CaseRun.covers (run : CaseRun) (code : Nat) : Bool :=
  run.first ≤ code && code ≤ run.last && (code - run.first) % run.step == 0

/-- The characters of a code point by a table of single mappings and one of expansions. -/
def mapCase (runs : List CaseRun) (expansions : List (Nat × List Nat)) (c : Char) : List Char :=
  match expansions.lookup c.toNat with
  | some codes => codes.map Char.ofNat
  | none =>
    match runs.find? (·.covers c.toNat) with
    | some run => [Char.ofNat (c.toNat + run.shift).toNat]
    | none => [c]

def inRanges (ranges : List (Nat × Nat)) (c : Char) : Bool :=
  ranges.any fun range => range.1 ≤ c.toNat && c.toNat ≤ range.2

/-- Whether the first character that is not case-ignorable is there and cased. -/
def beginsCased (text : List Char) : Bool :=
  ((text.dropWhile (inRanges caseIgnorableRanges)).head?).any (inRanges casedRanges)

/-- The lowercase form of the text `rest` that follows the characters `before`, nearest first. -/
def lowercaseFrom (before : List Char) : List Char → List Char
  | [] => []
  | c :: rest =>
    let lower :=
      if c = 'Σ' then [if beginsCased before && !beginsCased rest then 'ς' else 'σ']
      else mapCase lowercaseRuns lowercaseExpansions c
    lower ++ lowercaseFrom (c :: before) rest

def lowercase (text : String) : String := String.ofList (lowercaseFrom [] text.toList)

def uppercase (text : String) : String :=
  String.ofList (text.toList.flatMap (mapCase uppercaseRuns uppercaseExpansions))

end ScriptCore
