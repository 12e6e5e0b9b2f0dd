import ScriptCore.Record.Member

/-! # Hooks written as tables -/

namespace ScriptCore

/-- Hooks that take no part in anything. -/
def Hooks.idle : Hooks where
  answer? _ _ _ _ := none
  accept _ _ _ _ _ := .ok []
  default? _ := none

/-- The hooks of a table and its operands: the answers by key, the answer to number keys and the
default conversion, as far as the table asks for them. -/
def HookTable.hooks (table : HookTable) (operands : List Value) : Hooks :=
  let answers := table.getKeys.zip operands
  let rest := operands.drop table.getKeys.length
  let numberAnswer := if table.answersNumbers then rest.head? else none
  let rest := if table.answersNumbers then rest.drop 1 else rest
  { answer? := fun _ entries key _ =>
      match key, numberAnswer with
      | .number _, some value => some value
      | _, _ =>
        if table.countKey = some key.text then some (.number (.ofNat entries.size))
        else (Entries.ofList answers).get? key.text
    accept := fun _ _ key value range =>
      match (Entries.ofList table.rejections).get? key.text with
      | some message => .error ⟨.raised .type message, range⟩
      | none => .ok (table.echoKey.toList.map fun echo => (echo, value))
    default? := fun _ =>
      if table.hasDefault then rest.head?.map Value.primitiveOrUndefined else none }

end ScriptCore
