import ScriptCore.Json.Printer
import ScriptCore.Outline

/-! # Values shown for inspection

The form in which a value is shown to whoever embeds the language: its kind and its content, of a
record the keys and of a function its receiver's kind and whether it is an arrow function.
-/

namespace ScriptCore

namespace Inspection

/-- Doubles from `10^-4` to below `10^16` are written without an exponent. -/
def layout : Layout := ⟨-3, 16, true, false, .up⟩

def number : Double → String
  | .nan => "NaN"
  | .signed negative m =>
    if m.isInfinite then if negative then "-inf" else "inf"
    else if m.isZero then if negative then "-0.0" else "0.0"
    else layout.write negative m

/-- A character inside a string. -/
def escapeChar (c : Char) : List Char :=
  if c = '"' then ['\\', '"']
  else if c = '\\' then ['\\', '\\']
  else if c.toNat = 0 then ['\\', '0']
  else if c.toNat = 0x09 then ['\\', 't']
  else if c.toNat = 0x0A then ['\\', 'n']
  else if c.toNat = 0x0D then ['\\', 'r']
  else if c.toNat < 0x20 || c.toNat = 0x7F then
    ['\\', 'u', '\x7b'] ++ (digitsOf 16 c.toNat).map (digitChar 16) ++ ['\x7d']
  else [c]

/-- A string between its quotes. -/
def quote (s : String) : String :=
  String.ofList ('"' :: s.toList.flatMap escapeChar ++ ['"'])

def primitive : Primitive → String
  | .null => "Null"
  | .undefined => "Undefined"
  | .boolean b => if b then "Boolean(true)" else "Boolean(false)"
  | .number n => "Number(" ++ number n ++ ")"
  | .string s => "String(" ++ quote s ++ ")"

end Inspection

namespace Outline

mutual

/-- The inspected form of a value. -/
def inspect : Outline → String
  | primitive p => Inspection.primitive p
  | array items => "Array([" ++ ", ".intercalate (inspectAll items) ++ "])"
  | record keys =>
    "Record(JSRecord \x7b keys: [" ++ ", ".intercalate (keys.map Inspection.quote) ++ "] \x7d)"
  | function isArrow receiver =>
    "Function(JSFunction \x7b this: \"" ++ receiver.name ++ "\", is_arrow: " ++
      (if isArrow then "true" else "false") ++ " \x7d)"
  | cut => "Array([...])"

def inspectAll : List Outline → List String
  | [] => []
  | item :: rest => inspect item :: inspectAll rest

end

end Outline

end ScriptCore
