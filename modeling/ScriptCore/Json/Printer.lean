import ScriptCore.Json.Basic
import ScriptCore.Number.Text

/-! # JSON text written

The compact form, without blanks. Strings escape the quote, the backslash and the control
characters. A double is written with its shortest digits, positionally from `10^-5` to below
`10^16`, and always shows that it is not an integer.
-/

namespace ScriptCore

namespace Json

/-- Doubles from `10^-5` to below `10^16` are written without an exponent, a tie going to even. -/
def layout : Layout := ⟨-4, 16, true, true, .even⟩

/-- The text of a double; JSON has none for what is not finite. -/
def floatText : Double → String
  | .nan => "null"
  | .signed negative m =>
    if m.isInfinite then "null"
    else if m.isZero then if negative then "-0.0" else "0.0"
    else layout.write negative m

/-- A character inside a string. -/
def escapeChar (c : Char) : List Char :=
  if c = '"' then ['\\', '"']
  else if c = '\\' then ['\\', '\\']
  else if c.toNat = 0x08 then ['\\', 'b']
  else if c.toNat = 0x0C then ['\\', 'f']
  else if c.toNat = 0x0A then ['\\', 'n']
  else if c.toNat = 0x0D then ['\\', 'r']
  else if c.toNat = 0x09 then ['\\', 't']
  else if c.toNat < 0x20 then
    ['\\', 'u', '0', '0', digitChar 16 (c.toNat / 16), digitChar 16 (c.toNat % 16)]
  else [c]

/-- A string between its quotes. -/
def quote (s : String) : String :=
  String.ofList ('"' :: s.toList.flatMap escapeChar ++ ['"'])

mutual

def render : Json → String
  | null => "null"
  | boolean b => if b then "true" else "false"
  | integer n => toString n
  | float x => floatText x
  | string s => quote s
  | array items => "[" ++ ",".intercalate (renderAll items) ++ "]"
  | object members => "\x7b" ++ ",".intercalate (renderMembers members) ++ "\x7d"

def renderAll : List Json → List String
  | [] => []
  | item :: rest => render item :: renderAll rest

def renderMembers : List (String × Json) → List String
  | [] => []
  | (key, item) :: rest => (quote key ++ ":" ++ render item) :: renderMembers rest

end

end Json

end ScriptCore
