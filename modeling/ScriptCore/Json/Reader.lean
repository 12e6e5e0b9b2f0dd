import ScriptCore.Json.Library
import ScriptCore.Json.Number
import ScriptCore.Json.Printer

/-! # JSON text read

A reader takes a value from the beginning of a text and leaves the rest. Containers may stand in
each other up to a depth of 127. The value is read as it is written; repeated keys collapse at the
end. Two libraries are made of the reader, which differ in the doubles that they read.
-/

namespace ScriptCore

namespace Json

/-- What a text begins with, and what follows it. -/
abbrev Reader (α : Type) := List Char → Option (α × List Char)

def isSpace (c : Char) : Bool :=
  c.toNat == 0x20 || c.toNat == 0x09 || c.toNat == 0x0A || c.toNat == 0x0D

def skipSpaces (text : List Char) : List Char := text.dropWhile isSpace

/-- Reads a given word. -/
def takeWord? (word : String) (value : Json) : Reader Json := fun text =>
  if word.toList.isPrefixOf text then some (value, text.drop word.length) else none

/-! ## Strings -/

/-- The unit that four hexadecimal digits write. -/
def hexUnit? (a b c d : Char) : Option Nat := do
  let digits ← [a, b, c, d].mapM (digitValue? 16)
  return ofDigits 16 digits

/-- The character of an escape by one letter. -/
def escaped? (letter : Char) : Option Char :=
  match letter with
  | '"' => some '"'
  | '\\' => some '\\'
  | '/' => some '/'
  | 'b' => some (Char.ofNat 0x08)
  | 'f' => some (Char.ofNat 0x0C)
  | 'n' => some (Char.ofNat 0x0A)
  | 'r' => some (Char.ofNat 0x0D)
  | 't' => some (Char.ofNat 0x09)
  | _ => none

def isHighSurrogate (unit : Nat) : Bool := 0xD800 ≤ unit && unit < 0xDC00
def isLowSurrogate (unit : Nat) : Bool := 0xDC00 ≤ unit && unit < 0xE000

/-- The character of a surrogate pair. -/
def ofSurrogates (high low : Nat) : Char :=
  Char.ofNat (0x10000 + (high - 0xD800) * 0x400 + (low - 0xDC00))

/-- Reads the rest of a string up to its closing quote. Surrogates must be written in pairs and
control characters must be escaped. -/
def takeChars? : Reader (List Char)
  | '"' :: rest => some ([], rest)
  | '\\' :: 'u' :: a :: b :: c :: d :: rest =>
    match hexUnit? a b c d with
    | none => none
    | some unit =>
      if isHighSurrogate unit then
        match rest with
        | '\\' :: 'u' :: e :: f :: g :: h :: rest =>
          match hexUnit? e f g h with
          | none => none
          | some low =>
            if isLowSurrogate low then
              (takeChars? rest).map fun (chars, left) => (ofSurrogates unit low :: chars, left)
            else none
        | _ => none
      else if isLowSurrogate unit then none
      else (takeChars? rest).map fun (chars, left) => (Char.ofNat unit :: chars, left)
  | '\\' :: letter :: rest =>
    match escaped? letter with
    | none => none
    | some c => (takeChars? rest).map fun (chars, left) => (c :: chars, left)
  | c :: rest =>
    if c = '\\' || c.toNat < 0x20 then none
    else (takeChars? rest).map fun (chars, left) => (c :: chars, left)
  | [] => none

def takeString? : Reader String
  | '"' :: rest => (takeChars? rest).map fun (chars, left) => (String.ofList chars, left)
  | _ => none

/-! ## Containers -/

/-- Reads `item`s between commas up to a closing bracket. Each item takes at least one character,
so the length of the text bounds their number. -/
def takeItems? {α : Type} (item : Reader α) (close : Char) : Nat → Reader (List α)
  | 0, _ => none
  | fuel + 1, text => do
    let (first, rest) ← item (skipSpaces text)
    match skipSpaces rest with
    | [] => none
    | c :: rest =>
      if c = ',' then
        let (others, rest) ← takeItems? item close fuel rest
        return (first :: others, rest)
      else if c = close then return ([first], rest)
      else none

/-- Reads what follows an opening bracket, up to the closing one, with at most `limit` items. -/
def takeList? {α : Type} (item : Reader α) (close : Char) (limit : Nat) : Reader (List α) :=
  fun text =>
    match skipSpaces text with
    | [] => none
    | c :: rest => if c = close then some ([], rest) else takeItems? item close limit text

/-- Reads a key, a colon and a value. -/
def takeMember? (value : Reader Json) : Reader (String × Json) := fun text => do
  let (key, rest) ← takeString? text
  match skipSpaces rest with
  | ':' :: rest =>
    let (value, rest) ← value (skipSpaces rest)
    return ((key, value), rest)
  | _ => none

/-- Reads a value in which containers stand up to `depth` deep and have at most `limit` items. -/
def takeValue? (double? : Numeral → Option Double) (limit : Nat) : Nat → Reader Json
  | depth, text =>
    match text with
    | [] => none
    | 'n' :: _ => takeWord? "null" .null text
    | 't' :: _ => takeWord? "true" (.boolean true) text
    | 'f' :: _ => takeWord? "false" (.boolean false) text
    | '"' :: _ => (takeString? text).map fun (s, rest) => (.string s, rest)
    | '[' :: rest =>
      match depth with
      | 0 => none
      | depth + 1 =>
        (takeList? (takeValue? double? limit depth) ']' limit rest).map
          fun (items, left) => (.array items, left)
    | '\x7b' :: rest =>
      match depth with
      | 0 => none
      | depth + 1 =>
        (takeList? (takeMember? (takeValue? double? limit depth)) '\x7d' limit rest).map
          fun (members, left) => (.object members, left)
    | _ => takeNumber? double? text

/-- Reads a text that is one value, with spaces around it, as it is written. No container of it has
more items than the text has characters. -/
def readWritten? (double? : Numeral → Option Double) (text : String) : Option Json := do
  let (value, rest) ← takeValue? double? text.length 127 (skipSpaces text.toList)
  if (skipSpaces rest).isEmpty then some value else none

/-! ## Libraries -/

/-- What a text says. The wording of errors is not modelled. -/
def written (double? : Numeral → Option Double) (text : String) : Except String Json :=
  match readWritten? double? text with
  | some json => .ok json
  | none => .error ""

/-- A library with a given way to doubles. -/
def libraryBy (double? : Numeral → Option Double) : JsonLibrary where
  read text := (written double? text).map collapse
  render := render

/-- The library of the documentation. -/
def documentedLibrary : JsonLibrary := libraryBy nearestDouble?

/-- The library in use. -/
def library : JsonLibrary := libraryBy scaledDouble?

end Json

end ScriptCore
