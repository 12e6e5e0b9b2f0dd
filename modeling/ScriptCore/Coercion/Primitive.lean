import ScriptCore.Number.Reading
import ScriptCore.Text.Units
import ScriptCore.Value

/-! # Coercion and comparison of primitives

As a number null is 0 and undefined is not a number. Loose equality brings booleans to numbers
first and then strings; null and undefined equal each other and nothing else. The order is that of
UTF-16 units between two strings and that of numbers otherwise. A sum with a string is a text.
-/

namespace ScriptCore

namespace Primitive

def toNumber : Primitive → Double
  | null => 0
  | undefined => .nan
  | boolean b => if b then 1 else 0
  | number n => n
  | string s => .ofText s

def text : Primitive → String
  | null => "null"
  | undefined => "undefined"
  | boolean b => if b then "true" else "false"
  | number n => n.text
  | string s => s

def isTruthy : Primitive → Bool
  | null | undefined => false
  | boolean b => b
  | number n => !n.isZero && !n.isNaN
  | string s => !s.isEmpty

def strictEquals : Primitive → Primitive → Bool
  | null, null | undefined, undefined => true
  | boolean a, boolean b => a == b
  | number a, number b => a.equals b
  | string a, string b => a == b
  | _, _ => false

/-- Loose equality of a number and a primitive that is not a boolean. -/
def numberEquals (n : Double) : Primitive → Bool
  | number m => n.equals m
  | string s => n.equals (.ofText s)
  | _ => false

def looseEquals : Primitive → Primitive → Bool
  | boolean a, boolean b => a == b
  | string a, string b => a == b
  | null, y | undefined, y => y.isNullish
  | boolean a, y => numberEquals (boolean a).toNumber y
  | number n, boolean b => n.equals (boolean b).toNumber
  | number n, y => numberEquals n y
  | string s, boolean b => numberEquals (boolean b).toNumber (string s)
  | string s, number n => numberEquals n (string s)
  | string _, _ => false

def less : Primitive → Primitive → Bool
  | string a, string b => textBefore a b
  | x, y => x.toNumber.less y.toNumber

/-- Addition, which joins texts as soon as one side is a string. -/
def add (x y : Primitive) : Primitive :=
  match x, y with
  | string _, _ | _, string _ => string (x.text ++ y.text)
  | _, _ => number (x.toNumber + y.toNumber)

end Primitive

end ScriptCore
