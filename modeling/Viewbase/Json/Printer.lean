import Viewbase.Json.Value
import Viewbase.Number.Shortest
import Viewbase.Text.Hex

/-!
The compact text of a JSON value: no blanks, members in the order of their names.
-/

namespace Viewbase.Json

/-- Floats have a point from `0.00001` up to `10 ^ 16`; beyond, the exponent always has a sign. -/
def floatLayout : Decimal.Layout where
  lowest := -5
  limit := 16
  mark := ['e']
  plus := ['+']

def floatChars (x : Binary64) : List Char :=
  let digits :=
    if x.isZero then ['0', '.', '0'] else Decimal.write floatLayout (Decimal.shortest x.magnitude)
  if x.negative then '-' :: digits else digits

def integerChars (i : Int) : List Char :=
  if i < 0 then '-' :: Decimal.digitChars i.natAbs else Decimal.digitChars i.natAbs

def numeralChars : Numeral → List Char
  | .integer i => integerChars i
  | .float x => floatChars x

/-- One character inside a string: quotes, backslashes and the control characters below the blank
are escaped. -/
def escapedChar (c : Char) : List Char :=
  if c = '"' then ['\\', '"']
  else if c = '\\' then ['\\', '\\']
  else if c = '\x08' then ['\\', 'b']
  else if c = '\x0c' then ['\\', 'f']
  else if c = '\n' then ['\\', 'n']
  else if c = '\r' then ['\\', 'r']
  else if c = '\t' then ['\\', 't']
  else if c.toNat < 32 then '\\' :: 'u' :: Text.hexLow 4 c.toNat
  else [c]

def stringChars (s : String) : List Char :=
  '"' :: s.toList.flatMap escapedChar ++ ['"']

mutual

def chars : Json → List Char
  | .null => ['n', 'u', 'l', 'l']
  | .bool true => ['t', 'r', 'u', 'e']
  | .bool false => ['f', 'a', 'l', 's', 'e']
  | .number n => numeralChars n
  | .string s => stringChars s
  | .array items => '[' :: itemChars items ++ [']']
  | .object members => '\x7b' :: memberChars members ++ ['\x7d']

def itemChars : List Json → List Char
  | [] => []
  | [value] => value.chars
  | value :: next :: rest => value.chars ++ ',' :: itemChars (next :: rest)

def memberChars : List (String × Json) → List Char
  | [] => []
  | [(name, value)] => stringChars name ++ ':' :: value.chars
  | (name, value) :: next :: rest =>
    stringChars name ++ ':' :: value.chars ++ ',' :: memberChars (next :: rest)

end

/-- The compact text of a value. -/
def text (value : Json) : String :=
  String.ofList value.chars

end Viewbase.Json
