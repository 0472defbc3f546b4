import Viewbase.Text.Hex

/-!
Identities of indexes: 128-bit numbers.

They are written with hyphens, and read with or without, in braces, and as resource names.
-/

namespace Viewbase

/-- The identity of an index. -/
structure IndexId where
  number : Nat
  deriving DecidableEq, Repr

namespace IndexId

/-- The lengths of the groups of digits, save the last. -/
def groups : List Nat := [8, 4, 4, 4]

/-- Split a list behind the given numbers of items and put hyphens between the parts. -/
def hyphenate : List Nat → List Char → List Char
  | [], digits => digits
  | count :: counts, digits => digits.take count ++ '-' :: hyphenate counts (digits.drop count)

/-- Thirty-two lower-case hexadecimal digits in groups of 8, 4, 4, 4 and 12. -/
def text (id : IndexId) : String :=
  String.ofList (hyphenate groups (Text.hexLow 32 id.number))

/-- Take out the hyphens behind the given numbers of items; `none` if one is missing. -/
def unhyphenate? : List Nat → List Char → Option (List Char)
  | [], digits => some digits
  | count :: counts, digits =>
    match digits.drop count with
    | '-' :: rest => (unhyphenate? counts rest).map (digits.take count ++ ·)
    | _ => none

/-- What begins the resource name of an identity, in either case. -/
def resourceMark : List Char := ['u', 'r', 'n', ':', 'u', 'u', 'i', 'd', ':']

/-- What stands between braces, or behind the mark of a resource name; other texts as they are. -/
def unwrap (chars : List Char) : List Char :=
  match chars with
  | '\x7b' :: rest => if rest.getLast? = some '\x7d' then rest.dropLast else chars
  | _ =>
    if (chars.take resourceMark.length).map Char.toLower = resourceMark
    then chars.drop resourceMark.length else chars

/-- The digits of a text that may stand for an identity: thirty-two without hyphens, or with all of
them, and then also in braces or as a resource name. -/
def digits? (chars : List Char) : Option (List Char) :=
  if chars.length = 32 then some chars else unhyphenate? groups (unwrap chars)

/-- The identity that a text stands for, its digits being of either case. -/
def ofText? (text : String) : Option IndexId := do
  let digits ← digits? text.toList
  if digits.length = 32 then (Text.hexNumber? digits).map IndexId.mk else none

end IndexId

end Viewbase
