import Viewbase.Json.Value
import Viewbase.Number.Scaled
import Viewbase.Text.Hex

/-!
Strict reading of JSON text.

Every reader takes the characters left and answers what it read with the characters after it.
Arrays and objects may be nested 127 deep.
-/

namespace Viewbase.Json

def isSpace (c : Char) : Bool :=
  c == ' ' || c == '\n' || c == '\t' || c == '\r'

def skipSpace (input : List Char) : List Char :=
  input.dropWhile isSpace

def isDigit (c : Char) : Bool :=
  decide (48 ≤ c.toNat) && decide (c.toNat ≤ 57)

def digitValue (c : Char) : Nat :=
  c.toNat - 48

/-- The characters after a given word. -/
def afterWord? : List Char → List Char → Option (List Char)
  | [], input => some input
  | w :: word, c :: input => if w = c then afterWord? word input else none
  | _ :: _, [] => none

/-! ## Strings -/

/-- The character of a one-letter escape. -/
def escape? (c : Char) : Option Char :=
  match c with
  | '"' => some '"'
  | '\\' => some '\\'
  | '/' => some '/'
  | 'b' => some '\x08'
  | 'f' => some '\x0c'
  | 'n' => some '\n'
  | 'r' => some '\r'
  | 't' => some '\t'
  | _ => none

def isHighSurrogate (unit : Nat) : Bool :=
  decide (0xD800 ≤ unit) && decide (unit < 0xDC00)

def isLowSurrogate (unit : Nat) : Bool :=
  decide (0xDC00 ≤ unit) && decide (unit < 0xE000)

/-- The text up to the closing quote.  After the escape of a high surrogate the only thing that
may follow is the escape of a low one. -/
def readText : Option Nat → List Char → Option (List Char × List Char)
  | none, '"' :: rest => some ([], rest)
  | none, '\\' :: 'u' :: a :: b :: c :: d :: rest => do
    let unit ← Text.hexNumber? [a, b, c, d]
    if isHighSurrogate unit then readText (some unit) rest
    else if isLowSurrogate unit then none
    else
      let (text, rest) ← readText none rest
      some (Char.ofNat unit :: text, rest)
  | none, '\\' :: e :: rest => do
    let c ← escape? e
    let (text, rest) ← readText none rest
    some (c :: text, rest)
  | none, c :: rest =>
    if c.toNat < 32 ∨ c = '\\' then none
    else do
      let (text, rest) ← readText none rest
      some (c :: text, rest)
  | some high, '\\' :: 'u' :: a :: b :: c :: d :: rest => do
    let low ← Text.hexNumber? [a, b, c, d]
    if isLowSurrogate low then
      let (text, rest) ← readText none rest
      some (Char.ofNat (0x10000 + (high - 0xD800) * 0x400 + (low - 0xDC00)) :: text, rest)
    else none
  | _, _ => none

/-- The string whose opening quote comes first in the input. -/
def readString : List Char → Option (String × List Char)
  | '"' :: rest => (readText none rest).map fun (text, rest) => (String.ofList text, rest)
  | _ => none

/-! ## Numbers -/

/-- The parts of a number token. -/
structure NumberToken where
  negative : Bool
  whole : List Char
  /-- The digits after the point, if there is a point. -/
  fraction : Option (List Char)
  /-- The sign and the digits of the exponent, if there is one. -/
  exponent : Option (Bool × List Char)

/-- One or more digits. -/
def readDigits (input : List Char) : Option (List Char × List Char) :=
  match input.takeWhile isDigit with
  | [] => none
  | digits => some (digits, input.dropWhile isDigit)

def readFraction : List Char → Option (Option (List Char) × List Char)
  | '.' :: rest => (readDigits rest).map fun (digits, rest) => (some digits, rest)
  | input => some (none, input)

def readExponentDigits : List Char → Option ((Bool × List Char) × List Char)
  | '+' :: rest => (readDigits rest).map fun (digits, rest) => ((false, digits), rest)
  | '-' :: rest => (readDigits rest).map fun (digits, rest) => ((true, digits), rest)
  | rest => (readDigits rest).map fun (digits, rest) => ((false, digits), rest)

def readExponent : List Char → Option (Option (Bool × List Char) × List Char)
  | 'e' :: rest => (readExponentDigits rest).map fun (exponent, rest) => (some exponent, rest)
  | 'E' :: rest => (readExponentDigits rest).map fun (exponent, rest) => (some exponent, rest)
  | input => some (none, input)

/-- Digits before a point: a zero stands alone. -/
def readWhole (input : List Char) : Option (List Char × List Char) := do
  let (digits, rest) ← readDigits input
  match digits with
  | '0' :: _ :: _ => none
  | _ => some (digits, rest)

def readUnsigned (negative : Bool) (input : List Char) : Option (NumberToken × List Char) := do
  let (whole, rest) ← readWhole input
  let (fraction, rest) ← readFraction rest
  let (exponent, rest) ← readExponent rest
  some (⟨negative, whole, fraction, exponent⟩, rest)

def readNumberToken : List Char → Option (NumberToken × List Char)
  | '-' :: rest => readUnsigned true rest
  | input => readUnsigned false input

def digitsValue (digits : List Char) : Nat :=
  digits.foldl (fun total c => 10 * total + digitValue c) 0

/-- Append digits to a significand while it fits 64 bits; the digits left over come second. -/
def absorb (significand : Nat) : List Char → Nat × List Char
  | [] => (significand, [])
  | c :: rest =>
    let next := 10 * significand + digitValue c
    if next ≤ Binary64.lastWord then absorb next rest else (significand, c :: rest)

/-- The largest exponent that is told apart from a larger one. -/
def exponentLimit : Nat := 0x7FFFFFFF

/-- The float a token stands for.  Digits beyond the 64-bit significand count by their place
before the point and not at all after it. -/
def NumberToken.float? (token : NumberToken) : Option Binary64 := do
  let (significand, surplus) := absorb 0 token.whole
  let fraction := token.fraction.getD []
  let (significand, unread) := absorb significand fraction
  let start : Int := (surplus.length : Int) - ((fraction.length - unread.length : Nat) : Int)
  let size ← match token.exponent with
    | none => Binary64.scaled? significand start
    | some (negative, digits) =>
      let exponent := digitsValue digits
      if exponentLimit < exponent then
        if significand ≠ 0 ∧ negative = false then none else some Binary64.zero
      else
        Binary64.scaled? significand (if negative then start - exponent else start + exponent)
  some (if token.negative then size.negate else size)

/-- An integer without point and exponent is an integer where it fits, save that a negative zero
is a float. -/
def NumberToken.numeral? (token : NumberToken) : Option Numeral :=
  match token.fraction, token.exponent with
  | none, none =>
    let size := digitsValue token.whole
    let i : Int := if token.negative then -size else size
    if Numeral.minInteger ≤ i ∧ i ≤ Numeral.maxInteger ∧ ¬(token.negative ∧ size = 0) then
      some (.integer i)
    else token.float?.map .float
  | _, _ => token.float?.map .float

def readNumber (input : List Char) : Option (Numeral × List Char) := do
  let (token, rest) ← readNumberToken input
  some (← token.numeral?, rest)

/-! ## Values -/

/-- How deep arrays and objects may be nested. -/
def depthLimit : Nat := 127

mutual

def readValue : Nat → Nat → List Char → Option (Json × List Char)
  | 0, _, _ => none
  | fuel + 1, depth, input =>
    match skipSpace input with
    | [] => none
    | 'n' :: rest => (afterWord? ['u', 'l', 'l'] rest).map fun rest => (.null, rest)
    | 't' :: rest => (afterWord? ['r', 'u', 'e'] rest).map fun rest => (.bool true, rest)
    | 'f' :: rest => (afterWord? ['a', 'l', 's', 'e'] rest).map fun rest => (.bool false, rest)
    | '"' :: rest => (readString ('"' :: rest)).map fun (s, rest) => (.string s, rest)
    | '[' :: rest =>
      match depth with
      | 0 => none
      | depth + 1 =>
        match skipSpace rest with
        | ']' :: rest => some (.array [], rest)
        | rest => (readItems fuel depth rest).map fun (items, rest) => (.array items, rest)
    | '\x7b' :: rest =>
      match depth with
      | 0 => none
      | depth + 1 =>
        match skipSpace rest with
        | '\x7d' :: rest => some (.object [], rest)
        | rest => (readMembers fuel depth rest).map fun (members, rest) => (ofMembers members, rest)
    | rest => (readNumber rest).map fun (n, rest) => (.number n, rest)

/-- The items of a non-empty array, up to the closing bracket. -/
def readItems : Nat → Nat → List Char → Option (List Json × List Char)
  | 0, _, _ => none
  | fuel + 1, depth, input => do
    let (value, rest) ← readValue fuel depth input
    match skipSpace rest with
    | ',' :: rest =>
      let (items, rest) ← readItems fuel depth rest
      some (value :: items, rest)
    | ']' :: rest => some ([value], rest)
    | _ => none

/-- The members of a non-empty object, up to the closing brace. -/
def readMembers : Nat → Nat → List Char → Option (List (String × Json) × List Char)
  | 0, _, _ => none
  | fuel + 1, depth, input => do
    let (name, rest) ← readString (skipSpace input)
    match skipSpace rest with
    | ':' :: rest =>
      let (value, rest) ← readValue fuel depth rest
      match skipSpace rest with
      | ',' :: rest =>
        let (members, rest) ← readMembers fuel depth rest
        some ((name, value) :: members, rest)
      | '\x7d' :: rest => some ([(name, value)], rest)
      | _ => none
    | _ => none

end

/-- Enough fuel for any input: between two characters read there are at most two calls. -/
def readFuel (input : List Char) : Nat :=
  2 * input.length + 4

/-- The value a text stands for, if the text is one JSON value and white space. -/
def parse? (text : String) : Option Json :=
  let input := text.toList
  match readValue (readFuel input) depthLimit input with
  | some (value, rest) => if (skipSpace rest).isEmpty then some value else none
  | none => none

end Viewbase.Json
