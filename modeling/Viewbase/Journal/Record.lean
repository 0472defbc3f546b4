import Viewbase.Text.Order
import Viewbase.Text.Hex

/-!
Records of a journal, and the lines they are written as.

A line is one JSON object: the event, the severity, and then the fields in the order of their names.
All control characters are escaped, so the line ends in its only line feed.
-/

namespace Viewbase

inductive Severity where
  | trace
  | info
  | warn
  | error
  | fatal
  deriving DecidableEq, Repr

namespace Severity

def all : List Severity := [trace, info, warn, error, fatal]

def name : Severity → String
  | trace => "TRACE"
  | info => "INFO"
  | warn => "WARN"
  | error => "ERROR"
  | fatal => "FATAL"

def level : Severity → Nat
  | trace => 0
  | info => 1
  | warn => 2
  | error => 3
  | fatal => 4

/-- Records of the severity are kept when only those from `least` on are. -/
def reaches (severity least : Severity) : Bool :=
  decide (least.level ≤ severity.level)

/-- Records of failures go to the error output. -/
def isFailure (severity : Severity) : Bool :=
  severity.reaches .error

end Severity

/-- Something worth a record. -/
structure Record where
  severity : Severity
  event : String
  fields : List (String × String)

namespace Record

/-- The control characters: those below the blank, the delete character and those above it. -/
def isControl (c : Char) : Bool :=
  decide (c.toNat < 32) || (decide (127 ≤ c.toNat) && decide (c.toNat < 160))

def escapedChar (c : Char) : List Char :=
  if c = '"' then ['\\', '"']
  else if c = '\\' then ['\\', '\\']
  else if c = '\n' then ['\\', 'n']
  else if c = '\r' then ['\\', 'r']
  else if c = '\t' then ['\\', 't']
  else if isControl c then '\\' :: 'u' :: Text.hexLow 4 c.toNat
  else [c]

def quoted (text : String) : List Char :=
  '"' :: text.toList.flatMap escapedChar ++ ['"']

/-- Put a field before those that do not come before it by name. -/
def placeField (field : String × String) : List (String × String) → List (String × String)
  | [] => [field]
  | other :: rest =>
    match Text.order field.1 other.1 with
    | .gt => other :: placeField field rest
    | _ => field :: other :: rest

/-- The fields in the order of their names; fields of one name keep their order. -/
def sortFields : List (String × String) → List (String × String)
  | [] => []
  | field :: rest => placeField field (sortFields rest)

def fieldChars (field : String × String) : List Char :=
  ',' :: quoted field.1 ++ ':' :: quoted field.2

def lineChars (record : Record) : List Char :=
  ['\x7b'] ++ quoted "event" ++ ':' :: quoted record.event ++
    ',' :: quoted "severity" ++ ':' :: quoted record.severity.name ++
    (sortFields record.fields).flatMap fieldChars ++ ['\x7d', '\n']

/-- The record as one line with its line feed. -/
def line (record : Record) : String :=
  String.ofList record.lineChars

end Record

end Viewbase
