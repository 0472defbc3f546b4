import Viewbase.Error
import Viewbase.Json.Reader
import Viewbase.Journal.Event

/-!
The configuration of a database, read from JSON text.

Members that are not known are skipped unread, however deep and large; a known one may appear only
once.  An array may stand for an object, its items being the known members in order.
-/

namespace Viewbase

/-- The configuration of a database. -/
structure Config where
  /-- Background scans that may run at once. -/
  maxConcurrentScans : Nat := 4
  /-- Milliseconds between a change and the refresh it causes. -/
  updateInterval : Nat := 200
  deriving DecidableEq, Repr

namespace Config

/-- Every change refreshes at once. -/
def immediate : Config := { updateInterval := 0 }

/-! ## Skipping -/

/-- The rest after the closing quote of a string that nobody reads: escapes need only be well
formed. -/
def skipText : List Char → Option (List Char)
  | '"' :: rest => some rest
  | '\\' :: 'u' :: a :: b :: c :: d :: rest => do
    let _ ← Text.hexNumber? [a, b, c, d]
    skipText rest
  | '\\' :: e :: rest => do
    let _ ← Json.escape? e
    skipText rest
  | c :: rest => if c.toNat < 32 ∨ c = '\\' then none else skipText rest
  | [] => none

def skipString : List Char → Option (List Char)
  | '"' :: rest => skipText rest
  | _ => none

mutual

/-- The rest after a value that nobody reads. -/
def skipValue : Nat → List Char → Option (List Char)
  | 0, _ => none
  | fuel + 1, input =>
    match Json.skipSpace input with
    | [] => none
    | 'n' :: rest => Json.afterWord? ['u', 'l', 'l'] rest
    | 't' :: rest => Json.afterWord? ['r', 'u', 'e'] rest
    | 'f' :: rest => Json.afterWord? ['a', 'l', 's', 'e'] rest
    | '"' :: rest => skipText rest
    | '[' :: rest =>
      match Json.skipSpace rest with
      | ']' :: rest => some rest
      | rest => skipItems fuel rest
    | '\x7b' :: rest =>
      match Json.skipSpace rest with
      | '\x7d' :: rest => some rest
      | rest => skipMembers fuel rest
    | rest => (Json.readNumberToken rest).map Prod.snd

def skipItems : Nat → List Char → Option (List Char)
  | 0, _ => none
  | fuel + 1, input => do
    let rest ← skipValue fuel input
    match Json.skipSpace rest with
    | ',' :: rest => skipItems fuel rest
    | ']' :: rest => some rest
    | _ => none

def skipMembers : Nat → List Char → Option (List Char)
  | 0, _ => none
  | fuel + 1, input => do
    let rest ← skipString (Json.skipSpace input)
    match Json.skipSpace rest with
    | ':' :: rest =>
      let rest ← skipValue fuel rest
      match Json.skipSpace rest with
      | ',' :: rest => skipMembers fuel rest
      | '\x7d' :: rest => some rest
      | _ => none
    | _ => none

end

/-! ## Reading -/

/-- A reader of one value. -/
abbrev Reader (α : Type) := List Char → Option (α × List Char)

/-- A known member: its name, and how its value is taken in. -/
structure Field (α : Type) where
  name : String
  read : α → Reader α

/-- Take the members of a non-empty object in, given the fields not seen yet and those seen. -/
def readMembers {α : Type} (seen : List String) (fields : List (Field α)) (target : α) :
    Nat → Reader α
  | 0, _ => none
  | fuel + 1, input => do
    let (name, rest) ← Json.readString (Json.skipSpace input)
    match Json.skipSpace rest with
    | ':' :: rest =>
      if seen.contains name then none
      else
        let known := fields.find? fun field => field.name == name
        let (target, rest) ← match known with
          | some field => field.read target rest
          | none => (skipValue (Json.readFuel rest) rest).map fun rest => (target, rest)
        let seen := if known.isSome then name :: seen else seen
        match Json.skipSpace rest with
        | ',' :: rest => readMembers seen fields target fuel rest
        | '\x7d' :: rest => some (target, rest)
        | _ => none
    | _ => none

/-- Take the items of an array in as the fields in order; items may be missing but not left over. -/
def readItems {α : Type} (first : Bool) (target : α) : List (Field α) → Reader α
  | fields, input =>
    match Json.skipSpace input with
    | ']' :: rest => some (target, rest)
    | rest =>
      match fields with
      | [] => none
      | field :: fields =>
        let item? := if first then some rest else match rest with
          | ',' :: rest => some rest
          | _ => none
        match item? with
        | none => none
        | some item =>
          match Json.skipSpace item with
          | ']' :: _ => none
          | item =>
            match field.read target item with
            | none => none
            | some (target, rest) => readItems false target fields rest

/-- A structure: an object of the known members, or an array of them. -/
def readFields {α : Type} (fields : List (Field α)) (target : α) : Reader α := fun input =>
  match Json.skipSpace input with
  | '[' :: rest => readItems true target fields rest
  | '\x7b' :: rest =>
    match Json.skipSpace rest with
    | '\x7d' :: rest => some (target, rest)
    | rest => readMembers [] fields target (Json.readFuel rest) rest
  | _ => none

/-- A natural number of at most 64 bits, written as an integer. -/
def readNat : Reader Nat := fun input =>
  match Json.readNumber (Json.skipSpace input) with
  | some (.integer i, rest) => if 0 ≤ i then some (i.toNat, rest) else none
  | _ => none

def scansField : Field Config where
  name := "max_concurrent_scans"
  read config input :=
    (readNat input).map fun (n, rest) => ({ config with maxConcurrentScans := n }, rest)

def intervalField : Field Config where
  name := "update_interval_ms"
  read config input :=
    (readNat input).map fun (n, rest) => ({ config with updateInterval := n }, rest)

def dispatchField : Field Config where
  name := "dispatch"
  read config := readFields [scansField] config

def liveField : Field Config where
  name := "live_query"
  read config := readFields [intervalField] config

/-- The configuration a text holds, if it is one configuration and white space. -/
def read? (text : String) : Option Config :=
  match readFields [dispatchField, liveField] {} text.toList with
  | some (config, rest) => if (Json.skipSpace rest).isEmpty then some config else none
  | none => none

/-- A database needs room for at least one background scan. -/
def validate (config : Config) : Except QueryError Unit :=
  if config.maxConcurrentScans = 0 then .error (.validation .noScans) else .ok ()

/-- Read and validate a configuration. -/
def parse (text : String) : Except QueryError Config :=
  match read? text with
  | none => .error (.validation .configuration)
  | some config =>
    match config.validate with
    | .error error => .error error
    | .ok () => .ok config

/-- Read and validate a configuration, and keep a record of a good one. -/
def load (text : String) (journal : Journal) : Journal × Except QueryError Config :=
  match parse text with
  | .error error => (journal, .error error)
  | .ok config =>
    (journal.note .configLoaded
      [("max_concurrent_scans", toString config.maxConcurrentScans),
       ("update_interval_ms", toString config.updateInterval)], .ok config)

/-- The configuration as JSON. -/
def toJson (config : Config) : Json :=
  Json.ofMembers
    [("dispatch", Json.ofMembers [("max_concurrent_scans", .nat config.maxConcurrentScans)]),
     ("live_query", Json.ofMembers [("update_interval_ms", .nat config.updateInterval)])]

end Config

end Viewbase
