import Viewbase.Json.Value
import Viewbase.Key.Basic
import Viewbase.Text.Hex

/-!
Documents, their revisions, and the functions that make index rows out of them.
-/

namespace Viewbase

/-- A revision of a document: how many times it was written or deleted, and the generation of the
last time. -/
structure Revision where
  count : Nat
  generation : Nat
  deriving DecidableEq, Repr

namespace Revision

/-- The count in decimal, a hyphen, and the generation in at least eight hexadecimal digits. -/
def text (rev : Revision) : String :=
  String.ofList (Nat.toDigits 10 rev.count ++ '-' :: Text.hexPadded 8 rev.generation)

/-- The revision after `previous`, written at a generation. -/
def next (previous : Option Revision) (generation : Nat) : Revision :=
  ⟨(previous.map count).getD 0 + 1, generation⟩

end Revision

structure Document where
  id : String
  rev : Revision
  body : Json
  /-- A deleted document stays as a tombstone with an empty body. -/
  deleted : Bool
  /-- Revisions that lost to the current one. -/
  conflicts : List String

namespace Document

def isConflicted (doc : Document) : Bool :=
  !doc.conflicts.isEmpty

end Document

/-- What a document emits into an index, in order; `none` if the function crashes on it. -/
abbrev MapFunction := Document → Option (List (Key × Json))

/-- The aggregate of the keys and values of one group; `none` if the function crashes on it. -/
abbrev ReduceFunction := List Key → List Json → Option Json

namespace ReduceFunction

/-- The number of rows. -/
def count : ReduceFunction := fun keys _ =>
  some (.nat keys.length)

/-- The float sum of the numbers among the values, from left to right. -/
def total (values : List Json) : Binary64 :=
  (values.filterMap Json.number?).foldl Binary64.add .zero

/-- The integer nearest to `i` that 64 signed bits can hold. -/
def clamp (i : Int) : Int :=
  if i < -0x8000000000000000 then -0x8000000000000000
  else if 0x7FFFFFFFFFFFFFFF < i then 0x7FFFFFFFFFFFFFFF
  else i

/-- The total of the values: an integer if it is whole. -/
def sum : ReduceFunction := fun _ values =>
  let total := total values
  some (if total.isIntegral then .integer (clamp total.truncate) else .float total)

end ReduceFunction

end Viewbase
