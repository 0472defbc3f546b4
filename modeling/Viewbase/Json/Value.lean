import Viewbase.Number.Binary64
import Viewbase.Text.Order

/-!
JSON values.

An integer and a float are different values even where they stand for the same number.  The
members of an object are sorted by name, each name once.
-/

namespace Viewbase

/-- A JSON number: an integer of at most 64 bits, or a float. -/
inductive Numeral where
  | integer (i : Int)
  | float (x : Binary64)
  deriving DecidableEq, Repr

namespace Numeral

/-- The smallest and the largest integers a token can hold; others are floats. -/
def minInteger : Int := -0x8000000000000000

def maxInteger : Int := 0xFFFFFFFFFFFFFFFF

/-- The number as a float, rounded to nearest if it is an integer. -/
def toFloat : Numeral → Binary64
  | integer i => .ofInt i
  | float x => x

/-- Equality of row values: the two zeros among the floats are equal. -/
def same : Numeral → Numeral → Bool
  | integer i, integer j => i == j
  | float x, float y => x.sameNumber y
  | _, _ => false

end Numeral

inductive Json where
  | null
  | bool (b : Bool)
  | number (n : Numeral)
  | string (s : String)
  | array (items : List Json)
  | object (members : List (String × Json))
  deriving Inhabited

namespace Json

def integer (i : Int) : Json := .number (.integer i)

def nat (n : Nat) : Json := integer n

/-- The JSON form of a float; one that is not finite has none and becomes null. -/
def float (x : Binary64) : Json :=
  if x.isFinite then .number (.float x) else .null

/-- Add a member to sorted members, in place of one of the same name. -/
def insertMember (name : String) (value : Json) : List (String × Json) → List (String × Json)
  | [] => [(name, value)]
  | (other, old) :: rest =>
    match Text.order name other with
    | .lt => (name, value) :: (other, old) :: rest
    | .eq => (name, value) :: rest
    | .gt => (other, old) :: insertMember name value rest

/-- The object with the given members; of members with one name the last counts. -/
def ofMembers (members : List (String × Json)) : Json :=
  .object (members.foldl (fun sorted member => insertMember member.1 member.2 sorted) [])

/-- The member of an object with a given name. -/
def member? (name : String) : Json → Option Json
  | .object members => members.lookup name
  | _ => none

/-- The name of a choice without content: a string, or an object whose only member is null. -/
def choice? : Json → Option String
  | .string name => some name
  | .object [(name, .null)] => some name
  | _ => none

/-- The value reached by following member names. -/
def atPath? : List String → Json → Option Json
  | [], value => some value
  | name :: path, value => (value.member? name).bind (atPath? path)

mutual

/-- Equality of row values. -/
def same : Json → Json → Bool
  | .null, .null => true
  | .bool a, .bool b => a == b
  | .number a, .number b => a.same b
  | .string a, .string b => a == b
  | .array as, .array bs => sameItems as bs
  | .object as, .object bs => sameMembers as bs
  | _, _ => false

def sameItems : List Json → List Json → Bool
  | [], [] => true
  | a :: as, b :: bs => a.same b && sameItems as bs
  | _, _ => false

def sameMembers : List (String × Json) → List (String × Json) → Bool
  | [], [] => true
  | (m, a) :: as, (n, b) :: bs => m == n && a.same b && sameMembers as bs
  | _, _ => false

end

/-- The number a value holds, as a float. -/
def number? : Json → Option Binary64
  | .number n => some n.toFloat
  | _ => none

end Json

end Viewbase
