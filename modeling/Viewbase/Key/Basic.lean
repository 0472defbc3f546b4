import Viewbase.Json.Value

/-!
Keys of index rows, and their collation.

Keys of different kinds order as null, booleans, numbers, strings, arrays, objects.  Arrays compare
item by item and a proper initial part comes before every extension of it, so the rows of one group
lie side by side.
-/

namespace Viewbase

/-- A key emitted into an index, or a bound of a scan.  A number is held by its rank. -/
inductive Key where
  | null
  | bool (b : Bool)
  | number (rank : UInt64)
  | string (s : String)
  | array (items : List Key)
  | object (members : List (String × Key))
  deriving Inhabited

namespace Key

/-- The key of a number; the two zeros have one key. -/
def ofNumber (x : Binary64) : Key :=
  .number (if x.isZero then Binary64.zero.rank else x.rank)

/-- The number a number key was made from. -/
def number? : Key → Option Binary64
  | .number rank => some (Binary64.ofRank rank)
  | _ => none

def string? : Key → Option String
  | .string s => some s
  | _ => none

/-- The place of a key's kind in the collation. -/
def kind : Key → Nat
  | .null => 0
  | .bool _ => 1
  | .number _ => 2
  | .string _ => 3
  | .array _ => 4
  | .object _ => 5

mutual

/-- The collation of keys. -/
def order : Key → Key → Ordering
  | .bool a, .bool b => orderNat a.toNat b.toNat
  | .number a, .number b => orderNat a.toNat b.toNat
  | .string a, .string b => Text.order a b
  | .array as, .array bs => orderItems as bs
  | .object as, .object bs => orderMembers as bs
  | a, b => orderNat a.kind b.kind

def orderItems : List Key → List Key → Ordering
  | [], [] => .eq
  | [], _ :: _ => .lt
  | _ :: _, [] => .gt
  | a :: as, b :: bs => (order a b).then (orderItems as bs)

def orderMembers : List (String × Key) → List (String × Key) → Ordering
  | [], [] => .eq
  | [], _ :: _ => .lt
  | _ :: _, [] => .gt
  | (m, a) :: as, (n, b) :: bs =>
    ((Text.order m n).then (order a b)).then (orderMembers as bs)

end

/-- Two keys collate alike. -/
def same (a b : Key) : Bool :=
  a.order b == .eq

/-- The key of the group a key falls into: arrays are cut to `level` items, and every other key is
a group of its own. -/
def truncate (level : Nat) : Key → Key
  | .array items => .array (items.take level)
  | key => key

theorem truncate_truncate (m n : Nat) (key : Key) :
    (key.truncate m).truncate n = key.truncate (min n m) := by
  cases key <;> simp [truncate, List.take_take]

mutual

/-- The key of a JSON value; every value has one. -/
def ofJson : Json → Key
  | .null => .null
  | .bool b => .bool b
  | .number n => ofNumber n.toFloat
  | .string s => .string s
  | .array items => .array (ofItems items)
  | .object members => .object (ofMembers members)

def ofItems : List Json → List Key
  | [] => []
  | value :: rest => ofJson value :: ofItems rest

def ofMembers : List (String × Json) → List (String × Key)
  | [] => []
  | (name, value) :: rest => (name, ofJson value) :: ofMembers rest

end

/-- The JSON form of a number: an integer if it is whole and less than `2 ^ 63` in size. -/
def numberToJson (x : Binary64) : Json :=
  if x.isIntegral ∧ x.truncate.natAbs < Binary64.signBit then .integer x.truncate else .float x

mutual

/-- The JSON form of a key; members of an object that are out of order come sorted. -/
def toJson : Key → Json
  | .null => .null
  | .bool b => .bool b
  | .number rank => numberToJson (Binary64.ofRank rank)
  | .string s => .string s
  | .array items => .array (toItems items)
  | .object members => .ofMembers (toMembers members)

def toItems : List Key → List Json
  | [] => []
  | key :: rest => toJson key :: toItems rest

def toMembers : List (String × Key) → List (String × Json)
  | [] => []
  | (name, key) :: rest => (name, toJson key) :: toMembers rest

end

end Key

end Viewbase
