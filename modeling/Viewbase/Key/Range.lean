import Viewbase.Key.Basic

/-!
Ranges of row positions.

A row position is a key and a document id.  A bound always names a key; a bound that names a
document id too tells apart the rows of that key.
-/

namespace Viewbase

/-- A range of row positions.  The start is the bound that a scan reaches first: the lower bound of
an ascending scan and the upper bound of a descending one.  A document id without a key beside it
bounds nothing. -/
structure KeyRange where
  startKey : Option Key
  endKey : Option Key
  startDoc : Option String
  endDoc : Option String
  inclusiveEnd : Bool

namespace KeyRange

/-- The range of all rows. -/
def unbounded : KeyRange where
  startKey := none
  endKey := none
  startDoc := none
  endDoc := none
  inclusiveEnd := true

/-- The range of the rows of one key. -/
def point (key : Key) : KeyRange where
  startKey := some key
  endKey := some key
  startDoc := none
  endDoc := none
  inclusiveEnd := true

def isUnbounded (range : KeyRange) : Bool :=
  range.startKey.isNone && range.endKey.isNone && range.startDoc.isNone && range.endDoc.isNone &&
    range.inclusiveEnd

/-- Where a row lies relative to a bound. -/
def orderBound (key : Key) (docId : String) (bound : Key) (boundDoc : Option String) : Ordering :=
  (key.order bound).then <|
    match boundDoc with
    | some boundDoc => Text.order docId boundDoc
    | none => .eq

/-- An order as a scan in the given direction meets it. -/
def directed (descending : Bool) (order : Ordering) : Ordering :=
  if descending then order.swap else order

/-- The row is not before the start. -/
def reachesStart (range : KeyRange) (descending : Bool) (key : Key) (docId : String) : Bool :=
  match range.startKey with
  | none => true
  | some bound => directed descending (orderBound key docId bound range.startDoc) != .lt

/-- The row is not past the end. -/
def withinEnd (range : KeyRange) (descending : Bool) (key : Key) (docId : String) : Bool :=
  match range.endKey with
  | none => true
  | some bound =>
    match directed descending (orderBound key docId bound range.endDoc) with
    | .lt => true
    | .eq => range.inclusiveEnd
    | .gt => false

/-- The row lies in the range of a scan in the given direction. -/
def contains (range : KeyRange) (descending : Bool) (key : Key) (docId : String) : Bool :=
  range.reachesStart descending key docId && range.withinEnd descending key docId

theorem contains_unbounded (descending : Bool) (key : Key) (docId : String) :
    unbounded.contains descending key docId = true :=
  rfl

end KeyRange

end Viewbase
