import Viewbase.Request

/-!
The parameters of a query, and the request they make.
-/

namespace Viewbase

structure Settings where
  skip : Nat
  limit : Option Nat
  startKey : Option Key
  endKey : Option Key
  startDoc : Option String
  endDoc : Option String
  /-- Exact keys; when they are given the bounds do not count. -/
  keys : Option (List Key)
  descending : Bool
  groupLevel : Nat
  mapOnly : Bool
  mode : DocumentMode
  stale : Staleness
  /-- Rows carry the bodies of their documents. -/
  prefetch : Bool

namespace Settings

/-- The settings of a new query: all rows, ascending, reduced if the index can reduce. -/
def initial (index : Option Descriptor) : Settings where
  skip := 0
  limit := none
  startKey := none
  endKey := none
  startDoc := none
  endDoc := none
  keys := none
  descending := false
  groupLevel := 0
  mapOnly := match index with
    | some index => !index.hasReduce
    | none => true
  mode := .all
  stale := .refreshBefore
  prefetch := false

def includeDeleted (settings : Settings) : Bool :=
  decide (settings.mode = .includeDeleted)

def setIncludeDeleted (settings : Settings) (on : Bool) : Settings :=
  { settings with mode := if on then .includeDeleted else .all }

def range (settings : Settings) : KeyRange where
  startKey := settings.startKey
  endKey := settings.endKey
  startDoc := settings.startDoc
  endDoc := settings.endDoc
  inclusiveEnd := true

def selection (settings : Settings) : Selection :=
  match settings.keys with
  | some keys => .keys keys
  | none => .range settings.range

/-- What is read for a query over an index, or over all documents. -/
def target (index : Option Descriptor) : Target :=
  match index with
  | some index => .index index.id
  | none => .documents

/-- The request of the settings as they are now. -/
def request (settings : Settings) (index : Option Descriptor) : Request where
  target := target index
  selection := settings.selection
  skip := settings.skip
  limit := settings.limit
  descending := settings.descending
  reduce := !settings.mapOnly
  reduceSpecified := true
  groupLevel := settings.groupLevel
  includeDocs := settings.prefetch
  updateSeq := true
  stale := settings.stale
  mode := settings.mode

end Settings

end Viewbase
