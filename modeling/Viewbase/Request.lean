import Viewbase.Key.Range
import Viewbase.Descriptor
import Viewbase.Document

/-!
What a scan is asked for, and the rows it answers with.
-/

namespace Viewbase

/-- When a view is brought up to date, relative to a scan of it. -/
inductive Staleness where
  | refreshBefore
  | neverRefresh
  | refreshAfter
  deriving DecidableEq, Repr

namespace Staleness

def all : List Staleness := [refreshBefore, neverRefresh, refreshAfter]

def name : Staleness → String
  | refreshBefore => "refresh_before"
  | neverRefresh => "never_refresh"
  | refreshAfter => "refresh_after"

/-- The policy that a JSON value names. -/
def ofJson? (value : Json) : Option Staleness :=
  value.choice?.bind fun choice => all.find? fun policy => policy.name == choice

end Staleness

/-- Which documents the built-in enumeration shows. -/
inductive DocumentMode where
  /-- Every document that is not deleted. -/
  | all
  | includeDeleted
  /-- Every document that is not deleted, with its conflicting revisions. -/
  | showConflicts
  /-- Only conflicted documents, with their conflicting revisions. -/
  | onlyConflicts
  deriving DecidableEq, Repr

namespace DocumentMode

def every : List DocumentMode := [all, includeDeleted, showConflicts, onlyConflicts]

def name : DocumentMode → String
  | all => "all"
  | includeDeleted => "include_deleted"
  | showConflicts => "show_conflicts"
  | onlyConflicts => "only_conflicts"

/-- The mode that a JSON value names. -/
def ofJson? (value : Json) : Option DocumentMode :=
  value.choice?.bind fun choice => every.find? fun mode => mode.name == choice

/-- Whether a document appears in the enumeration. -/
def shows (mode : DocumentMode) (doc : Document) : Bool :=
  match mode with
  | all => !doc.deleted
  | includeDeleted => true
  | showConflicts => !doc.deleted
  | onlyConflicts => !doc.deleted && doc.isConflicted

/-- Whether rows carry conflicting revisions. -/
def tellsConflicts : DocumentMode → Bool
  | showConflicts => true
  | onlyConflicts => true
  | _ => false

end DocumentMode

/-- What a scan reads: an index, or the built-in enumeration of all documents. -/
inductive Target where
  | index (id : IndexId)
  | documents
  deriving DecidableEq, Repr

namespace Target

def label : Target → String
  | index id => id.text
  | documents => "all_docs"

end Target

/-- Which rows a scan selects. -/
inductive Selection where
  /-- The rows of these keys, in the order of the list. -/
  | keys (keys : List Key)
  | range (range : KeyRange)

structure Request where
  target : Target
  selection : Selection
  skip : Nat
  /-- At most so many rows; unbounded if absent. -/
  limit : Option Nat
  descending : Bool
  reduce : Bool
  /-- Whether `reduce` was asked for expressly. -/
  reduceSpecified : Bool
  groupLevel : Nat
  includeDocs : Bool
  /-- Whether the generation of the rows is asked for. -/
  updateSeq : Bool
  stale : Staleness
  mode : DocumentMode

/-- A row of an answer.  Aggregates have no document id. -/
structure Row where
  key : Key
  value : Json
  docId : Option String
  document : Option Json
  conflicts : Option (List String)

namespace Row

/-- The row a document emitted. -/
def mapped (key : Key) (value : Json) (docId : String) : Row :=
  ⟨key, value, some docId, none, none⟩

/-- The row of a group. -/
def aggregate (key : Key) (value : Json) : Row :=
  ⟨key, value, none, none, none⟩

def isReduced (row : Row) : Bool :=
  row.docId.isNone

def sameDocument : Option Json → Option Json → Bool
  | none, none => true
  | some a, some b => a.same b
  | _, _ => false

/-- Equality of rows. -/
def same (a b : Row) : Bool :=
  a.key.same b.key && a.value.same b.value && a.docId == b.docId &&
    sameDocument a.document b.document && a.conflicts == b.conflicts

end Row

/-- The rows of one scan and the generation they were read at. -/
structure Answer where
  rows : List Row
  generation : Nat

namespace Answer

/-- The database has moved past the generation of the rows. -/
def isStale (answer : Answer) (current : Nat) : Bool :=
  decide (answer.generation < current)

def sameRowLists : List Row → List Row → Bool
  | [], [] => true
  | a :: as, b :: bs => a.same b && sameRowLists as bs
  | _, _ => false

/-- Row for row equality, whatever the generations. -/
def sameRows (a b : Answer) : Bool :=
  sameRowLists a.rows b.rows

end Answer

/-- The items after `skip`, at most `limit` of them. -/
def page {α : Type} (skip : Nat) (limit : Option Nat) (items : List α) : List α :=
  match limit with
  | none => items.drop skip
  | some limit => (items.drop skip).take limit

end Viewbase
