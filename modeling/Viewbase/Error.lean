import Viewbase.Descriptor
import Viewbase.Key.Basic
import Viewbase.Json.Printer

/-!
What can go wrong, by cause, and the wording of it.

Errors of the store concern an index or a document.  Errors of queries take these in, and an error
of the store that ends a query comes with the generation the query last saw.
-/

namespace Viewbase

/-- What was not there. -/
inductive Missing where
  | index (id : IndexId)
  | described (index : Descriptor)
  | document (id : String)
  | temporary (id : IndexId)
  | released
  | other (text : String)

namespace Missing

def text : Missing → String
  | index id => s!"index {id.text} not found"
  | described d => s!"index {d.label} not found"
  | document id => s!"document '{id}' not found"
  | temporary id => s!"temporary index {id.text} was deleted"
  | released => "temporary index was released by a disposed query"
  | other text => text

end Missing

/-- Why a scan could not be answered. -/
inductive ScanFault where
  | mapCrashed (index : Descriptor) (docId : String)
  | reduceCrashed (group : Key)
  | noReduce (index : Descriptor)
  | other (text : String)

namespace ScanFault

def text : ScanFault → String
  | mapCrashed d docId => s!"map function of {d.label} panicked on document '{docId}'"
  | reduceCrashed group => s!"reduce function panicked on group {group.toJson.text}"
  | noReduce d => s!"reduce requested but {d.label} has no reduce function"
  | other text => text

end ScanFault

/-- Failures that no caller is to blame for. -/
inductive Breakdown where
  | scanTask (reason : String)
  | other (text : String)

namespace Breakdown

def text : Breakdown → String
  | scanTask reason => s!"scan task failed: {reason}"
  | other text => text

end Breakdown

/-- Misuse of the lifetime of an index. -/
inductive Violation where
  | alreadyDeleted (id : IndexId)
  | inUse (id : IndexId)
  deriving DecidableEq, Repr

namespace Violation

def text : Violation → String
  | alreadyDeleted id => s!"index {id.text} was already deleted"
  | inUse id => s!"index {id.text} is still in use"

end Violation

/-- An error of the store. -/
inductive IndexError where
  | unavailable (cause : Missing)
  | scan (cause : ScanFault)
  | alreadyDeleted (id : IndexId)
  | inUse (id : IndexId)
  | internal (cause : Breakdown)

namespace IndexError

def code : IndexError → String
  | unavailable _ => "AERO_INDEX_UNAVAILABLE"
  | scan _ => "AERO_INDEX_SCAN_FAILED"
  | alreadyDeleted _ => "AERO_INDEX_ALREADY_DELETED"
  | inUse _ => "AERO_INDEX_IN_USE"
  | internal _ => "AERO_INDEX_INTERNAL"

def message : IndexError → String
  | unavailable cause => s!"Index unavailable: {cause.text}"
  | scan cause => s!"Scan failed: {cause.text}"
  | alreadyDeleted id => s!"Index {id.text} already deleted"
  | inUse id => s!"Index {id.text} is in use"
  | internal cause => s!"Internal error: {cause.text}"

/-- The error is a misuse of the lifetime of an index. -/
def isLifecycle : IndexError → Bool
  | alreadyDeleted _ => true
  | inUse _ => true
  | _ => false

end IndexError

/-- What a caller asked for that cannot be had. -/
inductive Invalid where
  | number (name raw : String)
  | negative (name raw : String)
  | groupLevel (raw : String)
  | boolean (name word : String)
  | json (name : String)
  | keysNotArray
  | stale (word : String)
  | configuration
  | noScans
  | copyOfDisposed
  | disposed
  | liveDisposed
  | other (text : String)

namespace Invalid

def text : Invalid → String
  | number name raw => s!"Invalid {name} value: {raw}"
  | negative name raw => s!"{name} must not be negative: {raw}"
  | groupLevel raw => s!"group_level out of range: {raw}"
  | boolean name word => s!"Invalid {name} value: {word} (expected true or false)"
  | json name => s!"Invalid {name} JSON: not a JSON text"
  | keysNotArray => "keys must be a JSON array"
  | stale word => s!"Invalid stale value: {word}"
  | configuration => "invalid configuration: not a configuration"
  | noScans => "dispatch.max_concurrent_scans must be at least 1"
  | copyOfDisposed => "cannot copy a disposed query"
  | disposed => "query was disposed"
  | liveDisposed => "live query was disposed"
  | other text => text

end Invalid

/-- Why a query cannot be made live. -/
inductive Unconvertible where
  | noIndex
  | other (text : String)

namespace Unconvertible

def text : Unconvertible → String
  | noIndex => "live queries need an index; the built-in document enumeration has none"
  | other text => text

end Unconvertible

/-- An error of a query. -/
inductive QueryError where
  | validation (cause : Invalid)
  | conversion (cause : Unconvertible)
  | lifecycle (cause : Violation)
  | unavailable (cause : Missing)
  | scan (cause : ScanFault)
  /-- A failure of the store, with the generation the query had last seen. -/
  | execution (generation : Option Nat) (source : QueryError)
  | cancelled
  | internal (cause : Breakdown)

namespace QueryError

/-- An error of the store in the terms of queries. -/
def ofIndexError : IndexError → QueryError
  | .unavailable cause => .unavailable cause
  | .scan cause => .scan cause
  | .alreadyDeleted id => .lifecycle (.alreadyDeleted id)
  | .inUse id => .lifecycle (.inUse id)
  | .internal cause => .internal cause

/-- Give an error the generation known at the time; one that has a generation layer keeps it. -/
def wrap (generation : Option Nat) : QueryError → QueryError
  | execution known source => execution known source
  | error => execution generation error

/-- The innermost error. -/
def root : QueryError → QueryError
  | execution _ source => source.root
  | error => error

/-- The generation of the outermost layer, if it has one. -/
def generation? : QueryError → Option Nat
  | execution generation _ => generation
  | _ => none

def code : QueryError → String
  | validation _ => "AERO_QUERY_VALIDATION"
  | conversion _ => "AERO_INVALID_CONVERSION"
  | lifecycle _ => "AERO_LIFECYCLE_VIOLATION"
  | unavailable _ => "AERO_INDEX_UNAVAILABLE"
  | scan _ => "AERO_SCAN_FAILED"
  | execution _ _ => "AERO_QUERY_EXECUTION"
  | cancelled => "AERO_QUERY_CANCELLED"
  | internal _ => "AERO_QUERY_INTERNAL"

def message : QueryError → String
  | validation cause => s!"Validation error: {cause.text}"
  | conversion cause => s!"Invalid conversion: {cause.text}"
  | lifecycle cause => s!"Lifecycle error: {cause.text}"
  | unavailable cause => s!"Index unavailable: {cause.text}"
  | scan cause => s!"Scan error: {cause.text}"
  | execution none source => s!"Query execution failed: {source.message}"
  | execution (some generation) source =>
    s!"Query execution failed at generation {generation}: {source.message}"
  | cancelled => "Query cancelled"
  | internal cause => s!"Internal error: {cause.text}"

/-- A misuse of the lifetime of an index is fatal, in however many layers it comes. -/
def isFatal (error : QueryError) : Bool :=
  match error.root with
  | lifecycle _ => true
  | _ => false

end QueryError

end Viewbase
