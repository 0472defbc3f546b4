import Viewbase.Journal.Record

/-!
The events of the query layer, and the journal that keeps them.
-/

namespace Viewbase

inductive Event where
  | queryExecuted
  | queryFailed
  | querySubmitted
  | queryCancelled
  | liveStarted
  | liveStopped
  | liveRefreshed
  | liveRefreshFailed
  | temporaryCreated
  | temporaryDeleted
  /-- The last share of a temporary index was given up without being asked for. -/
  | temporaryReleased
  /-- A temporary index was deleted twice, or while it was in use. -/
  | temporaryViolation
  | configLoaded
  deriving DecidableEq, Repr

namespace Event

def name : Event → String
  | queryExecuted => "QUERY_EXECUTED"
  | queryFailed => "QUERY_FAILED"
  | querySubmitted => "QUERY_SUBMITTED"
  | queryCancelled => "QUERY_CANCELLED"
  | liveStarted => "LIVE_QUERY_STARTED"
  | liveStopped => "LIVE_QUERY_STOPPED"
  | liveRefreshed => "LIVE_QUERY_REFRESHED"
  | liveRefreshFailed => "LIVE_QUERY_REFRESH_FAILED"
  | temporaryCreated => "TEMP_INDEX_CREATED"
  | temporaryDeleted => "TEMP_INDEX_DELETED"
  | temporaryReleased => "TEMP_INDEX_RELEASED_ON_DROP"
  | temporaryViolation => "TEMP_INDEX_LIFECYCLE_VIOLATION"
  | configLoaded => "CONFIG_LOADED"

def isFatal : Event → Bool
  | temporaryViolation => true
  | _ => false

def isFailure : Event → Bool
  | queryFailed => true
  | liveRefreshFailed => true
  | temporaryViolation => true
  | _ => false

def severity (event : Event) : Severity :=
  if event.isFatal then .fatal else if event.isFailure then .error else .info

/-- The record of an event. -/
def record (event : Event) (fields : List (String × String)) : Record :=
  ⟨event.severity, event.name, fields⟩

end Event

/-- The records kept so far, oldest first, and the least severity that is kept. -/
structure Journal where
  least : Severity
  records : List Record

namespace Journal

def empty (least : Severity) : Journal :=
  ⟨least, []⟩

/-- Keep a record if it is severe enough. -/
def keep (journal : Journal) (record : Record) : Journal :=
  if record.severity.reaches journal.least then
    { journal with records := journal.records ++ [record] }
  else journal

def note (journal : Journal) (event : Event) (fields : List (String × String)) : Journal :=
  journal.keep (event.record fields)

end Journal

end Viewbase
