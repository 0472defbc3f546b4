import Viewbase.Query.Run
import Viewbase.Store.Basic

/-!
Live queries.

A live query runs when it is started and again when its index may have changed.  However many
changes come while a run is due or under way, one more run follows.  Each start and each stop opens
a new epoch, and what belongs to an earlier epoch is ignored.
-/

namespace Viewbase

inductive Phase where
  | stopped
  /-- The first run is due or under way. -/
  | awaitingInitial (again : Bool)
  /-- No run is due. -/
  | idle
  /-- A further run is due or under way. -/
  | requerying (again : Bool)
  deriving DecidableEq, Repr

/-- What listeners are told: the latest good rows, and the error if the run failed. -/
structure Refreshed where
  rows : Option Answer
  error : Option QueryError

structure LiveQuery where
  index : Descriptor
  /-- The query of its own that it runs. -/
  query : Nat
  phase : Phase
  epoch : Nat
  token : Option Token
  /-- The run under way. -/
  running : Option Nat
  /-- The latest good rows. -/
  rows : Option Answer
  /-- The error of the last run, if it failed. -/
  lastError : Option QueryError
  /-- What waiters are told: the latest good rows, or the error of a run before there were any. -/
  result : Option Outcome
  /-- Callbacks of the client, in the order they were added. -/
  listeners : List Nat
  disposed : Bool
  /-- The client still holds it. -/
  held : Bool

namespace LiveQuery

def new (index : Descriptor) (query : Nat) : LiveQuery :=
  ⟨index, query, .stopped, 0, none, none, none, none, none, [], false, true⟩

def isRunning (live : LiveQuery) : Bool :=
  decide (live.phase ≠ .stopped)

/-- What belongs to an epoch is still of use. -/
def isCurrent (live : LiveQuery) (epoch : Nat) : Bool :=
  live.epoch == epoch && live.isRunning

/-! ## Changes -/

/-- What a change calls for. -/
inductive Reaction where
  | ignore
  /-- A run must be scheduled. -/
  | launch
  /-- The run that follows the present one will see it. -/
  | remember
  /-- That run was to follow anyway. -/
  | coalesce
  deriving DecidableEq, Repr

/-- What a change calls for in a phase, given the generation of the last run. -/
def react (phase : Phase) (last : Option Nat) (generation : Nat) : Reaction :=
  match phase with
  | .stopped => .ignore
  | .idle =>
    match last with
    | some seen => if generation ≤ seen then .ignore else .launch
    | none => .launch
  | .awaitingInitial again => if again then .coalesce else .remember
  | .requerying again => if again then .coalesce else .remember

/-- The phase with one more run remembered. -/
def remembering : Phase → Phase
  | .awaitingInitial _ => .awaitingInitial true
  | .requerying _ => .requerying true
  | phase => phase

/-- A further run is to follow the present one. -/
def wantsAgain : Phase → Bool
  | .awaitingInitial again => again
  | .requerying again => again
  | _ => false

/-! ## Results -/

/-- What is to be told of a run that was not discarded. -/
inductive Verdict where
  /-- The rows are those of the last good run. -/
  | unchanged
  | refreshed (answer : Answer)
  | failed (error : QueryError)
  | cancelled

/-- The rows of an answer are those that the query has. -/
def hasRows (live : LiveQuery) (answer : Answer) : Bool :=
  match live.rows with
  | some old => old.sameRows answer
  | none => false

def judge (live : LiveQuery) : Outcome → Verdict
  | .ok answer => if live.hasRows answer then .unchanged else .refreshed answer
  | .error .cancelled => .cancelled
  | .error error => .failed error

/-- Take the outcome of a run in.  Good rows are kept over failures. -/
def absorb (live : LiveQuery) : Verdict → LiveQuery
  | .unchanged => { live with lastError := none }
  | .refreshed answer =>
    { live with lastError := none, rows := some answer, result := some (.ok answer) }
  | .failed error =>
    { live with
      lastError := some error
      result := if live.rows.isNone then some (.error error) else live.result }
  | .cancelled => live

/-- What listeners are told of a run, once it is taken in. -/
def announcement? (live : LiveQuery) : Verdict → Option Refreshed
  | .refreshed answer => some ⟨some answer, none⟩
  | .failed error => some ⟨live.rows, some error⟩
  | _ => none

end LiveQuery

/-- How far the task of one refresh has come. -/
inductive RefreshStage where
  /-- It has not begun; it is to wait so many milliseconds first. -/
  | launched (delay : Nat)
  | sleeping
  /-- The wait is over. -/
  | due
  /-- Its run was submitted. -/
  | awaiting (run : Nat)
  | over
  deriving DecidableEq, Repr

/-- The task of one refresh of a live query. -/
structure Refresh where
  live : Nat
  epoch : Nat
  stage : RefreshStage
  deriving DecidableEq, Repr

end Viewbase
