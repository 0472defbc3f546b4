import Viewbase.Request
import Viewbase.Error

/-!
Background runs of queries, and their cancellation.
-/

namespace Viewbase

/-- What a query came to. -/
abbrev Outcome := Except QueryError Answer

/-- How far a run has come, as its cancellation sees it. -/
inductive Control where
  | pending
  | running
  | cancelled
  | done
  deriving DecidableEq, Repr

namespace Control

/-- Ask for cancellation.  It takes effect unless the run is done, and the reply tells whether it
has. -/
def cancel : Control → Control × Bool
  | pending => (cancelled, true)
  | running => (cancelled, true)
  | cancelled => (cancelled, true)
  | done => (done, false)

/-- A run starts unless it was cancelled before. -/
def start : Control → Control × Bool
  | pending => (running, true)
  | other => (other, false)

/-- A run that was started finishes unless it was cancelled meanwhile. -/
def finish : Control → Control × Bool
  | running => (done, true)
  | other => (other, false)

end Control

/-- Who gets the outcome of a run. -/
inductive Recipient where
  /-- A callback of the client. -/
  | callback (id : Nat)
  /-- Whoever holds the handle of the run and asks. -/
  | handle
  /-- A refresh of a live query, which waits for the run. -/
  | refresh (task : Nat)
  deriving DecidableEq, Repr

/-- How far a run has come. -/
inductive Stage where
  /-- It has no permit yet. -/
  | waiting
  /-- It holds a permit and has not started. -/
  | admitted
  /-- Its scan is under way. -/
  | scanning
  /-- Its scan has ended; it still holds the permit. -/
  | scanned (result : Except IndexError Answer)
  | ended

/-- One background execution of a query, with the request of the time it was submitted. -/
structure Run where
  /-- The query whose last generation the run keeps. -/
  query : Nat
  request : Request
  /-- The temporary index the scan is registered with, if it needs one; or why it was refused. -/
  registration : Except QueryError (Option Nat)
  recipient : Recipient
  stage : Stage
  control : Control
  /-- What was delivered. -/
  outcome : Option Outcome

namespace Run

def new (query : Nat) (request : Request) (registration : Except QueryError (Option Nat))
    (recipient : Recipient) : Run :=
  ⟨query, request, registration, recipient, .waiting, .pending, none⟩

def holdsPermit (run : Run) : Bool :=
  match run.stage with
  | .admitted => true
  | .scanning => true
  | .scanned _ => true
  | _ => false

/-- The temporary index whose scan registration the run holds. -/
def registered? (run : Run) : Option Nat :=
  match run.stage, run.registration with
  | .waiting, .ok temporary => temporary
  | .admitted, .ok temporary => temporary
  | .scanning, .ok temporary => temporary
  | _, _ => none

def isOver (run : Run) : Bool :=
  match run.stage with
  | .ended => true
  | _ => false

/-- What the holder of the handle is told: a run that ends without a delivery was cancelled. -/
def answer (run : Run) : Outcome :=
  run.outcome.getD (.error .cancelled)

end Run

end Viewbase
