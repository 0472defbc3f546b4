import Viewbase.Database.Query

/-!
Background runs: submission, and the steps from a permit to the delivery of the outcome.

A run holds one permit from its admission until its scan has ended, and its scan registration until
the scan has ended.  Its outcome is delivered once; a run that was cancelled before it started
delivers nothing.
-/

namespace Viewbase.Database

variable {σ : Type}

/-- Submit a query as it is now; the reply is the number of the run. -/
def submit (id : Nat) (recipient : Recipient) (db : Database σ) : Database σ × Nat :=
  let request := match db.queries[id]? with
    | some query => query.request
    | none => (Query.new none none).request
  let (db, registration) := db.register id
  let db := db.count fun m => { m with submitted := m.submitted + 1 }
  let db := db.note .querySubmitted [("target", request.target.label)]
  let run := db.runs.length
  let db := { db with runs := db.runs ++ [Run.new id request registration recipient] }
  (db.wake (.run run), run)

/-- Ask for the cancellation of a run; the reply tells whether it takes effect. -/
def cancel (id : Nat) (db : Database σ) : Database σ × Bool :=
  match db.runs[id]? with
  | none => (db, false)
  | some run =>
    (db.updateRun id fun run => { run with control := run.control.cancel.1 }, run.control.cancel.2)

/-! ## Permits -/

/-- Take a permit for a run, or have it wait for one. -/
def takePermit (id : Nat) (db : Database σ) : Database σ :=
  if 0 < db.permits then
    { db.updateRun id fun run => { run with stage := .admitted } with permits := db.permits - 1 }
  else { db with waiting := db.waiting ++ [id] }

/-- Give a permit back.  The first run that waits for one gets it and can go on. -/
def givePermit (db : Database σ) : Database σ :=
  match db.waiting with
  | [] => { db with permits := db.permits + 1 }
  | next :: rest =>
    ({ db with waiting := rest }.updateRun next fun run => { run with stage := .admitted }).wake
      (.run next)

/-! ## Delivery -/

/-- A refresh that waits for a run can go on once the run is over. -/
def wakeRecipient (recipient : Recipient) (db : Database σ) : Database σ :=
  match recipient with
  | .refresh task => db.wake (.refresh task)
  | _ => db

/-- End a run with an outcome for its recipient. -/
def deliver (c : Client σ) (id : Nat) (recipient : Recipient) (outcome : Outcome)
    (db : Database σ) : Database σ :=
  let db := db.updateRun id fun run => { run with stage := .ended, outcome := some outcome }
  match recipient with
  | .callback callback => c.notify callback (.completed outcome) db
  | _ => db.wakeRecipient recipient

/-- End a run without an outcome. -/
def abandon (id : Nat) (recipient : Recipient) (db : Database σ) : Database σ :=
  (db.updateRun id fun run => { run with stage := .ended }).wakeRecipient recipient

def countCancelled (stage : String) (db : Database σ) : Database σ :=
  (db.count fun m => { m with cancelled := m.cancelled + 1 }).note .queryCancelled
    [("stage", stage)]

/-- The scan of a run is over, or was refused: finish and deliver what it came to, unless it was
cancelled meanwhile. -/
def conclude (c : Client σ) (id : Nat) (run : Run) (outcome : Database σ → Database σ × Outcome)
    (db : Database σ) : Database σ :=
  match run.control.finish with
  | (control, true) =>
    let db := db.updateRun id fun run => { run with control := control }
    let (db, outcome) := outcome db
    db.deliver c id run.recipient outcome
  | (_, false) =>
    (db.countCancelled "after_start").deliver c id run.recipient (.error .cancelled)

/-! ## Steps -/

/-- Start an admitted run: put its scan under way, or end it if it was cancelled or its scan was
refused. -/
def startRun (c : Client σ) (id : Nat) (db : Database σ) : Database σ :=
  match db.runs[id]? with
  | none => db
  | some run =>
    match run.control.start, run.registration with
    | (_, false), registration =>
      let db := (db.countCancelled "before_start").givePermit
      let db := match registration with
        | .ok temporary => db.endRegistration c temporary
        | .error _ => db
      db.abandon id run.recipient
    | (control, true), .error error =>
      let run := { run with control := control }
      let db := db.updateRun id fun run => { run with control := control }
      let db := db.count fun m => { m with failed := m.failed + 1 }
      db.givePermit.conclude c id run fun db => (db, .error error)
    | (control, true), .ok _ =>
      let db := db.updateRun id fun run => { run with control := control, stage := .scanning }
      { db with scanning := db.scanning ++ [id] }

/-- Carry out the scan of a run; it ends the scan registration and lets the run go on. -/
def scanRun (c : Client σ) (id : Nat) (db : Database σ) : Database σ :=
  match db.runs[id]? with
  | none => db
  | some run =>
    let db := { db with scanning := db.scanning.filter (· != id) }
    let (db, result) := db.scan c run.request
    let db := db.endRegistration c run.registered?
    (db.updateRun id fun run => { run with stage := .scanned result }).wake (.run id)

/-- Finish a run whose scan has ended. -/
def finishRun (c : Client σ) (id : Nat) (result : Except IndexError Answer) (db : Database σ) :
    Database σ :=
  match db.runs[id]? with
  | none => db
  | some run =>
    db.givePermit.conclude c id run (complete run.query run.request.target result)

/-- Let a run go on as far as it can. -/
def pollRun (c : Client σ) (id : Nat) (db : Database σ) : Database σ :=
  match db.runs[id]?.map Run.stage with
  | some .waiting =>
    if 0 < db.permits then (db.takePermit id).startRun c id else db.takePermit id
  | some .admitted => db.startRun c id
  | some (.scanned result) => db.finishRun c id result
  | _ => db

/-- Run a submitted query to its end at once, on a thread of its own. -/
def runThrough (c : Client σ) (id : Nat) (db : Database σ) : Database σ :=
  let db := { db with ready := db.ready.filter (· != Job.run id) }
  let db := db.pollRun c id
  let db := if db.scanning.contains id then db.scanRun c id else db
  let db := { db with ready := db.ready.filter (· != Job.run id) }
  db.pollRun c id

end Viewbase.Database
