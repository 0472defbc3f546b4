import Viewbase.Database.Write

/-!
The schedule of background work.

Jobs that can go on do so first come first served.  A scan runs beside them on a thread of its own
and ends when no job can go on.  Time passes only when it is told to, and stops at every timer on
the way.
-/

namespace Viewbase.Database

variable {σ : Type}

/-! ## Steps -/

/-- Carry a job on. -/
def poll (c : Client σ) (job : Job) (db : Database σ) : Database σ :=
  match job with
  | .run id => db.pollRun c id
  | .refresh id => db.pollRefresh c id

/-- Let a job that can go on do so, whatever its place in the order. -/
def go (c : Client σ) (job : Job) (db : Database σ) : Database σ :=
  if db.ready.contains job then { db with ready := db.ready.erase job }.poll c job else db

/-- There is nothing to do at this time. -/
def isIdle (db : Database σ) : Bool :=
  db.ready.isEmpty && db.scanning.isEmpty

/-- Do the next thing there is to do at this time. -/
def step (c : Client σ) (db : Database σ) : Database σ :=
  match db.ready, db.scanning with
  | job :: _, _ => db.go c job
  | [], run :: _ => db.scanRun c run
  | [], [] => db

/-- Do everything there is to do at this time, at most `fuel` steps of it. -/
def drain (c : Client σ) : Nat → Database σ → Database σ
  | 0, db => db
  | fuel + 1, db => if db.isIdle then db else drain c fuel (db.step c)

/-! ## Time -/

/-- The time of the next timer. -/
def nextDue? (db : Database σ) : Option Nat :=
  match db.timers.map Timer.due with
  | [] => none
  | first :: rest => some (rest.foldl Nat.min first)

/-- The time has come to `now`: the refreshes that waited for it can go on. -/
def fire (now : Nat) (db : Database σ) : Database σ :=
  let fired := (db.timers.filter fun timer => decide (timer.due ≤ now)).map Timer.refresh
  let db := { db with
    clock := now
    timers := db.timers.filter fun timer => decide (now < timer.due) }
  fired.foldl
    (fun db task =>
      (db.updateRefresh task fun refresh => { refresh with stage := .due }).wake (.refresh task))
    db

/-- Let time pass until `target`, and do everything there is to do at each timer on the way; at most
`fuel` timers and as many steps at each. -/
def passUntil (c : Client σ) (steps target : Nat) : Nat → Database σ → Database σ
  | 0, db => { db with clock := target }
  | fuel + 1, db =>
    match db.nextDue? with
    | some due =>
      if due ≤ target then passUntil c steps target fuel (drain c steps (db.fire due))
      else { db with clock := target }
    | none => { db with clock := target }

/-- Let `ms` milliseconds pass. -/
def advance (c : Client σ) (fuel ms : Nat) (db : Database σ) : Database σ :=
  let db := drain c fuel db
  passUntil c fuel (db.clock + ms) fuel db

/-! ## Waiting -/

/-- What waiters of a live query would be told now. -/
def liveResult? (id : Nat) (db : Database σ) : Option Outcome :=
  db.lives[id]?.bind LiveQuery.result

/-- Do everything there is to do at this time; the reply is the first result of a live query that
there is on the way. -/
def drainFor (c : Client σ) (id : Nat) : Nat → Database σ → Database σ × Option Outcome
  | 0, db => (db, db.liveResult? id)
  | fuel + 1, db =>
    match db.liveResult? id with
    | some outcome => (drain c (fuel + 1) db, some outcome)
    | none => if db.isIdle then (db, none) else drainFor c id fuel (db.step c)

/-- Wait for a result of a live query until `target`. -/
def waitUntil (c : Client σ) (id steps target : Nat) :
    Nat → Database σ → Database σ × Option Outcome
  | 0, db => (db, none)
  | fuel + 1, db =>
    match db.drainFor c id steps with
    | (db, some outcome) => (db, some outcome)
    | (db, none) =>
      match db.nextDue? with
      | some due =>
        if due ≤ target then waitUntil c id steps target fuel (db.fire due)
        else ({ db with clock := target }, none)
      | none => ({ db with clock := target }, none)

/-- Wait for a result of a live query, for at most `ms` milliseconds. -/
def waitForRows (c : Client σ) (fuel id ms : Nat) (db : Database σ) : Database σ × Option Outcome :=
  waitUntil c id fuel (db.clock + ms) fuel db

end Viewbase.Database
