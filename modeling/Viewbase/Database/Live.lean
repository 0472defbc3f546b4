import Viewbase.Database.Background

/-!
Live queries of a database: start and stop, the changes that reach them, and their refreshes.

A refresh is a task: it waits out its delay, submits the query of the live query, waits for that run
and takes its outcome in.  A task of an earlier epoch ends without effect.
-/

namespace Viewbase.Database

variable {σ : Type}

/-- Make a live query from a query: it runs a copy. -/
def makeLive (query : Nat) (db : Database σ) : Database σ × Except QueryError Nat :=
  match db.queries[query]?.bind Query.index with
  | none => (db, .error (.conversion .noIndex))
  | some index =>
    match db.copyQuery query with
    | (db, .error error) => (db, .error error)
    | (db, .ok copy) =>
      ({ db with lives := db.lives ++ [LiveQuery.new index copy] }, .ok db.lives.length)

/-- Schedule a refresh of a live query in an epoch. -/
def launch (id epoch delay : Nat) (db : Database σ) : Database σ :=
  let task := db.refreshes.length
  let refresh : Refresh := ⟨id, epoch, .launched delay⟩
  { db with refreshes := db.refreshes ++ [refresh] }.wake (.refresh task)

/-- Start a live query: subscribe it to its index and schedule its first refresh. -/
def startLive (id : Nat) (db : Database σ) : Database σ × Except QueryError Unit :=
  match db.lives[id]? with
  | none => (db, .ok ())
  | some live =>
    if live.disposed then (db, .error (.validation .liveDisposed))
    else if live.isRunning then (db, .ok ())
    else
      let epoch := live.epoch + 1
      let db := db.updateLive id fun live => { live with epoch := epoch }
      match db.store.subscribe live.index (.live id epoch) with
      | .error error => (db, .error (.ofIndexError error))
      | .ok (token, store) =>
        let db := { db with store := store }.updateLive id fun live =>
          { live with token := some token, phase := .awaitingInitial false }
        ((db.launch id epoch 0).note .liveStarted [("index", live.index.label)], .ok ())

/-- Cancel the run of a live query, if one is under way. -/
def cancelRunning (running : Option Nat) (db : Database σ) : Database σ :=
  match running with
  | some run => (db.cancel run).1
  | none => db

def endSubscription (token : Option Token) (db : Database σ) : Database σ :=
  match token with
  | some token => { db with store := db.store.unsubscribe token }
  | none => db

/-- Stop a live query: open a new epoch, cancel its run and end its subscription. -/
def stopLive (id : Nat) (db : Database σ) : Database σ :=
  match db.lives[id]? with
  | none => db
  | some live =>
    if !live.isRunning then db
    else
      let db := db.updateLive id fun live =>
        { live with epoch := live.epoch + 1, phase := .stopped, running := none, token := none }
      ((db.cancelRunning live.running).endSubscription live.token).note .liveStopped
        [("index", live.index.label)]

/-- Stop a live query for good and release its share of a temporary index. -/
def disposeLive (c : Client σ) (id : Nat) (db : Database σ) : Database σ :=
  match db.lives[id]? with
  | none => db
  | some live =>
    if live.disposed then db
    else
      let db := db.updateLive id fun live => { live with disposed := true }
      (db.stopLive id).release c live.query

/-! ## Listeners -/

def addListener (id callback : Nat) (db : Database σ) : Database σ :=
  db.updateLive id fun live => { live with listeners := live.listeners ++ [callback] }

/-- Remove a listener; the reply tells whether it was there. -/
def removeListener (id callback : Nat) (db : Database σ) : Database σ × Bool :=
  match db.lives[id]? with
  | none => (db, false)
  | some live =>
    (db.updateLive id fun live =>
      { live with listeners := live.listeners.filter (· != callback) },
      live.listeners.contains callback)

/-- Tell listeners in turn. -/
def tellListeners (c : Client σ) (change : Refreshed) (listeners : List Nat) (db : Database σ) :
    Database σ :=
  listeners.foldl (fun db callback => c.notify callback (.refreshed change) db) db

/-! ## Changes -/

/-- A change reaches a live query that subscribed in an epoch. -/
def changeLive (id epoch : Nat) (change : Change) (db : Database σ) : Database σ :=
  match db.lives[id]? with
  | none => db
  | some live =>
    if live.epoch ≠ epoch then db
    else
      match LiveQuery.react live.phase (db.lastGeneration live.query) change.generation with
      | .ignore => db
      | .launch =>
        (db.updateLive id fun live => { live with phase := .requerying false }).launch id epoch
          db.config.updateInterval
      | .remember =>
        db.updateLive id fun live => { live with phase := LiveQuery.remembering live.phase }
      | .coalesce => db.count fun m => { m with liveCoalesced := m.liveCoalesced + 1 }

/-! ## Refreshes -/

/-- Count and record what a run of a live query came to. -/
def recordVerdict (live : LiveQuery) (verdict : LiveQuery.Verdict) (db : Database σ) : Database σ :=
  match verdict with
  | .unchanged => db.count fun m => { m with liveRefreshes := m.liveRefreshes + 1 }
  | .refreshed answer =>
    (db.count fun m => { m with liveRefreshes := m.liveRefreshes + 1 }).note .liveRefreshed
      [("index", live.index.label), ("rows", toString answer.rows.length),
       ("generation", toString answer.generation)]
  | .failed error =>
    db.note .liveRefreshFailed [("index", live.index.label), ("error", error.message)]
  | .cancelled => db

/-- Go idle, or schedule the further run that changes asked for. -/
def settleLive (id : Nat) (live : LiveQuery) (db : Database σ) : Database σ :=
  if LiveQuery.wantsAgain live.phase then
    (db.updateLive id fun live => { live with phase := .requerying false }).launch id live.epoch
      db.config.updateInterval
  else db.updateLive id fun live => { live with phase := .idle }

/-- Take the outcome of a run in and tell the listeners of it. -/
def finishLive (c : Client σ) (id epoch : Nat) (outcome : Outcome) (db : Database σ) :
    Database σ :=
  match db.lives[id]? with
  | none => db
  | some live =>
    if !live.isCurrent epoch then db
    else
      let verdict := live.judge outcome
      let db := db.recordVerdict live verdict
      let db := db.updateLive id fun live => { live.absorb verdict with running := none }
      let db := db.settleLive id live
      match live.announcement? verdict with
      | none => db
      | some change => db.tellListeners c change live.listeners

/-- Submit the query of a live query for a refresh. -/
def executeLive (task id epoch : Nat) (db : Database σ) : Database σ :=
  match db.lives[id]? with
  | none => db
  | some live =>
    if !live.isCurrent epoch then
      db.updateRefresh task fun refresh => { refresh with stage := .over }
    else
      let (db, run) := db.submit live.query (.refresh task)
      let db := db.updateLive id fun live => { live with running := some run }
      db.updateRefresh task fun refresh => { refresh with stage := .awaiting run }

/-- A live query that is neither held nor refreshed any more gives its query up. -/
def reap (c : Client σ) (id : Nat) (db : Database σ) : Database σ :=
  match db.lives[id]? with
  | none => db
  | some live =>
    if live.held || db.refreshes.any fun refresh => refresh.live == id && refresh.stage != .over
    then db
    else db.dropQuery c live.query

/-- The client gives a live query up. -/
def dropLive (c : Client σ) (id : Nat) (db : Database σ) : Database σ :=
  let db := db.stopLive id
  (db.updateLive id fun live => { live with held := false }).reap c id

/-- Let a refresh go on as far as it can. -/
def pollRefresh (c : Client σ) (task : Nat) (db : Database σ) : Database σ :=
  match db.refreshes[task]? with
  | none => db
  | some refresh =>
    let finish := fun (db : Database σ) => db.reap c refresh.live
    match refresh.stage with
    | .launched 0 => finish (db.executeLive task refresh.live refresh.epoch)
    | .launched delay =>
      let timer : Timer := ⟨db.clock + delay, task⟩
      let db := { db with timers := db.timers ++ [timer] }
      db.updateRefresh task fun refresh => { refresh with stage := .sleeping }
    | .due => finish (db.executeLive task refresh.live refresh.epoch)
    | .awaiting run =>
      match db.runs[run]? with
      | none => db
      | some submitted =>
        let db := db.finishLive c refresh.live refresh.epoch submitted.answer
        finish (db.updateRefresh task fun refresh => { refresh with stage := .over })
    | .sleeping => db
    | .over => db

end Viewbase.Database
