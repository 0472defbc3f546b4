import Viewbase.Database.Action

/-!
Moments of a database, between the steps of its threads and tasks.

A call of the client is one step, and so is what a task does between two points at which it waits: a
run that is given its permit starts in that step, and ends in it if its scan was refused.  Two
things are told apart.  A write is done before its subscribers are told of it, and the outcome of a
refresh is taken in before the refresh is over; whatever else goes on may come between.  So
callbacks need no account of their own: what a callback does comes as further steps after it was
called.

How the single accesses of a run and of calls for its cancellation may alternate is told by the
histories of `Execution`, and a call that comes while a refused run ends has a step in `Session`.
-/

namespace Viewbase

/-- A database, and what is under way in it. -/
structure Moment (σ : Type) where
  db : Database σ
  /-- The changes that subscribers have yet to be told of. -/
  pending : List (Observer × Change)
  /-- The refreshes that have taken their outcome in and are not over. -/
  telling : List Nat

namespace Database

variable {σ : Type}

/-- The client can name the query: it exists, and is not one that a live query runs. -/
def OwnsQuery (db : Database σ) (id : Nat) : Prop :=
  id < db.queries.length ∧ ∀ live ∈ db.lives, live.query ≠ id

/-- How many queries hold a share of a temporary index. -/
def sharers (queries : List Query) (id : Nat) : Nat :=
  queries.countP fun query => query.temporary == some id

/-- The client holds a share of the temporary index besides those of queries. -/
def OwnsShare (db : Database σ) (id : Nat) : Prop :=
  ∀ record, db.temporaries[id]? = some record → record.deleted = false →
    sharers db.queries id < record.owners

/-- The client can name what the action names: handles that it was given, and that it holds. -/
def Permits (db : Database σ) : Action → Prop
  | .unsubscribe token => ∀ live ∈ db.lives, live.token ≠ some token
  | .configure query _ => db.OwnsQuery query
  | .disposeQuery query => db.OwnsQuery query
  | .dropQuery query => db.OwnsQuery query
  | .runQuery query => db.OwnsQuery query
  | .submit query recipient => db.OwnsQuery query ∧ ∀ task, recipient ≠ .refresh task
  | .cancel run => ∀ submitted, db.runs[run]? = some submitted →
      ∀ task, submitted.recipient ≠ .refresh task
  | .releaseOwner temporary => db.OwnsShare temporary
  | .releaseDeferred temporary => db.OwnsShare temporary
  | .startLive live => ∀ started, db.lives[live]? = some started → started.held
  | _ => True

/-- Nobody has to be told anything in the course of the action. -/
def TellsNobody (db : Database σ) : Action → Prop
  | .put _ _ => False
  | .delete _ => False
  | .addConflict _ _ => False
  | .resolveConflicts _ => False
  | .go (.refresh task) => ∀ refresh, db.refreshes[task]? = some refresh →
      ∀ run, refresh.stage ≠ .awaiting run
  | _ => True

end Database

namespace Moment

variable {σ : Type}

/-- What can happen next.  Whom an action tells is told in steps of its own, and what a callback
does is not foreseen: any step may follow. -/
inductive Step : Moment σ → Moment σ → Prop where
  | act {m : Moment σ} (action : Action) (hpermitted : m.db.Permits action)
      (htells : m.db.TellsNobody action) :
      Step m { m with db := m.db.perform (.silent σ) action }
  /-- A document is written, and its subscribers have yet to be told. -/
  | write {m : Moment σ} {command : Command} {id : String} {edit : Store.Edit} {store : Store}
      {doc : Document} (hedit : command.edit? = some (id, edit))
      (hwrite : m.db.store.write id edit = .ok (store, doc)) :
      Step m
        { m with
          db := { m.db with store := store }
          pending := m.pending ++ store.audience.map fun observer =>
            (observer, ⟨store.generation, [id]⟩) }
  /-- A subscriber is told of a change. -/
  | tell {db : Database σ} {earlier later : List (Observer × Change)} {telling : List Nat}
      (observer : Observer) (change : Change) :
      Step ⟨db, earlier ++ (observer, change) :: later, telling⟩
        ⟨db.notifyOne (.silent σ) change observer, earlier ++ later, telling⟩
  /-- A refresh takes the outcome of its run in. -/
  | takeIn {m : Moment σ} {task run : Nat} {refresh : Refresh} {submitted : Run}
      (hready : .refresh task ∈ m.db.ready) (htask : m.db.refreshes[task]? = some refresh)
      (hstage : refresh.stage = .awaiting run) (hrun : m.db.runs[run]? = some submitted) :
      Step m
        { m with
          db := { m.db with ready := m.db.ready.erase (.refresh task) }.finishLive (.silent σ)
            refresh.live refresh.epoch submitted.answer
          telling := task :: m.telling }
  /-- A refresh that has taken its outcome in is over. -/
  | retire {m : Moment σ} {task : Nat} {refresh : Refresh} (htelling : task ∈ m.telling)
      (htask : m.db.refreshes[task]? = some refresh) :
      Step m
        { m with
          db := (m.db.updateRefresh task fun refresh => { refresh with stage := .over }).reap
            (.silent σ) refresh.live
          telling := m.telling.filter fun other => other != task }
  /-- The client changes its own state. -/
  | touch {m : Moment σ} (client : σ) : Step m { m with db := { m.db with client := client } }

/-- The moments that steps lead to from a new database. -/
inductive Reached : Moment σ → Prop where
  | create {config : Config} {least : Severity} {numbered : Nat} {client : σ} {db : Database σ}
      (hcreate : Database.create config least numbered client = .ok db) : Reached ⟨db, [], []⟩
  | step {m m' : Moment σ} (hreached : Reached m) (hstep : Step m m') : Reached m'

end Moment

end Viewbase
