import Viewbase.Config
import Viewbase.Journal.Metrics
import Viewbase.Store.Index
import Viewbase.Store.Scan
import Viewbase.Store.Write
import Viewbase.Query.Settings
import Viewbase.Query.Temporary
import Viewbase.Query.Live

/-!
A database: the store, the queries over it, and the background work under way.

Everything that can change is one value.  What a database cannot know of, its client, is a record of
functions on it: callbacks, which may use the database in turn, and whatever happens before a
request reaches the store.
-/

namespace Viewbase

/-- The description of one query. -/
structure Query where
  /-- The index it reads; the built-in enumeration of documents if absent. -/
  index : Option Descriptor
  /-- The record of its temporary index, while the query holds a share. -/
  temporary : Option Nat
  /-- Its index was made for it. -/
  isTemporary : Bool
  settings : Settings
  /-- The generation of its last good answer. -/
  lastGeneration : Option Nat
  disposed : Bool

namespace Query

def new (index : Option Descriptor) (temporary : Option Nat) : Query :=
  ⟨index, temporary, temporary.isSome, Settings.initial index, none, false⟩

/-- The request the query makes now. -/
def request (query : Query) : Request :=
  query.settings.request query.index

end Query

/-- Work that can go on. -/
inductive Job where
  | run (id : Nat)
  | refresh (id : Nat)
  deriving DecidableEq, Repr

/-- A refresh that waits for a point in time. -/
structure Timer where
  due : Nat
  refresh : Nat
  deriving DecidableEq, Repr

/-- The state of a database, with the state `σ` of its client. -/
structure Database (σ : Type) where
  config : Config
  store : Store
  temporaries : List Temporary
  queries : List Query
  runs : List Run
  lives : List LiveQuery
  refreshes : List Refresh
  /-- How many more background scans may run at once. -/
  permits : Nat
  /-- The runs that wait for a permit, first come first served. -/
  waiting : List Nat
  /-- The runs whose scans are under way. -/
  scanning : List Nat
  /-- The work that can go on, in order. -/
  ready : List Job
  timers : List Timer
  /-- Milliseconds since the database was made. -/
  clock : Nat
  metrics : Metrics
  journal : Journal
  client : σ

/-- What a callback is told. -/
inductive Notice where
  | change (change : Change)
  | refreshed (change : Refreshed)
  | completed (outcome : Outcome)

/-- What surrounds a database.  The `before` functions see a request on its way to the store and
may refuse it. -/
structure Client (σ : Type) where
  notify : Nat → Notice → Database σ → Database σ
  beforeScan : Target → Database σ → Database σ × Option IndexError
  beforeDelete : IndexId → Database σ → Database σ × Option IndexError
  beforeCreate : Database σ → Database σ × Option IndexError

/-- A client that ignores callbacks and lets every request pass. -/
def Client.silent (σ : Type) : Client σ where
  notify _ _ db := db
  beforeScan _ db := (db, none)
  beforeDelete _ db := (db, none)
  beforeCreate db := (db, none)

namespace Database

variable {σ : Type}

/-- An empty database whose indexes are numbered after the given number, if its configuration is
valid. -/
def create (config : Config) (least : Severity) (numbered : Nat) (client : σ) :
    Except QueryError (Database σ) :=
  match config.validate with
  | .error error => .error error
  | .ok () =>
    .ok
      { config := config
        store := Store.empty numbered
        temporaries := []
        queries := []
        runs := []
        lives := []
        refreshes := []
        permits := config.maxConcurrentScans
        waiting := []
        scanning := []
        ready := []
        timers := []
        clock := 0
        metrics := {}
        journal := Journal.empty least
        client := client }

/-- Keep a record of an event. -/
def note (db : Database σ) (event : Event) (fields : List (String × String)) : Database σ :=
  { db with journal := db.journal.note event fields }

/-- Change what is counted. -/
def count (db : Database σ) (change : Metrics → Metrics) : Database σ :=
  { db with metrics := change db.metrics }

/-- Let work go on after all work that already can. -/
def wake (db : Database σ) (job : Job) : Database σ :=
  { db with ready := db.ready ++ [job] }

def updateQuery (db : Database σ) (id : Nat) (change : Query → Query) : Database σ :=
  { db with queries := db.queries.modify id change }

def updateRun (db : Database σ) (id : Nat) (change : Run → Run) : Database σ :=
  { db with runs := db.runs.modify id change }

def updateLive (db : Database σ) (id : Nat) (change : LiveQuery → LiveQuery) : Database σ :=
  { db with lives := db.lives.modify id change }

def updateRefresh (db : Database σ) (id : Nat) (change : Refresh → Refresh) : Database σ :=
  { db with refreshes := db.refreshes.modify id change }

/-- The generation of the last good answer of a query. -/
def lastGeneration (db : Database σ) (query : Nat) : Option Nat :=
  db.queries[query]?.bind Query.lastGeneration

end Database

end Viewbase
