import Viewbase.Database.Temporary

/-!
Queries of a database: how they are made, copied, run at once, and given up.
-/

namespace Viewbase.Database

variable {σ : Type}

/-- Add a query; the reply is its number. -/
def addQuery (query : Query) (db : Database σ) : Database σ × Nat :=
  ({ db with queries := db.queries ++ [query] }, db.queries.length)

/-- A query over an index. -/
def queryIndex (index : Descriptor) (db : Database σ) : Database σ × Nat :=
  addQuery (Query.new (some index) none) db

/-- A query over the built-in enumeration of documents. -/
def queryDocuments (db : Database σ) : Database σ × Nat :=
  addQuery (Query.new none none) db

/-- A query over a temporary index of its own. -/
def queryMap (c : Client σ) (map : MapFunction) (db : Database σ) :
    Database σ × Except QueryError Nat :=
  match db.createTemporary c map with
  | (db, .error error) => (db, .error error)
  | (db, .ok (temporary, index)) =>
    let (db, id) := addQuery (Query.new (some index) (some temporary)) db
    (db, .ok id)

/-- Take the share that a copy of a query needs. -/
def shareTemporary (query : Query) (db : Database σ) : Database σ × Except QueryError Unit :=
  match query.temporary with
  | some temporary => db.acquireOwner temporary
  | none => (db, .ok ())

/-- Copy a query.  The copy has a share of its own in a temporary index, and starts from the
generation its source saw last. -/
def copyQuery (id : Nat) (db : Database σ) : Database σ × Except QueryError Nat :=
  match db.queries[id]? with
  | none => (db, .error (.validation .copyOfDisposed))
  | some query =>
    if query.disposed then (db, .error (.validation .copyOfDisposed))
    else
      match db.shareTemporary query with
      | (db, .error error) => (db, .error error)
      | (db, .ok ()) =>
        let (db, copy) := addQuery query db
        (db, .ok copy)

/-- Change the settings of a query. -/
def configure (id : Nat) (change : Settings → Settings) (db : Database σ) : Database σ :=
  db.updateQuery id fun query => { query with settings := change query.settings }

/-! ## Giving up -/

/-- Mark a query as disposed, without a share. -/
def markDisposed (id : Nat) (db : Database σ) : Database σ :=
  db.updateQuery id fun query => { query with temporary := none, disposed := true }

/-- What disposing of a disposed query comes to. -/
def disposeAgain (query : Query) : Except QueryError Unit :=
  match query.index with
  | some index =>
    if query.isTemporary then .error (.lifecycle (.alreadyDeleted index.id)) else .ok ()
  | none => .ok ()

/-- Give up a query.  Its share of a temporary index is released first, and if that fails nothing
has changed. -/
def dispose (c : Client σ) (id : Nat) (db : Database σ) : Database σ × Except QueryError Unit :=
  match db.queries[id]? with
  | none => (db, .ok ())
  | some query =>
    if query.disposed then (db, disposeAgain query)
    else
      match query.temporary with
      | none => (db.markDisposed id, .ok ())
      | some temporary =>
        match db.releaseOwner c temporary with
        | (db, .error error) => (db, .error error)
        | (db, .ok ()) => (db.markDisposed id, .ok ())

/-- Give up a query without failing. -/
def release (c : Client σ) (id : Nat) (db : Database σ) : Database σ :=
  match db.queries[id]?.bind Query.temporary with
  | none => db.markDisposed id
  | some temporary => (db.releaseDeferred c temporary).markDisposed id

/-- The identity of the index whose share a query holds. -/
def sharedIndex? (id : Nat) (db : Database σ) : Option IndexId := do
  let query ← db.queries[id]?
  let temporary ← query.temporary
  let record ← db.temporaries[temporary]?
  return record.index.id

/-- Nobody holds the query any more.  A share that it still has is told of and released. -/
def dropQuery (c : Client σ) (id : Nat) (db : Database σ) : Database σ :=
  let db := match db.sharedIndex? id with
    | some index =>
      db.note .temporaryReleased
        [("index", index.text), ("reason", "query dropped without dispose")]
    | none => db
  db.release c id

/-! ## Running -/

/-- Register a scan of a query with its temporary index, if it has one.  The reply is the record
that the scan is registered with. -/
def register (id : Nat) (db : Database σ) : Database σ × Except QueryError (Option Nat) :=
  match db.queries[id]? with
  | none => (db, .error (.validation .disposed))
  | some query =>
    if query.disposed then
      (db, .error (if query.isTemporary then .unavailable .released else .validation .disposed))
    else
      match query.temporary with
      | none => (db, .ok none)
      | some temporary =>
        match db.beginScan temporary with
        | (db, .error error) => (db, .error error)
        | (db, .ok ()) => (db, .ok (some temporary))

/-- Letting a query in registers a scan with one temporary index, or changes nothing. -/
theorem fst_register (id : Nat) (db : Database σ) :
    (db.register id).1 = db ∨
      ∃ temporary, (db.register id).1 = (db.beginScan temporary).1 := by
  rw [register]
  split
  · exact .inl rfl
  split
  · exact .inl rfl
  split
  · exact .inl rfl
  next temporary _ =>
    refine .inr ⟨temporary, ?_⟩
    split
    next heq => rw [heq]
    next heq => rw [heq]

theorem exists_register (id : Nat) (db : Database σ) :
    ∃ temporaries, (db.register id).1 = { db with temporaries := temporaries } := by
  rcases fst_register id db with heq | ⟨temporary, heq⟩
  · exact ⟨db.temporaries, heq⟩
  · rw [heq]
    exact exists_beginScan temporary db

/-- Count and record what a scan for a query came to.  A good answer sets the generation of the
query; an error comes with the generation the query has. -/
def complete (query : Nat) (target : Target) (result : Except IndexError Answer)
    (db : Database σ) : Database σ × Outcome :=
  match result with
  | .ok answer =>
    let db := db.updateQuery query fun q => { q with lastGeneration := some answer.generation }
    let db := db.count fun m => { m with executed := m.executed + 1 }
    let db := db.note .queryExecuted
      [("target", target.label), ("rows", toString answer.rows.length),
       ("generation", toString answer.generation)]
    (db, .ok answer)
  | .error error =>
    let error := (QueryError.ofIndexError error).wrap (db.lastGeneration query)
    let db := db.count fun m => { m with failed := m.failed + 1 }
    let db := db.note .queryFailed
      [("target", target.label), ("code", error.root.code), ("error", error.message)]
    (db, .error error)

/-- Run a query at once. -/
def runQuery (c : Client σ) (id : Nat) (db : Database σ) : Database σ × Outcome :=
  match db.queries[id]? with
  | none => (db, .error (.validation .disposed))
  | some query =>
    match db.register id with
    | (db, .error error) => (db, .error error)
    | (db, .ok temporary) =>
      let request := query.request
      let (db, result) := db.scan c request
      (db.endRegistration c temporary).complete id request.target result

end Viewbase.Database
