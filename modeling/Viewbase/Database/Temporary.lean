import Viewbase.Database.Basic

/-!
Requests to the store that the client may refuse, and the temporary indexes of queries.
-/

namespace Viewbase.Database

variable {σ : Type}

/-! ## Requests to the store -/

/-- Have the store answer a scan, unless the client refuses it. -/
def scan (c : Client σ) (request : Request) (db : Database σ) :
    Database σ × Except IndexError Answer :=
  match c.beforeScan request.target db with
  | (db, some error) => (db, .error error)
  | (db, none) =>
    match db.store.scan request with
    | (store, answer) => ({ db with store := store }, answer)

/-- Have the store delete an index, unless the client refuses it. -/
def deleteIndex (c : Client σ) (index : Descriptor) (db : Database σ) :
    Database σ × Except IndexError Unit :=
  match c.beforeDelete index.id db with
  | (db, some error) => (db, .error error)
  | (db, none) =>
    match db.store.deleteIndex index with
    | .ok store => ({ db with store := store }, .ok ())
    | .error error => (db, .error error)

/-- Have the store make an index without a name, unless the client refuses it. -/
def createEphemeral (c : Client σ) (map : MapFunction) (db : Database σ) :
    Database σ × Except IndexError Descriptor :=
  match c.beforeCreate db with
  | (db, some error) => (db, .error error)
  | (db, none) =>
    match db.store.createEphemeral map with
    | (index, store) => ({ db with store := store }, .ok index)

/-! ## Temporary indexes -/

/-- Count and record what is told of a temporary index. -/
def tell (index : Descriptor) (db : Database σ) : Temporary.Note → Database σ
  | .created =>
    (db.count fun m => { m with temporariesCreated := m.temporariesCreated + 1 }).note
      .temporaryCreated [("index", index.id.text)]
  | .deleted =>
    (db.count fun m => { m with temporariesDeleted := m.temporariesDeleted + 1 }).note
      .temporaryDeleted [("index", index.id.text)]
  | .released => db.note .temporaryReleased [("index", index.id.text)]
  | .violation error =>
    db.note .temporaryViolation
      [("index", index.id.text), ("code", error.code), ("error", error.message)]

/-- Make a temporary index; the caller holds the first share. -/
def createTemporary (c : Client σ) (map : MapFunction) (db : Database σ) :
    Database σ × Except QueryError (Nat × Descriptor) :=
  match db.createEphemeral c map with
  | (db, .error error) => (db, .error (.ofIndexError error))
  | (db, .ok index) =>
    let id := db.temporaries.length
    let db := { db with temporaries := db.temporaries ++ [Temporary.new index] }
    (tell index db .created, .ok (id, index))

/-- Carry out an operation on the record of a temporary index. -/
def onTemporary (id : Nat) (operation : Temporary → Database σ → Temporary.Step (Database σ))
    (db : Database σ) : Database σ × Except QueryError Unit :=
  match db.temporaries[id]? with
  | none => (db, .ok ())
  | some record =>
    let step := operation record db
    let db := { step.world with temporaries := step.world.temporaries.set id step.record }
    (step.notes.foldl (tell record.index) db, step.reply)

def acquireOwner (id : Nat) (db : Database σ) : Database σ × Except QueryError Unit :=
  onTemporary id Temporary.acquireOwner db

def releaseOwner (c : Client σ) (id : Nat) (db : Database σ) : Database σ × Except QueryError Unit :=
  onTemporary id (Temporary.releaseOwner (deleteIndex c)) db

def releaseDeferred (c : Client σ) (id : Nat) (db : Database σ) : Database σ :=
  (onTemporary id (Temporary.releaseDeferred (deleteIndex c)) db).1

def deleteTemporary (c : Client σ) (id : Nat) (db : Database σ) :
    Database σ × Except QueryError Unit :=
  onTemporary id (Temporary.deleteIndex (deleteIndex c)) db

def beginScan (id : Nat) (db : Database σ) : Database σ × Except QueryError Unit :=
  onTemporary id Temporary.beginScan db

/-- Registering a scan changes the record of the temporary index alone. -/
theorem exists_beginScan (temporary : Nat) (db : Database σ) :
    ∃ temporaries, (db.beginScan temporary).1 = { db with temporaries := temporaries } := by
  rw [beginScan, onTemporary]
  split
  · exact ⟨db.temporaries, rfl⟩
  · rw [Temporary.beginScan]
    split
    · exact ⟨_, rfl⟩
    · exact ⟨_, rfl⟩

def endScan (c : Client σ) (id : Nat) (db : Database σ) : Database σ :=
  (onTemporary id (Temporary.endScan (deleteIndex c)) db).1

/-- End the scan registration of a query over a temporary index. -/
def endRegistration (c : Client σ) (temporary : Option Nat) (db : Database σ) : Database σ :=
  match temporary with
  | some id => db.endScan c id
  | none => db

end Viewbase.Database
