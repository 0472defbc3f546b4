import Viewbase.Database.Live

/-!
Writes of documents, and who is told of them.

Subscribers are told of a write once its outcome is there to be read; a write that fails is told to
nobody.
-/

namespace Viewbase.Database

variable {σ : Type}

/-- Tell one subscriber of a change. -/
def notifyOne (c : Client σ) (change : Change) (db : Database σ) : Observer → Database σ
  | .client callback => c.notify callback (.change change) db
  | .live id epoch => db.changeLive id epoch change

/-- Tell everybody who is subscribed to an index that exists. -/
def announce (c : Client σ) (change : Change) (db : Database σ) : Database σ :=
  db.store.audience.foldl (notifyOne c change) db

/-- Write a document.  Subscribers are told once the new state is there. -/
def write (c : Client σ) (id : String) (edit : Store.Edit) (db : Database σ) :
    Database σ × Except IndexError Document :=
  match db.store.write id edit with
  | .error error => (db, .error error)
  | .ok (store, doc) =>
    (announce c ⟨store.generation, [id]⟩ { db with store := store }, .ok doc)

def put (c : Client σ) (id : String) (body : Json) (db : Database σ) :
    Database σ × Except IndexError Document :=
  db.write c id (Store.putEdit id body)

def delete (c : Client σ) (id : String) (db : Database σ) : Database σ × Except IndexError Document :=
  db.write c id (Store.deleteEdit id)

def addConflict (c : Client σ) (id rev : String) (db : Database σ) :
    Database σ × Except IndexError Document :=
  db.write c id (Store.conflictEdit id rev)

def resolveConflicts (c : Client σ) (id : String) (db : Database σ) :
    Database σ × Except IndexError Document :=
  db.write c id (Store.resolveEdit id)

end Viewbase.Database
