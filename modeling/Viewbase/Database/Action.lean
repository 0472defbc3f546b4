import Viewbase.Database.Schedule
import Viewbase.Store.History

/-!
Histories of a database: what its client asks of it, and how its background work goes on, in any
order.

Jobs go on in the order of the schedule when a database drains itself.  Here any job that can go on
may be next, any scan that is under way may end, and the time of any timer may come; so a statement
about all histories holds of every schedule.
-/

namespace Viewbase

/-- Something that can happen to a database. -/
inductive Action where
  | put (id : String) (body : Json)
  | delete (id : String)
  | addConflict (id rev : String)
  | resolveConflicts (id : String)
  | defineView (name : String) (map : MapFunction) (reduce : Option ReduceFunction)
  | deleteIndex (index : Descriptor)
  | subscribe (index : Descriptor) (callback : Nat)
  | unsubscribe (token : Token)
  | scan (request : Request)
  | queryIndex (index : Descriptor)
  | queryDocuments
  | queryMap (map : MapFunction)
  | copyQuery (query : Nat)
  | configure (query : Nat) (change : Settings → Settings)
  | disposeQuery (query : Nat)
  | dropQuery (query : Nat)
  | runQuery (query : Nat)
  | submit (query : Nat) (recipient : Recipient)
  | cancel (run : Nat)
  | acquireOwner (temporary : Nat)
  | releaseOwner (temporary : Nat)
  | releaseDeferred (temporary : Nat)
  | deleteTemporary (temporary : Nat)
  | beginScan (temporary : Nat)
  | endScan (temporary : Nat)
  | makeLive (query : Nat)
  | startLive (live : Nat)
  | stopLive (live : Nat)
  | disposeLive (live : Nat)
  | dropLive (live : Nat)
  | addListener (live callback : Nat)
  | removeListener (live callback : Nat)
  /-- A job that can go on does. -/
  | go (job : Job)
  /-- The scan of a run that is under way comes to its end. -/
  | scanRun (run : Nat)
  /-- The time of the next timer comes. -/
  | fire

namespace Database

variable {σ : Type}

/-- Let the scan of a run that is under way come to its end. -/
def endRunScan (c : Client σ) (run : Nat) (db : Database σ) : Database σ :=
  if db.scanning.contains run then db.scanRun c run else db

/-- Let the time of the next timer come. -/
def fireNext (db : Database σ) : Database σ :=
  match db.nextDue? with
  | some due => db.fire due
  | none => db

/-- Have the store carry out a command that nothing else of the database depends on. -/
def command (command : Command) (db : Database σ) : Database σ :=
  { db with store := db.store.perform command }

/-- The database after an action, whatever the reply. -/
def perform (c : Client σ) (db : Database σ) : Action → Database σ
  | .put id body => (db.put c id body).1
  | .delete id => (db.delete c id).1
  | .addConflict id rev => (db.addConflict c id rev).1
  | .resolveConflicts id => (db.resolveConflicts c id).1
  | .defineView name map reduce => db.command (.defineView name map reduce)
  | .deleteIndex index => (db.deleteIndex c index).1
  | .subscribe index callback => db.command (.subscribe index (.client callback))
  | .unsubscribe token => db.command (.unsubscribe token)
  | .scan request => (db.scan c request).1
  | .queryIndex index => (db.queryIndex index).1
  | .queryDocuments => db.queryDocuments.1
  | .queryMap map => (db.queryMap c map).1
  | .copyQuery query => (db.copyQuery query).1
  | .configure query change => db.configure query change
  | .disposeQuery query => (db.dispose c query).1
  | .dropQuery query => db.dropQuery c query
  | .runQuery query => (db.runQuery c query).1
  | .submit query recipient => (db.submit query recipient).1
  | .cancel run => (db.cancel run).1
  | .acquireOwner temporary => (db.acquireOwner temporary).1
  | .releaseOwner temporary => (db.releaseOwner c temporary).1
  | .releaseDeferred temporary => db.releaseDeferred c temporary
  | .deleteTemporary temporary => (db.deleteTemporary c temporary).1
  | .beginScan temporary => (db.beginScan temporary).1
  | .endScan temporary => db.endScan c temporary
  | .makeLive query => (db.makeLive query).1
  | .startLive live => (db.startLive live).1
  | .stopLive live => db.stopLive live
  | .disposeLive live => db.disposeLive c live
  | .dropLive live => db.dropLive c live
  | .addListener live callback => db.addListener live callback
  | .removeListener live callback => (db.removeListener live callback).1
  | .go job => db.go c job
  | .scanRun run => db.endRunScan c run
  | .fire => db.fireNext

/-- The database after actions in turn. -/
def performAll (c : Client σ) (actions : List Action) (db : Database σ) : Database σ :=
  actions.foldl (perform c) db

end Database

end Viewbase
