import Viewbase.Store.Index
import Viewbase.Store.Scan
import Viewbase.Store.Write

/-!
Histories of a store: the commands it was given, from an empty store on.
-/

namespace Viewbase

/-- Something a store can be asked to do. -/
inductive Command where
  | put (id : String) (body : Json)
  | delete (id : String)
  | addConflict (id rev : String)
  | resolveConflicts (id : String)
  | defineView (name : String) (map : MapFunction) (reduce : Option ReduceFunction)
  | createEphemeral (map : MapFunction)
  | deleteIndex (index : Descriptor)
  | subscribe (index : Descriptor) (observer : Observer)
  | unsubscribe (token : Token)
  | scan (request : Request)

namespace Command

/-- How a command edits a document, if it is a write. -/
def edit? : Command → Option (String × Store.Edit)
  | put id body => some (id, Store.putEdit id body)
  | delete id => some (id, Store.deleteEdit id)
  | addConflict id rev => some (id, Store.conflictEdit id rev)
  | resolveConflicts id => some (id, Store.resolveEdit id)
  | _ => none

end Command

namespace Store

/-- The store after a write; a write that fails leaves it as it was. -/
def written (s : Store) (id : String) (edit : Edit) : Store :=
  match s.write id edit with
  | .ok (written, _) => written
  | .error _ => s

/-- The store after a command; a command that fails leaves it as it was, but for what a scan does
to the view it reads. -/
def perform (s : Store) : Command → Store
  | .put id body => s.written id (putEdit id body)
  | .delete id => s.written id (deleteEdit id)
  | .addConflict id rev => s.written id (conflictEdit id rev)
  | .resolveConflicts id => s.written id (resolveEdit id)
  | .defineView name map reduce => (s.defineView name map reduce).2
  | .createEphemeral map => (s.createEphemeral map).2
  | .deleteIndex index =>
    match s.deleteIndex index with
    | .ok deleted => deleted
    | .error _ => s
  | .subscribe index observer =>
    match s.subscribe index observer with
    | .ok (_, subscribed) => subscribed
    | .error _ => s
  | .unsubscribe token => s.unsubscribe token
  | .scan request => (s.scan request).1

/-- The store that commands lead to from an empty one, whose indexes are numbered after the given
number. -/
def after (numbered : Nat) (history : List Command) : Store :=
  history.foldl perform (empty numbered)

end Store

end Viewbase
