import Viewbase.Store.Basic

/-!
Bringing a view up to the current generation.

A view that was built before takes in the documents that changed since; any other is made from all
documents.  If the map function crashes the view is left unbuilt, with the rows it got so far, and
the next refresh starts over.
-/

namespace Viewbase

namespace View

/-- Insert the rows of documents in turn; the first one that the map function crashes on ends it. -/
def absorb (view : View) : List Document → View × Option IndexError
  | [] => (view, none)
  | doc :: rest =>
    match view.map doc with
    | none => (view, some (.scan (.mapCrashed view.descriptor doc.id)))
    | some emitted => absorb { view with tree := view.tree.insertAll doc.id emitted } rest

/-- Take the rows of documents out, or all rows. -/
def withdraw (view : View) : Option (List String) → View
  | none => { view with tree := Tree.empty, indexed := none }
  | some ids => { view with tree := ids.foldl Tree.remove view.tree, indexed := none }

end View

namespace Store

/-- The documents that exist and are not deleted, among those of the given ids. -/
def liveAmong (s : Store) (ids : List String) : List Document :=
  (ids.filterMap s.document?).filter fun doc => !doc.deleted

/-- Bring a view that lags behind up to date. -/
def catchUp (s : Store) (view : View) : Store × Except IndexError Unit :=
  let changed := view.indexed.map s.changedAfter
  let ids := changed.getD (s.documents.map Document.id)
  match (view.withdraw changed).absorb (s.liveAmong ids) with
  | (halfway, some error) => (s.setView halfway, .error error)
  | (rebuilt, none) =>
    ((s.setView { rebuilt with indexed := some s.generation }).prune, .ok ())

/-- Bring a view up to the current generation. -/
def refresh (s : Store) (id : IndexId) : Store × Except IndexError Unit :=
  match s.view? id with
  | none => (s, .error (.unavailable (.index id)))
  | some view =>
    if view.indexed = some s.generation then (s, .ok ()) else s.catchUp view

end Store

end Viewbase
