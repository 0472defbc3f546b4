import Viewbase.Tree
import Viewbase.Request
import Viewbase.Error

/-!
The store: documents, the views over them, the log of changes and the subscriptions to it.

Every successful write makes one new generation.  A view is derived from the documents; it notes
the generation it was brought up to, and the log holds every change that some built view has yet to
take in.
-/

namespace Viewbase

/-- An index over the documents. -/
structure View where
  descriptor : Descriptor
  map : MapFunction
  reduce : Option ReduceFunction
  tree : Tree
  /-- The generation the rows reflect; absent until the view is built, and after a refresh that
  failed. -/
  indexed : Option Nat

namespace View

/-- A view that has yet to be built. -/
def unbuilt (descriptor : Descriptor) (map : MapFunction) (reduce : Option ReduceFunction) : View :=
  ⟨descriptor, map, reduce, Tree.empty, none⟩

def id (view : View) : IndexId :=
  view.descriptor.id

end View

/-- Who is told of changes: a callback of the client, or a live query in one of its epochs. -/
inductive Observer where
  | client (callback : Nat)
  | live (query epoch : Nat)
  deriving DecidableEq, Repr

/-- The handle of a subscription. -/
structure Token where
  number : Nat
  deriving DecidableEq, Repr

structure Subscription where
  token : Token
  index : IndexId
  observer : Observer

/-- What subscribers are told. -/
structure Change where
  generation : Nat
  docIds : List String

structure Store where
  generation : Nat
  /-- Ascending by id, each id once. -/
  documents : List Document
  views : List View
  /-- The latest definition under each name. -/
  names : List (String × IndexId)
  /-- The document written at each generation that is still of use, ascending. -/
  log : List (Nat × String)
  subscriptions : List Subscription
  /-- How many scans were asked for. -/
  scans : Nat
  /-- The highest number that the identity of an index has taken; the next index is numbered after
  it. -/
  numbered : Nat
  /-- How many subscriptions were ever made. -/
  tokens : Nat

namespace Store

/-- A store without documents and indexes, whose indexes are numbered after the given number.
Whoever makes the store says where the numbering begins, and so can keep identities apart from the
texts already in use. -/
def empty (numbered : Nat) : Store where
  generation := 0
  documents := []
  views := []
  names := []
  log := []
  subscriptions := []
  scans := 0
  numbered := numbered
  tokens := 0

def document? (s : Store) (id : String) : Option Document :=
  s.documents.find? fun doc => doc.id == id

def view? (s : Store) (id : IndexId) : Option View :=
  s.views.find? fun view => decide (view.id = id)

/-- The latest definition under a name. -/
def named? (s : Store) (name : String) : Option Descriptor :=
  (s.names.lookup name).bind fun id => (s.view? id).map View.descriptor

def hasIndex (s : Store) (id : IndexId) : Bool :=
  (s.view? id).isSome

/-- Replace a view by one of the same identity. -/
def setView (s : Store) (view : View) : Store :=
  { s with views := s.views.map fun old => if old.id = view.id then view else old }

/-- The least generation that some built view reflects; the current one if none is built. -/
def indexedFloor (s : Store) : Nat :=
  match s.views.filterMap View.indexed with
  | [] => s.generation
  | first :: rest => rest.foldl Nat.min first

/-- Forget the changes that every built view has taken in.  Unbuilt views are made from the
documents and need no log. -/
def prune (s : Store) : Store :=
  { s with log := s.log.filter fun change => decide (s.indexedFloor < change.1) }

/-- The documents changed after a generation, ascending, each once. -/
def changedAfter (s : Store) (generation : Nat) : List String :=
  (s.log.filter fun change => decide (generation < change.1)).foldl
    (fun ids change => insertId change.2 ids) []
where
  insertId (id : String) : List String → List String
    | [] => [id]
    | other :: rest =>
      match Text.order id other with
      | .lt => id :: other :: rest
      | .eq => other :: rest
      | .gt => other :: insertId id rest

end Store

end Viewbase
