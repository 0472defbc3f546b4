import Viewbase.Store.Refresh

/-!
Scans of views and of the built-in enumeration of all documents.
-/

namespace Viewbase

/-- The rows of one group: its key, and the keys and values of its rows in scan order. -/
structure Group where
  key : Key
  keys : List Key
  values : List Json

namespace Group

/-- The key of the group of a row; at level 0 all rows are one group. -/
def keyAt (level : Nat) (key : Key) : Key :=
  if level = 0 then .null else key.truncate level

/-- Split rows into runs of one group key. -/
def runs (level : Nat) : List Entry → List Group
  | [] => []
  | entry :: rest =>
    let key := keyAt level entry.key
    match runs level rest with
    | [] => [⟨key, [entry.key], [entry.value]⟩]
    | group :: groups =>
      if key.same group.key then
        ⟨key, entry.key :: group.keys, entry.value :: group.values⟩ :: groups
      else ⟨key, [entry.key], [entry.value]⟩ :: group :: groups

/-- Reduce groups in turn; the first one that the function crashes on ends it. -/
def reduceAll (reduce : ReduceFunction) : List Group → Except IndexError (List Row)
  | [] => .ok []
  | group :: rest =>
    match reduce group.keys group.values with
    | none => .error (.scan (.reduceCrashed group.key))
    | some value =>
      match reduceAll reduce rest with
      | .error error => .error error
      | .ok rows => .ok (Row.aggregate group.key value :: rows)

end Group

namespace View

/-- The rows of a view in the order a scan meets them. -/
def directed (descending : Bool) (entries : List Entry) : List Entry :=
  if descending then entries.reverse else entries

/-- The rows a request selects, in scan order. -/
def select (view : View) (selection : Selection) (descending : Bool) : List Entry :=
  match selection with
  | .keys keys => keys.flatMap fun key => directed descending (view.tree.entriesFor key)
  | .range range =>
    (directed descending view.tree.entries).filter fun entry =>
      range.contains descending entry.key entry.docId

end View

namespace Store

/-- The answer row of an emitted row, with the body of its document if that is asked for. -/
def mappedRow (s : Store) (includeDocs : Bool) (entry : Entry) : Row :=
  let row := Row.mapped entry.key entry.value entry.docId
  if includeDocs then { row with document := (s.document? entry.docId).map Document.body } else row

/-- Answer a request from the rows of a view that it selects, read at a generation. -/
def answerRows (s : Store) (view : View) (request : Request) (selected : List Entry)
    (generation : Nat) : Except IndexError Answer :=
  if request.reduce then
    match view.reduce with
    | none => .error (.scan (.noReduce view.descriptor))
    | some reduce =>
      match Group.reduceAll reduce (Group.runs request.groupLevel selected) with
      | .error error => .error error
      | .ok rows => .ok ⟨page request.skip request.limit rows, generation⟩
  else
    .ok ⟨(page request.skip request.limit selected).map (s.mappedRow request.includeDocs),
      generation⟩

/-- Answer a request from the rows a view has now. -/
def scanView (s : Store) (view : View) (request : Request) : Except IndexError Answer :=
  s.answerRows view request (view.select request.selection request.descending)
    (view.indexed.getD 0)

/-- Answer a request from the rows an index has now. -/
def scanIndex (s : Store) (id : IndexId) (request : Request) : Except IndexError Answer :=
  match s.view? id with
  | none => .error (.unavailable (.index id))
  | some view => s.scanView view request

/-! ## All documents -/

/-- The documents a request selects, in scan order. -/
def selectDocuments (s : Store) (request : Request) : List Document :=
  match request.selection with
  | .keys keys =>
    (keys.filterMap Key.string?).filterMap s.document? |>.filter request.mode.shows
  | .range range =>
    let documents := if request.descending then s.documents.reverse else s.documents
    documents.filter fun doc =>
      request.mode.shows doc && range.contains request.descending (.string doc.id) doc.id

/-- What the enumeration tells of a document: its revision, and that it is deleted if it is. -/
def documentValue (doc : Document) : Json :=
  let rev := ("rev", Json.string doc.rev.text)
  if doc.deleted then .object [("deleted", .bool true), rev] else .object [rev]

def documentRow (request : Request) (doc : Document) : Row where
  key := .string doc.id
  value := documentValue doc
  docId := some doc.id
  document := if request.includeDocs && !doc.deleted then some doc.body else none
  conflicts := if request.mode.tellsConflicts then some doc.conflicts else none

/-- Answer a request from the documents; reduction and staleness do not apply. -/
def scanDocuments (s : Store) (request : Request) : Answer :=
  ⟨(page request.skip request.limit (s.selectDocuments request)).map (documentRow request),
    s.generation⟩

/-! ## Scan -/

/-- Scan an index, refreshing it before or after as the request says.  An error of either refresh
is the answer. -/
def scanRefreshing (s : Store) (id : IndexId) (request : Request) : Store × Except IndexError Answer :=
  match request.stale with
  | .neverRefresh => (s, s.scanIndex id request)
  | .refreshBefore =>
    match s.refresh id with
    | (s, .error error) => (s, .error error)
    | (s, .ok ()) => (s, s.scanIndex id request)
  | .refreshAfter =>
    match s.scanIndex id request with
    | .error error => (s, .error error)
    | .ok answer =>
      match s.refresh id with
      | (s, .error error) => (s, .error error)
      | (s, .ok ()) => (s, .ok answer)

/-- Answer a request. -/
def scan (s : Store) (request : Request) : Store × Except IndexError Answer :=
  let counted := { s with scans := s.scans + 1 }
  match request.target with
  | .documents => (counted, .ok (counted.scanDocuments request))
  | .index id => counted.scanRefreshing id request

end Store

end Viewbase
