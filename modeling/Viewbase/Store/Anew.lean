import Viewbase.Store.Scan

/-!
Answers from scratch: the rows of a view made anew from the documents, without any index kept from
before.

This says what an index is for.  It costs a pass over all documents each time.
-/

namespace Viewbase

namespace View

/-- The rows that documents emit, in the order of the documents; or the error for the first document
that the map function crashes on. -/
def emitAll (view : View) : List Document → Except IndexError (List Entry)
  | [] => .ok []
  | doc :: rest =>
    match view.map doc with
    | none => .error (.scan (.mapCrashed view.descriptor doc.id))
    | some emitted =>
      match emitAll view rest with
      | .error error => .error error
      | .ok entries =>
        .ok ((emitted.map fun (key, value) => ⟨key, doc.id, value⟩) ++ entries)

end View

namespace Entry

/-- Rows in the order of an ascending scan, whatever order they come in; rows of one position keep
theirs. -/
def ascending (entries : List Entry) : List Entry :=
  entries.mergeSort fun a b => a.order b != .gt

/-- Those of ascending rows that a selection names, in scan order. -/
def selected (selection : Selection) (descending : Bool) (entries : List Entry) : List Entry :=
  match selection with
  | .keys keys => keys.flatMap fun key =>
      View.directed descending (entries.filter fun entry => entry.key.same key)
  | .range range =>
    View.directed descending <|
      entries.filter fun entry => range.contains descending entry.key entry.docId

end Entry

namespace Document

/-- The documents that are not deleted. -/
def living (documents : List Document) : List Document :=
  documents.filter fun doc => !doc.deleted

end Document

namespace Store

/-- The answer of a view made anew from the documents: what they emit, in order, of which the
selected rows are grouped and reduced or have bodies attached, and then paged. -/
def answerAnew (s : Store) (view : View) (request : Request) : Except IndexError Answer :=
  match view.emitAll (Document.living s.documents) with
  | .error error => .error error
  | .ok entries =>
    s.answerRows view request
      (Entry.selected request.selection request.descending (Entry.ascending entries)) s.generation

end Store

end Viewbase
