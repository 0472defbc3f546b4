import Viewbase.Store.Basic

/-!
Writes of documents.

A write edits one document at a new generation, or fails and changes nothing.
-/

namespace Viewbase.Store

/-- Put a document in its place among sorted documents, instead of one of the same id. -/
def placeDocument (doc : Document) : List Document → List Document
  | [] => [doc]
  | other :: rest =>
    match Text.order doc.id other.id with
    | .lt => doc :: other :: rest
    | .eq => doc :: rest
    | .gt => other :: placeDocument doc rest

theorem find?_placeDocument (doc : Document) (documents : List Document) :
    (placeDocument doc documents).find? (·.id == doc.id) = some doc := by
  induction documents with
  | nil => simp [placeDocument]
  | cons other rest ih =>
    rw [placeDocument]
    split
    · simp
    · simp
    next h =>
      have hne : other.id ≠ doc.id := fun heq => by
        rw [heq, Text.order_eq_eq.2 rfl] at h
        cases h
      rw [List.find?_cons_of_neg (by simpa using hne), ih]

theorem find?_placeDocument_of_ne {doc : Document} {id : String} (hne : doc.id ≠ id)
    (documents : List Document) :
    (placeDocument doc documents).find? (·.id == id) = documents.find? (·.id == id) := by
  induction documents with
  | nil => simp [placeDocument, hne]
  | cons other rest ih =>
    rw [placeDocument]
    split
    · rw [List.find?_cons_of_neg (by simpa using hne)]
    next h =>
      have hother : other.id ≠ id := Text.order_eq_eq.1 h ▸ hne
      rw [List.find?_cons_of_neg (by simpa using hne), List.find?_cons_of_neg (by simpa using hother)]
    · simp only [List.find?_cons, ih]

/-- How a write changes its document, given the new generation. -/
abbrev Edit := Nat → Option Document → Except IndexError Document

/-- Apply an edit to the document `id`, log it, and answer the store with the new document. -/
def write (s : Store) (id : String) (edit : Edit) : Except IndexError (Store × Document) :=
  let generation := s.generation + 1
  match edit generation (s.document? id) with
  | .error error => .error error
  | .ok doc =>
    let written := { s with
      generation := generation
      documents := placeDocument doc s.documents
      log := s.log ++ [(generation, id)] }
    .ok (written.prune, doc)

/-- A write that succeeds makes the next generation of one document. -/
theorem write_eq_ok {s written : Store} {id : String} {edit : Edit} {doc : Document}
    (h : s.write id edit = .ok (written, doc)) :
    edit (s.generation + 1) (s.document? id) = .ok doc ∧
      written = prune { s with
        generation := s.generation + 1
        documents := placeDocument doc s.documents
        log := s.log ++ [(s.generation + 1, id)] } := by
  simp only [write] at h
  split at h
  · cases h
  next hdoc =>
    cases h
    exact ⟨hdoc, rfl⟩

theorem generation_write {s written : Store} {id : String} {edit : Edit} {doc : Document}
    (h : s.write id edit = .ok (written, doc)) : written.generation = s.generation + 1 := by
  rw [(write_eq_ok h).2]
  rfl

def missing (id : String) : IndexError :=
  .unavailable (.document id)

/-- Create or update a document; conflicting revisions stay. -/
def putEdit (id : String) (body : Json) : Edit := fun generation old =>
  .ok
    { id := id
      rev := Revision.next (old.map Document.rev) generation
      body := body
      deleted := false
      conflicts := (old.map Document.conflicts).getD [] }

/-- Make a tombstone of a document that is not one yet. -/
def deleteEdit (id : String) : Edit := fun generation old =>
  match old with
  | none => .error (missing id)
  | some doc =>
    if doc.deleted then .error (missing id)
    else
      .ok { doc with
        rev := Revision.next (some doc.rev) generation
        body := .object []
        deleted := true }

/-- Note a conflicting revision, once. -/
def conflictEdit (id rev : String) : Edit := fun _ old =>
  match old with
  | none => .error (missing id)
  | some doc =>
    if doc.conflicts.contains rev then .ok doc
    else .ok { doc with conflicts := doc.conflicts ++ [rev] }

/-- Drop every conflicting revision. -/
def resolveEdit (id : String) : Edit := fun _ old =>
  match old with
  | none => .error (missing id)
  | some doc => .ok { doc with conflicts := [] }

end Viewbase.Store
