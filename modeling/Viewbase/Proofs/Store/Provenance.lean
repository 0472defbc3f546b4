import Viewbase.Proofs.Store.Succession

/-!
Where documents and rows come from.

A command puts one document in its place, or none (`mem_documents_perform`), and the body of that
document is the one that was put, an empty one or the one it had (`body_of_edit?`).  A view after a
command is one that the command made, or one that there was before: then its rows were there before
or are emitted by documents that there are (`mem_views_perform`).
-/

namespace Viewbase

namespace View

/-- The view is what became of another one, in a store that brings it up to date: its rows were
there, or they are those of documents of the store. -/
structure Grown (s : Store) (found view : View) : Prop where
  alike : view.Alike found
  rows : ∀ entry ∈ view.tree.entries, entry ∈ found.tree.entries ∨
    ∃ doc, s.document? doc.id = some doc ∧ entry ∈ found.rowsOf doc

theorem Grown.refl (s : Store) (view : View) : Grown s view view :=
  ⟨.refl view, fun _ hentry => .inl hentry⟩

/-! ## Refreshes -/

theorem mem_insertAll {tree : Tree} {docId : String} {emitted : List (Key × Json)} {entry : Entry}
    (h : entry ∈ (tree.insertAll docId emitted).entries) :
    entry ∈ tree.entries ∨ entry ∈ emitted.map fun (key, value) => ⟨key, docId, value⟩ := by
  rw [Tree.insertAll] at h
  induction emitted generalizing tree with
  | nil => exact .inl h
  | cons pair rest ih =>
    rw [List.map_cons, List.mem_cons]
    rcases ih h with hmem | hrest
    · rw [Tree.entries_insert, Entry.mem_place] at hmem
      rcases hmem with rfl | hmem
      · exact .inr (.inl rfl)
      · exact .inl hmem
    · exact .inr (.inr hrest)

/-- Taking documents in adds rows of these documents, also if it fails half way. -/
theorem mem_absorb {view : View} {documents : List Document} {entry : Entry}
    (h : entry ∈ (view.absorb documents).1.tree.entries) :
    entry ∈ view.tree.entries ∨ ∃ doc ∈ documents, entry ∈ view.rowsOf doc := by
  induction documents generalizing view with
  | nil => exact .inl h
  | cons doc rest ih =>
    rw [absorb] at h
    split at h
    · exact .inl h
    next emitted hmap =>
      have hrows : view.rowsOf doc = emitted.map fun (key, value) => ⟨key, doc.id, value⟩ := by
        rw [rowsOf, hmap, Option.getD_some]
      rcases ih h with hmem | ⟨other, hother, hrow⟩
      · rcases mem_insertAll hmem with hmem | hrow
        · exact .inl hmem
        · exact .inr ⟨doc, List.mem_cons_self, hrows ▸ hrow⟩
      · exact .inr ⟨other, List.mem_cons_of_mem _ hother, hrow⟩

theorem mem_withdraw {view : View} {changed : Option (List String)} {entry : Entry}
    (h : entry ∈ (view.withdraw changed).tree.entries) : entry ∈ view.tree.entries := by
  cases changed with
  | none => cases h
  | some ids =>
    have hkept : (view.withdraw (some ids)).tree.entries =
        view.tree.entries.filter fun entry => !ids.contains entry.docId :=
      entries_removeAll view.tree ids
    rw [hkept] at h
    exact (List.mem_filter.1 h).1

end View

namespace Store

variable {s : Store} {view : View}

theorem document?_of_mem_liveAmong {ids : List String} {doc : Document}
    (h : doc ∈ s.liveAmong ids) : s.document? doc.id = some doc := by
  obtain ⟨id, -, hid⟩ := List.mem_filterMap.1 (List.mem_filter.1 h).1
  have hname : doc.id = id := by simpa using List.find?_some hid
  rw [hname, hid]

/-- Catching up leaves a view with rows that it had and rows of documents. -/
theorem grown_caughtUp (s : Store) (found : View) (changed : Option (List String))
    (ids : List String) :
    View.Grown s found ((found.withdraw changed).absorb (s.liveAmong ids)).1 where
  alike := (View.alike_absorb _ _).trans (found.alike_withdraw changed)
  rows entry hentry := by
    rcases View.mem_absorb hentry with hmem | ⟨doc, hdoc, hrow⟩
    · exact .inl (View.mem_withdraw hmem)
    · rw [(found.alike_withdraw changed).rowsOf] at hrow
      exact .inr ⟨doc, document?_of_mem_liveAmong hdoc, hrow⟩

/-- If a view takes the place of what it was, the others stay. -/
theorem exists_grown_of_setView {found caught : View} (hfound : found ∈ s.views)
    (hcaught : View.Grown s found caught) (h : view ∈ (s.setView caught).views) :
    ∃ old ∈ s.views, View.Grown s old view := by
  rcases mem_views_setView h with hview | rfl
  · exact ⟨view, hview, .refl s view⟩
  · exact ⟨found, hfound, hcaught⟩

theorem exists_grown_of_catchUp {found : View} (hfound : found ∈ s.views)
    (h : view ∈ (s.catchUp found).1.views) : ∃ old ∈ s.views, View.Grown s old view := by
  have hgrown := s.grown_caughtUp found (found.indexed.map s.changedAfter)
    ((found.indexed.map s.changedAfter).getD (s.documents.map Document.id))
  rw [catchUp] at h
  split at h
  next heq =>
    rw [heq] at hgrown
    exact exists_grown_of_setView hfound hgrown h
  next rebuilt heq =>
    rw [heq] at hgrown
    have hcurrent : View.Grown s found { rebuilt with indexed := some s.generation } :=
      ⟨⟨hgrown.alike.descriptor, hgrown.alike.map, hgrown.alike.reduce⟩, hgrown.rows⟩
    exact exists_grown_of_setView hfound hcurrent h

/-- A refresh makes no view. -/
theorem exists_grown_of_refresh {id : IndexId} (h : view ∈ (s.refresh id).1.views) :
    ∃ old ∈ s.views, View.Grown s old view := by
  rw [Store.refresh] at h
  split at h
  · exact ⟨view, h, .refl s view⟩
  next found hfound =>
    split at h
    · exact ⟨view, h, .refl s view⟩
    · exact exists_grown_of_catchUp (List.mem_of_find?_eq_some hfound) h

theorem exists_grown_of_scan {request : Request} (h : view ∈ (s.scan request).1.views) :
    ∃ old ∈ s.views, View.Grown s old view := by
  rcases fst_scan s request with heq | ⟨id, -, heq⟩
  · rw [heq] at h
    exact ⟨view, h, .refl s view⟩
  · rw [heq] at h
    obtain ⟨old, hold, halike, hrows⟩ := exists_grown_of_refresh h
    exact ⟨old, hold, halike, hrows⟩

/-! ## Commands -/

end Store

namespace Command

/-- The map function that a command makes a view with. -/
def map? : Command → Option MapFunction
  | defineView _ map _ => some map
  | createEphemeral map => some map
  | _ => none

end Command

namespace Store

variable {s : Store} {view : View} {doc : Document}

theorem views_written (s : Store) (id : String) (edit : Edit) :
    (s.written id edit).views = s.views := by
  rw [written]
  split
  next hwrite => exact (views_write hwrite).1
  next => rfl

/-- A view after a command is one that there was, or one that the command made. -/
theorem mem_views_perform {command : Command} (h : view ∈ (s.perform command).views) :
    (∃ old ∈ s.views, View.Grown s old view) ∨
      ∃ descriptor map reduce, command.map? = some map ∧ view = .unbuilt descriptor map reduce := by
  have hkept : view ∈ s.views → ∃ old ∈ s.views, View.Grown s old view := fun hview =>
    ⟨view, hview, .refl s view⟩
  cases command with
  | put id body => exact .inl (hkept (s.views_written id _ ▸ h))
  | delete id => exact .inl (hkept (s.views_written id _ ▸ h))
  | addConflict id rev => exact .inl (hkept (s.views_written id _ ▸ h))
  | resolveConflicts id => exact .inl (hkept (s.views_written id _ ▸ h))
  | defineView name map reduce =>
    rcases mem_views_defineView h with hview | hview
    · exact .inl (hkept hview)
    · exact .inr ⟨_, map, reduce, rfl, hview⟩
  | createEphemeral map =>
    rcases mem_views_addView h with hview | hview
    · exact .inl (hkept hview)
    · exact .inr ⟨_, map, none, rfl, hview⟩
  | deleteIndex index =>
    rw [perform] at h
    split at h
    next hdelete =>
      obtain ⟨-, -, ⟨name, -, -, rfl⟩ | ⟨-, rfl⟩⟩ := deleteIndex_eq_ok hdelete
      · exact .inl (hkept (List.mem_filter.1 h).1)
      · exact .inl (hkept (List.mem_filter.1 h).1)
    next => exact .inl (hkept h)
  | subscribe index observer =>
    rw [perform] at h
    split at h
    next hsubscribe =>
      obtain ⟨-, -, rfl⟩ := subscribe_eq_ok hsubscribe
      exact .inl (hkept h)
    next => exact .inl (hkept h)
  | unsubscribe token => exact .inl (hkept h)
  | scan request => exact .inl (exists_grown_of_scan h)

/-- A document after a command is one that there was, or what the command made of one. -/
theorem mem_documents_perform {command : Command} (h : doc ∈ (s.perform command).documents) :
    doc ∈ s.documents ∨ ∃ id edit generation, command.edit? = some (id, edit) ∧
      edit generation (s.document? id) = .ok doc := by
  cases hedit : command.edit? with
  | none =>
    rw [(documents_perform hedit s).2] at h
    exact .inl h
  | some write =>
    obtain ⟨id, edit⟩ := write
    rw [perform_of_edit? hedit, written] at h
    split at h
    next hwrite =>
      obtain ⟨hmade, rfl⟩ := write_eq_ok hwrite
      rcases mem_placeDocument h with rfl | hold
      · exact .inr ⟨id, edit, _, rfl, hmade⟩
      · exact .inl hold
    next => exact .inl h

/-- What a write makes of the body of a document: it brings one, or it empties that of a document
that it deletes, or it leaves it. -/
theorem body_of_edit? {command : Command} {id : String} {edit : Edit}
    (h : command.edit? = some (id, edit)) {generation : Nat} {old : Option Document}
    (hedit : edit generation old = .ok doc) :
    (command = .put id doc.body ∧ doc.deleted = false) ∨ doc.body = .object [] ∨
      ∃ d ∈ old, doc.body = d.body ∧ doc.deleted = d.deleted := by
  cases command with
  | put other body =>
    cases h
    cases hedit
    exact .inl ⟨rfl, rfl⟩
  | delete other =>
    cases h
    cases old with
    | none => cases hedit
    | some d =>
      rw [deleteEdit] at hedit
      split at hedit <;> cases hedit
      exact .inr (.inl rfl)
  | addConflict other rev =>
    cases h
    cases old with
    | none => cases hedit
    | some d =>
      rw [conflictEdit] at hedit
      split at hedit <;>
        · cases hedit
          exact .inr (.inr ⟨_, rfl, rfl, rfl⟩)
  | resolveConflicts other =>
    cases h
    cases old with
    | none => cases hedit
    | some d =>
      cases hedit
      exact .inr (.inr ⟨d, rfl, rfl, rfl⟩)
  | _ => cases h

/-- A document that there is stays, in its old or its new form. -/
theorem exists_document?_perform {id : String} (h : s.document? id = some doc)
    (command : Command) : ∃ doc', (s.perform command).document? id = some doc' := by
  cases hedit : command.edit? with
  | none =>
    rw [document?, (documents_perform hedit s).2]
    exact ⟨doc, h⟩
  | some write =>
    obtain ⟨other, edit⟩ := write
    rw [perform_of_edit? hedit, written]
    split
    next hwrite =>
      have hrewrites := rewrites_write (keepsId_of_edit? hedit) hwrite
      by_cases hid : id = other
      · exact ⟨_, hid ▸ hrewrites.document⟩
      · exact ⟨doc, (hrewrites.others id hid).trans h⟩
    next => exact ⟨doc, h⟩

end Store

end Viewbase
