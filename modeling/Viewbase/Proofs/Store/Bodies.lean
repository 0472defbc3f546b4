import Viewbase.Proofs.Store.Enumeration
import Viewbase.Proofs.Store.Provenance
import Viewbase.Proofs.Store.Snapshot

/-!
The bodies that rows come with.

Every row of a view is of a document that the store has, as a tombstone if it was deleted since, and
tombstones are empty (`Rooted`).  Main statement: whoever asks for bodies gets with every row the
current body of a living document, and nothing with the row of a tombstone from the enumeration or
from a view that was refreshed first; a view that lags behind attaches the empty body of the
tombstone (`attached_iff`).
-/

namespace Viewbase

namespace Document

/-- A tombstone has an empty body. -/
def Emptied (doc : Document) : Prop :=
  doc.deleted = true → doc.body = .object []

/-- The body of a document that is not deleted. -/
def livingBody? (doc : Document) : Option Json :=
  if doc.deleted then none else some doc.body

theorem livingBody?_of_living {doc : Document} (h : doc.deleted = false) :
    doc.livingBody? = some doc.body := by
  rw [livingBody?, h]
  rfl

theorem livingBody?_of_deleted {doc : Document} (h : doc.deleted = true) :
    doc.livingBody? = none := by
  rw [livingBody?, h]
  rfl

end Document

theorem View.mem_directed {descending : Bool} {entries : List Entry} {entry : Entry} :
    entry ∈ directed descending entries ↔ entry ∈ entries := by
  cases descending with
  | false => exact Iff.rfl
  | true => exact List.mem_reverse

namespace Store

/-! ## Rows and their documents -/

/-- Every row of a view is of a document that there is. -/
def Roots (s : Store) (view : View) : Prop :=
  ∀ entry ∈ view.tree.entries, ∃ doc, s.document? entry.docId = some doc

/-- Every row is of a document that there is, and tombstones are empty. -/
structure Rooted (s : Store) : Prop where
  rows : ∀ view ∈ s.views, s.Roots view
  bodies : ∀ doc ∈ s.documents, doc.Emptied

variable {s : Store}

theorem rooted_empty (numbered : Nat) : (empty numbered).Rooted where
  rows := by simp [empty]
  bodies := by simp [empty]

/-- No command uproots a row, or leaves a body in a tombstone. -/
theorem Rooted.perform (h : s.Rooted) (command : Command) : (s.perform command).Rooted where
  rows view hview entry hentry := by
    have hstays : (∃ doc, s.document? entry.docId = some doc) →
        ∃ doc, (s.perform command).document? entry.docId = some doc :=
      fun ⟨_, hdoc⟩ => exists_document?_perform hdoc command
    rcases mem_views_perform hview with ⟨old, hold, hgrown⟩ | ⟨_, _, _, -, rfl⟩
    · rcases hgrown.rows entry hentry with hmem | ⟨doc, hdoc, hrow⟩
      · exact hstays (h.rows old hold entry hmem)
      · exact hstays ⟨doc, View.docId_of_mem_rowsOf hrow ▸ hdoc⟩
    · cases hentry
  bodies doc hdoc hdeleted := by
    rcases mem_documents_perform hdoc with hold | ⟨id, edit, generation, hedit, hmade⟩
    · exact h.bodies doc hold hdeleted
    · rcases body_of_edit? hedit hmade with ⟨-, hliving⟩ | hempty | ⟨old, hold, hbody, hsame⟩
      · cases hliving.symm.trans hdeleted
      · exact hempty
      · rw [hbody]
        exact h.bodies old (List.mem_of_find?_eq_some hold) (hsame ▸ hdeleted)

theorem rooted_after (numbered : Nat) (history : List Command) :
    (after numbered history).Rooted := by
  induction history using List.reverseRecOn with
  | nil => exact rooted_empty numbered
  | append_singleton history command ih =>
    rw [after_append_singleton]
    exact ih.perform command

/-! ## Answers -/

variable {request : Request} {answer : Answer} {row : Row}

theorem mem_selected {selection : Selection} {descending : Bool} {entries : List Entry}
    {entry : Entry} (h : entry ∈ Entry.selected selection descending entries) :
    entry ∈ entries := by
  cases selection with
  | keys keys =>
    obtain ⟨key, -, hkey⟩ := List.mem_flatMap.1 h
    exact (List.mem_filter.1 (View.mem_directed.1 hkey)).1
  | range range => exact (List.mem_filter.1 (View.mem_directed.1 h)).1

/-- A row that is not reduced is that of a row of an index. -/
theorem exists_entry_of_answerRows {view : View} {selected : List Entry} {generation : Nat}
    (hreduce : request.reduce = false)
    (h : s.answerRows view request selected generation = .ok answer) (hrow : row ∈ answer.rows) :
    ∃ entry ∈ selected, row = s.mappedRow request.includeDocs entry := by
  rw [answerRows, hreduce] at h
  cases h
  obtain ⟨entry, hentry, rfl⟩ := List.mem_map.1 hrow
  exact ⟨entry, mem_of_mem_page hentry, rfl⟩

/-- The row of a document that there is comes with the body it has, deleted or not. -/
theorem mappedRow_of_document? {entry : Entry} {doc : Document}
    (h : s.document? entry.docId = some doc) :
    (s.mappedRow true entry).docId = some doc.id ∧
      (s.mappedRow true entry).document = some doc.body := by
  have hid : doc.id = entry.docId := by simpa using List.find?_some h
  exact ⟨congrArg some hid.symm, congrArg (Option.map Document.body) h⟩

/-- A view that is not refreshed first attaches the bodies that documents have. -/
theorem Rooted.attached (h : s.Rooted) {view : View} (hview : view ∈ s.views)
    (hdocs : request.includeDocs = true) (hreduce : request.reduce = false)
    (hscan : s.scanView view request = .ok answer) (hrow : row ∈ answer.rows) :
    ∃ doc, s.document? doc.id = some doc ∧ row.docId = some doc.id ∧
      row.document = some doc.body := by
  obtain ⟨entry, hentry, rfl⟩ := exists_entry_of_answerRows hreduce hscan hrow
  rw [View.select_eq_selected] at hentry
  obtain ⟨doc, hdoc⟩ := h.rows view hview entry (mem_selected hentry)
  have hid : doc.id = entry.docId := by simpa using List.find?_some hdoc
  rw [hdocs]
  exact ⟨doc, hid ▸ hdoc, mappedRow_of_document? hdoc⟩

/-- A view made anew attaches the bodies of living documents. -/
theorem attached_anew (hsorted : s.documents.Pairwise Document.Before) {view : View}
    (hdocs : request.includeDocs = true) (hreduce : request.reduce = false)
    (hanew : s.answerAnew view request = .ok answer) (hrow : row ∈ answer.rows) :
    ∃ doc, s.document? doc.id = some doc ∧ doc.deleted = false ∧ row.docId = some doc.id ∧
      row.document = some doc.body := by
  rw [answerAnew, View.emitAll_eq] at hanew
  cases hcrash : view.crash? (Document.living s.documents) with
  | some doc =>
    rw [hcrash] at hanew
    cases hanew
  | none =>
    rw [hcrash] at hanew
    obtain ⟨entry, hentry, rfl⟩ := exists_entry_of_answerRows hreduce hanew hrow
    obtain ⟨doc, hdoc, hemitted⟩ := List.mem_flatMap.1 (List.mem_mergeSort.1 (mem_selected hentry))
    obtain ⟨pair, -, rfl⟩ := List.mem_map.1 hemitted
    obtain ⟨hmem, hliving⟩ := Document.mem_living.1 hdoc
    have hfound : s.document? doc.id = some doc := Document.find?_of_mem hsorted hmem
    rw [hdocs]
    exact ⟨doc, hfound, hliving, mappedRow_of_document? hfound⟩

theorem mem_documents_of_selectDocuments {doc : Document} (h : doc ∈ s.selectDocuments request) :
    doc ∈ s.documents := by
  rw [selectDocuments] at h
  split at h
  · obtain ⟨id, -, hid⟩ := List.mem_filterMap.1 (List.mem_filter.1 h).1
    exact List.mem_of_find?_eq_some hid
  · have hmem := (List.mem_filter.1 h).1
    split at hmem
    · exact List.mem_reverse.1 hmem
    · exact hmem

/-- The enumeration attaches the bodies of living documents, in every mode. -/
theorem attached_documents (hsorted : s.documents.Pairwise Document.Before)
    (hdocs : request.includeDocs = true) (hrow : row ∈ (s.scanDocuments request).rows) :
    ∃ doc, s.document? doc.id = some doc ∧ row.docId = some doc.id ∧
      row.document = doc.livingBody? := by
  obtain ⟨doc, hdoc, rfl⟩ := List.mem_map.1 hrow
  have hmem := mem_documents_of_selectDocuments (mem_of_mem_page hdoc)
  refine ⟨doc, Document.find?_of_mem hsorted hmem, rfl, ?_⟩
  rw [documentRow, hdocs]
  cases hdeleted : doc.deleted with
  | true => rw [Document.livingBody?_of_deleted hdeleted]; rfl
  | false => rw [Document.livingBody?_of_living hdeleted]; rfl

/-- A scan of an index that answers has found the view. -/
theorem exists_view_of_scan {id : IndexId} (htarget : request.target = .index id)
    (hscan : (s.scan request).2 = .ok answer) : ∃ view, s.view? id = some view := by
  cases hview : s.view? id with
  | some view => exact ⟨view, rfl⟩
  | none =>
    have hview' : { s with scans := s.scans + 1 }.view? id = none := hview
    rw [scan, htarget] at hscan
    cases hstale : request.stale <;>
      simp [scanRefreshing, hstale, Store.refresh, scanIndex, hview'] at hscan

/-- After any history, every row that is not reduced is of a document that there is.  If bodies are
asked for, it comes with the current body of a living document and with none of a tombstone, unless
it is of a tombstone and from a view that was not refreshed first: then the empty body of the
tombstone is attached. -/
theorem attached_iff (numbered : Nat) (history : List Command)
    (hdocs : request.includeDocs = true)
    (hrows : request.target = .documents ∨ request.reduce = false)
    (hscan : ((after numbered history).scan request).2 = .ok answer) (hrow : row ∈ answer.rows) :
    ∃ doc, (after numbered history).document? doc.id = some doc ∧ row.docId = some doc.id ∧
      (row.document = doc.livingBody? ↔ request.target = .documents ∨ doc.deleted = false) ∧
      (row.document ≠ doc.livingBody? →
        request.stale ≠ .refreshBefore ∧ row.document = some (.object [])) := by
  have hrooted := rooted_after numbered history
  obtain ⟨past, hfollows, -⟩ := exists_timeline numbered history
  generalize after numbered history = s at hscan hrooted hfollows ⊢
  cases htarget : request.target with
  | documents =>
    rw [scan, htarget] at hscan
    cases hscan
    obtain ⟨doc, hfound, hid, hbody⟩ := attached_documents (hfollows.counted _).sorted hdocs hrow
    exact ⟨doc, hfound, hid, iff_of_true hbody (.inl rfl), fun hne => absurd hbody hne⟩
  | index id =>
    have hreduce := hrows.resolve_left (by rw [htarget]; exact fun h => by cases h)
    obtain ⟨view, hview⟩ := exists_view_of_scan htarget hscan
    by_cases hstale : request.stale = .refreshBefore
    · rw [hfollows.scan_refreshBefore htarget hstale hview] at hscan
      obtain ⟨doc, hfound, hliving, hid, hbody⟩ :=
        attached_anew hfollows.sorted hdocs hreduce hscan hrow
      rw [← Document.livingBody?_of_living hliving] at hbody
      exact ⟨doc, hfound, hid, iff_of_true hbody (.inr hliving), fun hne => absurd hbody hne⟩
    · obtain ⟨doc, hfound, hid, hbody⟩ := hrooted.attached (List.mem_of_find?_eq_some hview) hdocs
        hreduce (scanView_of_scan htarget hstale hview hscan) hrow
      refine ⟨doc, hfound, hid, ?_⟩
      cases hdeleted : doc.deleted with
      | false =>
        rw [← Document.livingBody?_of_living hdeleted] at hbody
        exact ⟨iff_of_true hbody (.inr rfl), fun hne => absurd hbody hne⟩
      | true =>
        rw [Document.livingBody?_of_deleted hdeleted]
        rw [hrooted.bodies doc (List.mem_of_find?_eq_some hfound) hdeleted] at hbody
        have hattached : row.document ≠ none := by
          rw [hbody]
          exact Option.some_ne_none _
        exact ⟨iff_of_false hattached (by simp), fun _ => ⟨hstale, hbody⟩⟩

/-- A request for all rows of an index, with bodies. -/
def wholeWithBodies (id : IndexId) (stale : Staleness) : Request :=
  { wholeOf id stale with includeDocs := true }

/-- The view has a row of a document that was deleted since, and one of a document that was not. -/
theorem attached_lagging :
    ∃ answer, ((after 0 lagging).scan (wholeWithBodies ⟨1⟩ .neverRefresh)).2 = .ok answer ∧
      ∃ row ∈ answer.rows, ∃ doc, (after 0 lagging).document? doc.id = some doc ∧
        row.docId = some doc.id ∧
        (row.document = doc.livingBody? ↔
          (wholeWithBodies ⟨1⟩ .neverRefresh).target = .documents ∨ doc.deleted = false) ∧
        (row.document ≠ doc.livingBody? →
          (wholeWithBodies ⟨1⟩ .neverRefresh).stale ≠ .refreshBefore ∧
            row.document = some (.object [])) := by
  have hrow : Row.mk (.string "b") (.bool true) (some "b") (some (.bool true)) none ∈
      (Answer.mk [⟨.string "a", .bool true, some "a", some (.object []), none⟩,
        ⟨.string "b", .bool true, some "b", some (.bool true), none⟩] 2).rows := by simp
  exact ⟨_, rfl, _, hrow, attached_iff 0 lagging rfl (.inr rfl) rfl hrow⟩

/-- The tombstone's body is attached to the row that the view still has of it. -/
theorem tombstone_attached :
    ((after 0 lagging).scan (wholeWithBodies ⟨1⟩ .neverRefresh)).2 =
        .ok ⟨[⟨.string "a", .bool true, some "a", some (.object []), none⟩,
          ⟨.string "b", .bool true, some "b", some (.bool true), none⟩], 2⟩ ∧
      ((after 0 lagging).document? "a").map Document.deleted = some true :=
  ⟨rfl, rfl⟩

end Store

end Viewbase
