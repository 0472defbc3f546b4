import Viewbase.Proofs.Store.Incremental

/-!
The built-in enumeration of documents against a view of them by id.

A map function may emit each document once, under its own id.  Main statement: a scan of such a view
and a scan of the documents themselves answer the same keys, document ids and bodies, in the same
order and for the same generation (`listing_agrees`).
-/

namespace Viewbase

namespace View

/-- The map function emits one row for a document, under its own id. -/
def EmitsOwnId (view : View) (doc : Document) : Prop :=
  ∃ value, view.map doc = some [(.string doc.id, value)]

/-- The row of a document under its own id. -/
def ownRow (view : View) (doc : Document) : Entry where
  key := .string doc.id
  docId := doc.id
  value := (((view.map doc).getD []).head?.map Prod.snd).getD .null

theorem EmitsOwnId.rowsOf {view : View} {doc : Document} (h : view.EmitsOwnId doc) :
    view.rowsOf doc = [view.ownRow doc] := by
  obtain ⟨value, hvalue⟩ := h
  simp [View.rowsOf, ownRow, hvalue]

/-- Such a map function crashes on no document, and the rows stand as the documents do. -/
theorem emitAll_ownRows {view : View} {documents : List Document}
    (h : ∀ doc ∈ documents, view.EmitsOwnId doc) :
    view.emitAll documents = .ok (documents.map view.ownRow) := by
  induction documents with
  | nil => rfl
  | cons doc rest ih =>
    obtain ⟨⟨value, hvalue⟩, hrest⟩ := List.forall_mem_cons.1 h
    rw [emitAll, hvalue]
    simp [ih hrest, ownRow, hvalue]

/-- Rows under the ids of documents in order are ascending. -/
theorem ascending_ownRows (view : View) {documents : List Document}
    (h : documents.Pairwise Document.Before) :
    Entry.ascending (documents.map view.ownRow) = documents.map view.ownRow := by
  apply List.mergeSort_of_pairwise
  refine List.pairwise_map.2 (h.imp fun {a b} hab => ?_)
  have hkeys : (view.ownRow a).order (view.ownRow b) = .lt := by
    rw [Document.Before] at hab
    simp [Entry.order, Entry.position, Position.order, ownRow, Key.order, hab]
  rw [hkeys]
  rfl

end View

/-! ## Selecting documents -/

theorem page_map {α β : Type} (f : α → β) (skip : Nat) (limit : Option Nat) (items : List α) :
    page skip limit (items.map f) = (page skip limit items).map f := by
  cases limit <;> simp [page, List.map_drop, List.map_take]

theorem mem_of_mem_page {α : Type} {skip : Nat} {limit : Option Nat} {items : List α} {item : α}
    (h : item ∈ page skip limit items) : item ∈ items := by
  cases limit with
  | none => exact List.mem_of_mem_drop h
  | some limit => exact List.mem_of_mem_drop (List.mem_of_mem_take h)

namespace Store

variable {s : Store}

theorem liveAmong_append (s : Store) (ids ids' : List String) :
    s.liveAmong (ids ++ ids') = s.liveAmong ids ++ s.liveAmong ids' := by
  rw [liveAmong, List.filterMap_append, List.filter_append]
  rfl

/-- One id names at most one living document, so its direction does not matter. -/
theorem reverse_liveAmong_single (s : Store) (id : String) :
    (s.liveAmong [id]).reverse = s.liveAmong [id] := by
  rw [liveAmong, List.filterMap_cons, List.filterMap_nil]
  cases s.document? id with
  | none => rfl
  | some doc => cases hdeleted : doc.deleted <;> simp [hdeleted]

/-- The living documents whose row a key finds: that of the id that the key is. -/
theorem filter_living_same (hsorted : s.documents.Pairwise Document.Before) (key : Key) :
    (Document.living s.documents).filter (fun doc => (Key.string doc.id).same key) =
      s.liveAmong key.string?.toList := by
  have hids : key.string?.toList.Pairwise fun a b => Text.order a b = .lt := by
    cases key.string? <;> simp
  rw [liveAmong_eq_filter hsorted hids]
  refine List.filter_congr fun doc _ => ?_
  rw [Bool.eq_iff_iff, Key.same, beq_iff_eq, Key.order_eq_eq]
  cases key <;> simp [Key.string?]

end Store

/-- The request to a view that is brought up to date first, for the rows themselves. -/
def Request.ofView (request : Request) (id : IndexId) : Request :=
  { request with target := .index id, stale := .refreshBefore, reduce := false }

/-- The same request to the enumeration of the documents that are not deleted. -/
def Request.ofDocuments (request : Request) : Request :=
  { request with target := .documents, mode := .all }

namespace Store

variable {s : Store}

/-- Under keys are found the rows of the living documents whose ids the keys are. -/
theorem flatMap_ownRows (hsorted : s.documents.Pairwise Document.Before) (view : View)
    (descending : Bool) (keys : List Key) :
    (keys.flatMap fun key => View.directed descending
        (((Document.living s.documents).map view.ownRow).filter fun entry => entry.key.same key)) =
      (s.liveAmong (keys.filterMap Key.string?)).map view.ownRow := by
  induction keys with
  | nil => rfl
  | cons key rest ih =>
    have hids : (key :: rest).filterMap Key.string? =
        key.string?.toList ++ rest.filterMap Key.string? := by
      rw [List.filterMap_cons]
      cases key.string? <;> rfl
    have hrows : ((Document.living s.documents).map view.ownRow).filter
        (fun entry => entry.key.same key) = (s.liveAmong key.string?.toList).map view.ownRow := by
      rw [List.filter_map, ← filter_living_same hsorted]
      rfl
    have hdirected : View.directed descending ((s.liveAmong key.string?.toList).map view.ownRow) =
        (s.liveAmong key.string?.toList).map view.ownRow := by
      cases descending with
      | false => rfl
      | true =>
        rw [View.directed, if_pos rfl, ← List.map_reverse]
        cases key.string? with
        | none => rfl
        | some id => exact congrArg _ (s.reverse_liveAmong_single id)
    rw [List.flatMap_cons, ih, hrows, hdirected, hids, liveAmong_append, List.map_append]

/-- The documents that a request selects have the rows that it selects among the rows of all. -/
theorem selected_ownRows (hsorted : s.documents.Pairwise Document.Before) (view : View)
    (request : Request) :
    Entry.selected request.selection request.descending
        ((Document.living s.documents).map view.ownRow) =
      (s.selectDocuments request.ofDocuments).map view.ownRow := by
  cases hselection : request.selection with
  | keys keys =>
    have hdocuments : s.selectDocuments request.ofDocuments =
        s.liveAmong (keys.filterMap Key.string?) := by
      rw [selectDocuments, Request.ofDocuments, hselection]
      rfl
    rw [hdocuments]
    exact flatMap_ownRows hsorted view request.descending keys
  | range range =>
    have hchosen : ((Document.living s.documents).map view.ownRow).filter (fun entry =>
          range.contains request.descending entry.key entry.docId) =
        (s.documents.filter fun doc => !doc.deleted &&
          range.contains request.descending (.string doc.id) doc.id).map view.ownRow := by
      rw [List.filter_map, Document.living, List.filter_filter]
      exact congrArg _ (List.filter_congr fun doc _ => Bool.and_comm ..)
    rw [Entry.selected, hchosen, selectDocuments, Request.ofDocuments, hselection]
    cases request.descending with
    | false => rfl
    | true =>
      simp only [View.directed, if_true, ← List.map_reverse, List.filter_reverse]
      rfl

end Store

/-- What a scan of the documents tells of a row. -/
def Row.shown (row : Row) : Key × Option String × Option Json :=
  (row.key, row.docId, row.document)

namespace Store

variable {s : Store}

/-- A document that is listed is found under its id, and not deleted. -/
theorem found_of_mem_selectDocuments (hsorted : s.documents.Pairwise Document.Before)
    {request : Request} {doc : Document} (h : doc ∈ s.selectDocuments request.ofDocuments) :
    s.document? doc.id = some doc ∧ doc.deleted = false := by
  have hshows : request.ofDocuments.mode.shows doc = !doc.deleted := rfl
  have hlisted : doc ∈ s.documents ∧ doc.deleted = false := by
    rw [selectDocuments] at h
    split at h
    · obtain ⟨hfound, hshown⟩ := List.mem_filter.1 h
      obtain ⟨id, -, hid⟩ := List.mem_filterMap.1 hfound
      exact ⟨List.mem_of_find?_eq_some hid, by simpa [hshows] using hshown⟩
    · obtain ⟨hmem, hshown⟩ := List.mem_filter.1 h
      have hliving := (Bool.and_eq_true_iff.1 hshown).1
      refine ⟨?_, by simpa [hshows] using hliving⟩
      split at hmem
      · exact List.mem_reverse.1 hmem
      · exact hmem
  exact ⟨Document.find?_of_mem hsorted hlisted.1, hlisted.2⟩

/-- The row of a document shows what the enumeration shows of it. -/
theorem shown_ownRow {request : Request} {doc : Document} (hfound : s.document? doc.id = some doc)
    (hliving : doc.deleted = false) (view : View) :
    (s.mappedRow request.includeDocs (view.ownRow doc)).shown =
      (documentRow request.ofDocuments doc).shown := by
  cases hdocs : request.includeDocs with
  | false =>
    simp [mappedRow, documentRow, Row.shown, Row.mapped, View.ownRow, Request.ofDocuments, hdocs]
  | true =>
    simp [mappedRow, documentRow, Row.shown, Row.mapped, View.ownRow, Request.ofDocuments, hdocs,
      hfound, hliving]

/-- A page of rows shows what the enumeration answers. -/
theorem map_shown_ownRows (hsorted : s.documents.Pairwise Document.Before) (view : View)
    (request : Request) :
    ((page request.skip request.limit
        ((s.selectDocuments request.ofDocuments).map view.ownRow)).map
      (s.mappedRow request.includeDocs)).map Row.shown =
        (s.scanDocuments request.ofDocuments).rows.map Row.shown := by
  have hlisted : (s.scanDocuments request.ofDocuments).rows =
      (page request.skip request.limit (s.selectDocuments request.ofDocuments)).map
        (documentRow request.ofDocuments) := rfl
  rw [hlisted, page_map, List.map_map, List.map_map, List.map_map]
  refine List.map_congr_left fun doc hdoc => ?_
  obtain ⟨hfound, hliving⟩ := found_of_mem_selectDocuments hsorted (mem_of_mem_page hdoc)
  exact shown_ownRow hfound hliving view

/-- After any history, a scan that brings a view up to date whose map function emits each living
document once, under its own id, and a scan of the documents with the same selection, direction,
skip, limit and choice of bodies answer the same keys, document ids and bodies in the same order,
for the same generation. -/
theorem listing_agrees (numbered : Nat) (history : List Command) (request : Request) {id : IndexId}
    {view : View} (hview : (after numbered history).view? id = some view)
    (hmap : ∀ doc ∈ (after numbered history).documents, doc.deleted = false →
      view.EmitsOwnId doc) :
    ∃ kept listed, ((after numbered history).scan (request.ofView id)).2 = .ok kept ∧
      ((after numbered history).scan request.ofDocuments).2 = .ok listed ∧
      kept.rows.map Row.shown = listed.rows.map Row.shown ∧
      kept.generation = listed.generation := by
  obtain ⟨past, hfollows, -⟩ := exists_timeline numbered history
  have hscan := (scan_eq_answerAnew numbered history (request.ofView id) rfl rfl hview).1
  have hemitted : view.emitAll (Document.living (after numbered history).documents) =
      .ok ((Document.living (after numbered history).documents).map view.ownRow) :=
    View.emitAll_ownRows fun doc hdoc =>
      hmap doc (Document.mem_living.1 hdoc).1 (Document.mem_living.1 hdoc).2
  have hliving : (Document.living (after numbered history).documents).Pairwise Document.Before :=
    hfollows.sorted.filter _
  rw [answerAnew, hemitted] at hscan
  simp only [View.ascending_ownRows view hliving] at hscan
  have hselected := selected_ownRows hfollows.sorted view request
  refine ⟨⟨_, (after numbered history).generation⟩, _, ?_, rfl,
    map_shown_ownRows hfollows.sorted view request, rfl⟩
  rw [hscan, ← hselected]
  rfl

/-- A request by ids, one of them twice and one deleted, and by a key that is no id. -/
def chosenIds : Request :=
  { wholeOf ⟨1⟩ .refreshBefore with
    selection := .keys [.string "b", .string "c", .bool true, .string "a", .string "b"]
    skip := 1
    includeDocs := true }

/-- The view lags behind the deletion of one document and the writing of another; both scans leave
the deleted one out. -/
theorem listing_lagging :
    ∃ view kept listed, (after 0 lagging).view? ⟨1⟩ = some view ∧
      (∀ doc ∈ (after 0 lagging).documents, doc.deleted = false → view.EmitsOwnId doc) ∧
      ((after 0 lagging).scan (chosenIds.ofView ⟨1⟩)).2 = .ok kept ∧
      ((after 0 lagging).scan chosenIds.ofDocuments).2 = .ok listed ∧
      kept.rows.map Row.shown = listed.rows.map Row.shown ∧
      listed.rows.map Row.shown =
        [(.string "c", some "c", some (.bool true)),
          (.string "b", some "b", some (.bool true))] := by
  have hmap : ∀ view, (after 0 lagging).view? ⟨1⟩ = some view →
      ∀ doc ∈ (after 0 lagging).documents, doc.deleted = false → view.EmitsOwnId doc := by
    intro view hview doc hdoc hliving
    cases hview
    rcases List.mem_cons.1 hdoc with rfl | hdoc
    · cases hliving
    · rcases List.mem_cons.1 hdoc with rfl | hdoc
      · exact ⟨.bool true, rfl⟩
      · rw [List.mem_singleton.1 hdoc]
        exact ⟨.bool true, rfl⟩
  have hview : (after 0 lagging).view? ⟨1⟩ = some _ := rfl
  obtain ⟨kept, listed, hkept, hlisted, hshown, -⟩ :=
    listing_agrees 0 lagging chosenIds hview (hmap _ hview)
  refine ⟨_, kept, listed, rfl, hmap _ rfl, hkept, hlisted, hshown, ?_⟩
  cases hlisted
  rfl

end Store

end Viewbase
