import Viewbase.Proofs.Key.Truncation
import Viewbase.Proofs.Store.Incremental

/-!
Scans by keys and scans of ranges.

The rows of a key are looked up where they begin, and a document by its id; a range tests every row
there is.  Main statement: whatever a store has been through, a scan by keys answers what the scans
of the ranges from each key to itself answer, one after the other (`keys_join_points`).
-/

namespace Viewbase

/-- The range from a key to itself holds the rows of that key, in either direction. -/
theorem KeyRange.contains_point (key : Key) (descending : Bool) (other : Key) (docId : String) :
    (point key).contains descending other docId = other.same key := by
  simp only [contains, reachesStart, withinEnd, point, orderBound, directed, Ordering.then_eq, Key.same]
  cases descending <;> cases other.order key <;> rfl

/-- A scan meets chosen rows in the order in which it meets them among all. -/
theorem View.directed_filter (descending : Bool) (chosen : Entry → Bool) (rows : List Entry) :
    directed descending (rows.filter chosen) = (directed descending rows).filter chosen := by
  cases descending with
  | false => rfl
  | true => exact (List.filter_reverse ..).symm

/-- Looking rows up by keys finds the rows of the points of the keys. -/
theorem View.select_keys (view : View) (keys : List Key) (descending : Bool) :
    view.select (.keys keys) descending =
      keys.flatMap fun key => view.select (.range (.point key)) descending := by
  simp only [select, Tree.entriesFor_eq, directed_filter, KeyRange.contains_point]

/-! ## Documents by id -/

namespace Document

/-- In order, the documents of one id are the one that is found by it. -/
theorem filter_id {documents : List Document} (h : documents.Pairwise Before) (id : String) :
    documents.filter (fun doc => doc.id == id) =
      (documents.find? fun doc => doc.id == id).toList := by
  induction documents with
  | nil => rfl
  | cons head rest ih =>
    obtain ⟨hhead, hrest⟩ := List.pairwise_cons.1 h
    by_cases heq : head.id = id
    · have hothers : rest.filter (fun doc => doc.id == id) = [] := by
        rw [List.filter_eq_nil_iff]
        intro doc hdoc hsame
        have hbefore := hhead doc hdoc
        rw [Before, heq, Text.order_eq_eq.2 (beq_iff_eq.1 hsame).symm] at hbefore
        cases hbefore
      rw [List.filter_cons_of_pos (by simpa using heq), hothers,
        List.find?_cons_of_pos (by simpa using heq)]
      rfl
    · rw [List.filter_cons_of_neg (by simpa using heq), ih hrest,
        List.find?_cons_of_neg (by simpa using heq)]

end Document

/-- The request for all rows of a selection, neither paged nor reduced. -/
def Request.choosing (request : Request) (selection : Selection) : Request :=
  { request with selection := selection, skip := 0, limit := none, reduce := false }

namespace Request

variable (request : Request) (selection : Selection)

@[simp]
theorem choosing_target : (request.choosing selection).target = request.target :=
  rfl

@[simp]
theorem choosing_stale : (request.choosing selection).stale = request.stale :=
  rfl

end Request

namespace Store

variable {s : Store}

/-- The documents whose row a key selects: that of the id that the key is, if there is one. -/
theorem filter_documents_same (hsorted : s.documents.Pairwise Document.Before) (key : Key) :
    s.documents.filter (fun doc => (Key.string doc.id).same key) =
      (key.string?.bind s.document?).toList := by
  cases hid : key.string? with
  | none =>
    rw [List.filter_eq_nil_iff.2]
    · rfl
    · intro doc _ hsame
      rw [← Key.same_iff.1 hsame] at hid
      cases hid
  | some id =>
    have hkey : key = .string id := by
      cases key <;> simp_all [Key.string?]
    rw [Option.bind_some, document?, ← Document.filter_id hsorted id]
    refine List.filter_congr fun doc _ => ?_
    rw [Bool.eq_iff_iff, Key.same_iff, hkey]
    simp

/-- The point of a key selects the document of its id, whichever way the documents are met. -/
theorem selectDocuments_point (hsorted : s.documents.Pairwise Document.Before) (request : Request)
    (key : Key) :
    s.selectDocuments (request.choosing (.range (.point key))) =
      (key.string?.bind s.document?).toList.filter request.mode.shows := by
  have hsingle : (key.string?.bind s.document?).toList.reverse =
      (key.string?.bind s.document?).toList := by
    cases key.string?.bind s.document? <;> rfl
  have hmet : (if request.descending then s.documents.reverse else s.documents).filter
      (fun doc => (Key.string doc.id).same key) = (key.string?.bind s.document?).toList := by
    cases request.descending with
    | false => exact filter_documents_same hsorted key
    | true => rw [if_pos rfl, List.filter_reverse, filter_documents_same hsorted, hsingle]
  simp only [selectDocuments, Request.choosing, KeyRange.contains_point]
  rw [← hmet, List.filter_filter]
  rfl

/-- Looking documents up by keys finds those of the points of the keys. -/
theorem selectDocuments_keys (hsorted : s.documents.Pairwise Document.Before) (request : Request)
    (keys : List Key) :
    s.selectDocuments (request.choosing (.keys keys)) =
      keys.flatMap fun key => s.selectDocuments (request.choosing (.range (.point key))) := by
  simp only [selectDocuments_point hsorted]
  change ((keys.filterMap Key.string?).filterMap s.document?).filter request.mode.shows = _
  rw [List.filterMap_filterMap]
  induction keys with
  | nil => rfl
  | cons key rest ih =>
    rw [List.flatMap_cons, ← ih, List.filterMap_cons]
    cases key.string?.bind s.document? with
    | none => rfl
    | some doc => rw [Option.toList_some, ← List.filter_append, List.singleton_append]

/-! ## Scans -/

/-- What a view answers with all rows of a selection. -/
def answerOf (s : Store) (view : View) (request : Request) (selection : Selection) : Answer :=
  ⟨(view.select selection request.descending).map (s.mappedRow request.includeDocs),
    view.indexed.getD 0⟩

theorem scanView_choosing (s : Store) (view : View) (request : Request) (selection : Selection) :
    s.scanView view (request.choosing selection) = .ok (s.answerOf view request selection) :=
  rfl

/-- Whatever rows are asked for, it is the same error or they are read in the same view. -/
def Reads (request : Request) (outcome : Selection → Except IndexError Answer) : Prop :=
  (∃ error, ∀ selection, outcome selection = .error error) ∨
    ∃ (read : Store) (view : View), ∀ selection,
      outcome selection = .ok (read.answerOf view request selection)

theorem reads_scanIndex (s : Store) (id : IndexId) (request : Request) :
    Reads request fun selection => s.scanIndex id (request.choosing selection) := by
  cases hview : s.view? id with
  | none => exact .inl ⟨.unavailable (.index id), fun _ => by simp only [scanIndex, hview]⟩
  | some view =>
    exact .inr ⟨s, view, fun _ => by simp only [scanIndex, hview, scanView_choosing]⟩

/-- No refresh looks at the selection. -/
theorem reads_scanRefreshing (s : Store) (id : IndexId) (request : Request) :
    Reads request fun selection => (s.scanRefreshing id (request.choosing selection)).2 := by
  simp only [scanRefreshing, Request.choosing_stale]
  cases request.stale with
  | neverRefresh => exact reads_scanIndex s id request
  | refreshBefore =>
    rcases s.refresh id with ⟨refreshed, error | -⟩
    · exact .inl ⟨error, fun _ => rfl⟩
    · exact reads_scanIndex refreshed id request
  | refreshAfter =>
    rcases reads_scanIndex s id request with ⟨error, herror⟩ | ⟨read, view, hview⟩
    · exact .inl ⟨error, fun selection => by simp only [herror]⟩
    · simp only [hview]
      rcases s.refresh id with ⟨refreshed, error | -⟩
      · exact .inl ⟨error, fun _ => rfl⟩
      · exact .inr ⟨read, view, fun _ => rfl⟩

end Store

/-- An answer is made of the answers to its parts, in order and all of one generation. -/
structure Answer.Joins (answer : Answer) (parts : List Answer) : Prop where
  rows : answer.rows = parts.flatMap Answer.rows
  generation : ∀ part ∈ parts, part.generation = answer.generation

namespace Store

/-- The answer by keys is made of the answers to their points. -/
theorem answerOf_joins (s : Store) (view : View) (request : Request) (keys : List Key) :
    (s.answerOf view request (.keys keys)).Joins
      (keys.map fun key => s.answerOf view request (.range (.point key))) where
  rows := by
    rw [answerOf, View.select_keys, List.map_flatMap, List.flatMap_map]
    rfl
  generation part hpart := by
    obtain ⟨key, -, rfl⟩ := List.mem_map.1 hpart
    rfl

/-- The answer by ids is made of the answers to their points. -/
theorem scanDocuments_joins {s : Store} (hsorted : s.documents.Pairwise Document.Before)
    (request : Request) (keys : List Key) :
    (s.scanDocuments (request.choosing (.keys keys))).Joins
      (keys.map fun key => s.scanDocuments (request.choosing (.range (.point key)))) where
  rows := by
    have hrows : ∀ selection, (s.scanDocuments (request.choosing selection)).rows =
        (s.selectDocuments (request.choosing selection)).map (documentRow request) :=
      fun _ => rfl
    rw [hrows, selectDocuments_keys hsorted, List.map_flatMap, List.flatMap_map]
    rfl
  generation part hpart := by
    obtain ⟨key, -, rfl⟩ := List.mem_map.1 hpart
    rfl

/-- What a scan comes to that is to answer all rows of a selection. -/
def outcomeOf (s : Store) (request : Request) (selection : Selection) : Except IndexError Answer :=
  (s.scan (request.choosing selection)).2

/-- A scan by keys fails as every scan of its target fails, or it answers what the scans of the
points of its keys answer, one after the other. -/
def JoinsPoints (s : Store) (request : Request) (keys : List Key) : Prop :=
  (∃ error, ∀ selection, s.outcomeOf request selection = .error error) ∨
    ∃ answer parts, s.outcomeOf request (.keys keys) = .ok answer ∧
      (keys.map fun key => s.outcomeOf request (.range (.point key))) = parts.map .ok ∧
      answer.Joins parts

theorem keys_join_points {s : Store} (hsorted : s.documents.Pairwise Document.Before)
    (request : Request) (keys : List Key) : s.JoinsPoints request keys := by
  simp only [JoinsPoints, outcomeOf, scan, Request.choosing_target]
  cases request.target with
  | documents =>
    refine .inr ⟨_, _, rfl, ?_,
      scanDocuments_joins (s := { s with scans := s.scans + 1 }) hsorted request keys⟩
    rw [List.map_map]
    rfl
  | index id =>
    rcases reads_scanRefreshing { s with scans := s.scans + 1 } id request with
      herror | ⟨read, view, hanswer⟩
    · exact .inl herror
    · simp only [hanswer]
      refine .inr ⟨_, _, rfl, ?_, read.answerOf_joins view request keys⟩
      rw [List.map_map]
      rfl

end Store

end Viewbase
