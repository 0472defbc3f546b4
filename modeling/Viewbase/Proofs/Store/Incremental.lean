import Viewbase.Proofs.Store.Timeline

/-!
Kept indexes against answers from scratch.

Main statement: after any history of a store, a scan that refreshes first answers what the view made
anew from the documents of the moment answers, rows, generation and errors alike
(`scan_eq_answerAnew`).
-/

namespace Viewbase

namespace View

/-- A selection names rows of a view as it names them among all its rows. -/
theorem select_eq_selected (view : View) (selection : Selection) (descending : Bool) :
    view.select selection descending =
      Entry.selected selection descending view.tree.entries := by
  cases selection with
  | keys keys =>
    rw [select, Entry.selected]
    refine congrArg (fun rows => keys.flatMap rows) (funext fun key => ?_)
    rw [Tree.entriesFor_eq]
  | range range =>
    rw [select, Entry.selected, directed, directed]
    split
    · exact List.filter_reverse ..
    · rfl

end View

namespace Store

variable {past : Timeline} {s : Store}

/-- An answer depends on the definition of a view and, where bodies are attached, on the
documents. -/
theorem answerRows_congr {s' : Store} {view view' : View} {request : Request}
    (hbodies : request.includeDocs = true → s'.documents = s.documents)
    (halike : view'.Alike view) (selected : List Entry) (generation : Nat) :
    s'.answerRows view' request selected generation =
      s.answerRows view request selected generation := by
  have hrow : s'.mappedRow request.includeDocs = s.mappedRow request.includeDocs := by
    funext entry
    cases hinclude : request.includeDocs with
    | false => rfl
    | true => rw [mappedRow, mappedRow, document?, document?, hbodies hinclude]
  rw [answerRows, answerRows, halike.reduce, halike.descriptor, hrow]

theorem answerAnew_congr {s' : Store} {view view' : View} (hdocuments : s'.documents = s.documents)
    (hgeneration : s'.generation = s.generation) (halike : view'.Alike view) (request : Request) :
    s'.answerAnew view' request = s.answerAnew view request := by
  rw [answerAnew, answerAnew, halike.emitAll, hdocuments, hgeneration]
  split
  · rfl
  · exact answerRows_congr (fun _ => hdocuments) halike ..

theorem generation_of_answerRows {view : View} {request : Request} {selected : List Entry}
    {generation : Nat} {answer : Answer}
    (h : s.answerRows view request selected generation = .ok answer) :
    answer.generation = generation := by
  rw [answerRows] at h
  split at h
  · split at h
    · cases h
    · split at h
      · cases h
      · cases h
        rfl
  · cases h
    rfl

/-- A view that reflects documents answers what it would, made anew from them. -/
theorem scanView_of_reflects {view : View} {generation : Nat}
    (hindexed : view.indexed = some generation) {moment : Store}
    (hgeneration : moment.generation = generation) (hreflects : view.Reflects moment.documents)
    (request : Request) (hbodies : request.includeDocs = true → s.documents = moment.documents) :
    s.scanView view request = moment.answerAnew view request := by
  obtain ⟨hemitted, hrows⟩ := hreflects
  rw [scanView, answerAnew, hemitted, View.select_eq_selected, hrows, hindexed, hgeneration]
  exact answerRows_congr hbodies (.refl view) ..

/-- A scan that refreshes first answers what the view made anew answers. -/
theorem Follows.scan_refreshBefore (h : s.Follows past) {request : Request} {id : IndexId}
    {view : View} (htarget : request.target = .index id) (hstale : request.stale = .refreshBefore)
    (hview : s.view? id = some view) : (s.scan request).2 = s.answerAnew view request := by
  have hcounted := h.counted (s.scans + 1)
  have hscan : s.scan request = { s with scans := s.scans + 1 }.scanRefreshing id request := by
    rw [Store.scan, htarget]
  rw [hscan, scanRefreshing, hstale]
  rcases hcounted.refresh_cases hview with ⟨doc, halfway, hcrash, -, -, heq⟩ |
    ⟨s', current, hcrash, halike, hindexed, hreflects, hview', hdocuments, hgeneration, -, heq⟩
  · simp only [heq]
    rw [answerAnew, View.emitAll_eq, hcrash]
  · simp only [heq, scanIndex, hview']
    rw [scanView_of_reflects hindexed hgeneration (hdocuments ▸ hreflects) request fun _ => rfl]
    exact answerAnew_congr hdocuments hgeneration halike request

/-- After any history, a scan of a view that refreshes first answers what the view made anew from
the documents of the moment answers: it fails if that fails, with the same error, and its rows are
of the current generation. -/
theorem scan_eq_answerAnew (numbered : Nat) (history : List Command) (request : Request)
    {id : IndexId} {view : View} (htarget : request.target = .index id)
    (hstale : request.stale = .refreshBefore)
    (hview : (after numbered history).view? id = some view) :
    ((after numbered history).scan request).2 = (after numbered history).answerAnew view request ∧
      ∀ answer, ((after numbered history).scan request).2 = .ok answer →
        answer.generation = (after numbered history).generation := by
  obtain ⟨past, hfollows, -⟩ := exists_timeline numbered history
  have hscan := hfollows.scan_refreshBefore htarget hstale hview
  refine ⟨hscan, fun answer hanswer => ?_⟩
  rw [hscan, answerAnew] at hanswer
  split at hanswer
  · cases hanswer
  · exact generation_of_answerRows hanswer

/-! ## A view that lags behind -/

/-- A request for all rows of an index. -/
def wholeOf (id : IndexId) (stale : Staleness) : Request where
  target := .index id
  selection := .range .unbounded
  skip := 0
  limit := none
  descending := false
  reduce := false
  reduceSpecified := true
  groupLevel := 0
  includeDocs := false
  updateSeq := true
  stale := stale
  mode := .all

/-- Emits the body of a document under its id, and crashes where there is none. -/
def bodyById : MapFunction := fun doc =>
  match doc.body with
  | .null => none
  | body => some [(.string doc.id, body)]

/-- A view of two documents is built; then one is deleted and another put. -/
def lagging : List Command :=
  [.put "a" (.bool true), .put "b" (.bool true), .defineView "v" bodyById none,
   .scan (wholeOf ⟨1⟩ .refreshBefore), .put "c" (.bool true), .delete "a"]

/-- The view is two generations behind, and a scan takes in the two changes that the log names. -/
theorem scan_lagging :
    ∃ view, (after 0 lagging).view? ⟨1⟩ = some view ∧ view.indexed = some 2 ∧
      (after 0 lagging).log = [(3, "c"), (4, "a")] ∧
      ((after 0 lagging).scan (wholeOf ⟨1⟩ .refreshBefore)).2 =
        (after 0 lagging).answerAnew view (wholeOf ⟨1⟩ .refreshBefore) :=
  ⟨_, rfl, rfl, rfl,
    (scan_eq_answerAnew 0 lagging (wholeOf ⟨1⟩ .refreshBefore) rfl rfl rfl).1⟩

end Store

end Viewbase
