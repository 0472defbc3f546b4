import Viewbase.Proofs.Store.Incremental

/-!
Scans that refresh afterwards.

Such a scan reads a view as it is and brings it up to date for whoever comes next.  Main statement:
it has the outcome of a scan that does not refresh at all, unless that is an answer and the map
function crashes on a document, when the error for that document takes the place of the answer
(`refreshAfter_agrees_iff`).
-/

namespace Viewbase

/-- The request under another staleness policy. -/
def Request.under (request : Request) (stale : Staleness) : Request :=
  { request with stale := stale }

@[simp]
theorem Request.under_stale (request : Request) (stale : Staleness) :
    (request.under stale).stale = stale :=
  rfl

namespace Store

variable {past : Timeline} {s : Store}

/-- A view is brought up to date unless the map function crashes on a living document. -/
theorem Follows.snd_refresh (h : s.Follows past) {id : IndexId} {view : View}
    (hview : s.view? id = some view) :
    (s.refresh id).2 =
      match view.crash? (Document.living s.documents) with
      | some doc => .error (view.crashed doc)
      | none => .ok () := by
  rcases h.refresh_cases hview with
    ⟨doc, halfway, hcrash, -, -, heq⟩ | ⟨s', current, hcrash, -, -, -, -, -, -, -, heq⟩
  · rw [heq, hcrash]
  · rw [heq, hcrash]

/-- To refresh afterwards is to read first and to answer what was read if the refresh succeeds. -/
theorem scanRefreshing_after (s : Store) (id : IndexId) (request : Request) :
    (s.scanRefreshing id (request.under .refreshAfter)).2 =
      (s.scanRefreshing id (request.under .neverRefresh)).2.bind fun answer =>
        (s.refresh id).2.map fun _ => answer := by
  have hread : s.scanIndex id (request.under .refreshAfter) =
      s.scanIndex id (request.under .neverRefresh) := rfl
  simp only [scanRefreshing, Request.under_stale, hread]
  cases s.scanIndex id (request.under .neverRefresh) with
  | error error => rfl
  | ok answer =>
    rcases s.refresh id with ⟨refreshed, _ | _⟩
    · rfl
    · rfl

/-- After any history, a scan of a view that refreshes it afterwards answers what a scan that leaves
it alone answers, and fails as that does; but an answer gives way to the error of the refresh.  So
the two agree exactly if the scan fails anyway or the map function crashes on no living document. -/
theorem refreshAfter_agrees_iff (numbered : Nat) (history : List Command) (request : Request)
    {id : IndexId} {view : View} (htarget : request.target = .index id)
    (hview : (after numbered history).view? id = some view) :
    ((after numbered history).scan (request.under .refreshAfter)).2 =
        (((after numbered history).scan (request.under .neverRefresh)).2.bind fun answer =>
          match view.crash? (Document.living (after numbered history).documents) with
          | some doc => .error (view.crashed doc)
          | none => .ok answer) ∧
      (((after numbered history).scan (request.under .refreshAfter)).2 =
          ((after numbered history).scan (request.under .neverRefresh)).2 ↔
        (∃ error, ((after numbered history).scan (request.under .neverRefresh)).2 = .error error) ∨
          ∀ doc ∈ Document.living (after numbered history).documents, view.map doc ≠ none) := by
  obtain ⟨past, hfollows, -⟩ := exists_timeline numbered history
  have hcounted := hfollows.counted ((after numbered history).scans + 1)
  have hscan : ∀ stale, (after numbered history).scan (request.under stale) =
      scanRefreshing { after numbered history with scans := (after numbered history).scans + 1 } id
        (request.under stale) := by
    intro stale
    rw [scan, Request.under, htarget]
  have houtcome := scanRefreshing_after
    { after numbered history with scans := (after numbered history).scans + 1 } id request
  rw [hcounted.snd_refresh hview, ← hscan, ← hscan] at houtcome
  rw [houtcome, ← View.crash?_eq_none]
  cases ((after numbered history).scan (request.under .neverRefresh)).2 with
  | error error => exact ⟨rfl, iff_of_true rfl (.inl ⟨error, rfl⟩)⟩
  | ok answer =>
    cases view.crash? (Document.living (after numbered history).documents) with
    | some doc => exact ⟨rfl, iff_of_false (fun h => by cases h) (by simp)⟩
    | none => exact ⟨rfl, iff_of_true rfl (.inr rfl)⟩

/-- The view lags behind, and the refresh that follows the scan takes in what has changed. -/
theorem refreshAfter_lagging :
    ∃ view answer, (after 0 lagging).view? ⟨1⟩ = some view ∧
      (∀ doc ∈ Document.living (after 0 lagging).documents, view.map doc ≠ none) ∧
      ((after 0 lagging).scan (wholeOf ⟨1⟩ .refreshAfter)).2 = .ok answer ∧
      ((after 0 lagging).scan (wholeOf ⟨1⟩ .neverRefresh)).2 = .ok answer ∧
      answer.rows.map Row.docId = [some "a", some "b"] := by
  obtain ⟨view, hview, hcrash⟩ : ∃ view, (after 0 lagging).view? ⟨1⟩ = some view ∧
      view.crash? (Document.living (after 0 lagging).documents) = none :=
    ⟨_, rfl, rfl⟩
  have hmap := View.crash?_eq_none.1 hcrash
  have hagrees := (refreshAfter_agrees_iff 0 lagging (wholeOf ⟨1⟩ .refreshAfter) rfl hview).2.2
    (.inr hmap)
  exact ⟨view, _, hview, hmap, hagrees, rfl, rfl⟩

/-- A view of one document is built, and then a document is put that the map function crashes on. -/
def spoiled : List Command :=
  [.put "a" (.bool true), .defineView "v" bodyById none, .scan (wholeOf ⟨1⟩ .refreshBefore),
   .put "b" .null]

/-- The row of the view is there to be answered, and the scan that refreshes afterwards answers the
error for the new document instead. -/
theorem answer_lost_to_refresh :
    ((after 0 spoiled).scan (wholeOf ⟨1⟩ .neverRefresh)).2 =
        .ok ⟨[Row.mapped (.string "a") (.bool true) "a"], 1⟩ ∧
      ((after 0 spoiled).scan (wholeOf ⟨1⟩ .refreshAfter)).2 =
        .error (.scan (.mapCrashed (.named ⟨1⟩ "v" false) "b")) :=
  ⟨rfl, rfl⟩

end Store

end Viewbase
