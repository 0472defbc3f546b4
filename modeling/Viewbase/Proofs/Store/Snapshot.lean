import Viewbase.Proofs.Store.Incremental

/-!
What a scan tells of the past.

A scan reports the generation its rows were read at.  It is truthful if its rows are those of the
documents of that generation.  Main statement: a scan without bodies is truthful exactly when it
refreshed first, or the view was built, or it found nothing (`truthful_iff`).  A view that a crash
left half built is read as it is, under generation 0 (`not_truthful_after_crash`).
-/

namespace Viewbase.Store

/-- An answer is what the view made anew answers at every moment of the generation that the answer
reports, and there is one. -/
def Truthful (numbered : Nat) (history : List Command) (view : View) (request : Request)
    (answer : Answer) : Prop :=
  (∃ n, (moment numbered history n).generation = answer.generation) ∧
    ∀ n, (moment numbered history n).generation = answer.generation →
      (moment numbered history n).answerAnew view request = .ok answer

variable {numbered : Nat} {history : List Command} {request : Request} {id : IndexId} {view : View}
  {answer : Answer}

/-- Documents go by generation: the answer made anew is that of any moment of the same one. -/
theorem answerAnew_moment (numbered : Nat) (history : List Command) (view : View)
    (request : Request) {m n : Nat}
    (h : (moment numbered history m).generation = (moment numbered history n).generation) :
    (moment numbered history m).answerAnew view request =
      (moment numbered history n).answerAnew view request := by
  obtain ⟨past, -, hmoments⟩ := exists_timeline numbered history
  apply answerAnew_congr _ h (.refl view)
  rw [← hmoments m, ← hmoments n, h]

/-- What is made anew at one moment of the reported generation is truthful. -/
theorem truthful_of_moment {n : Nat}
    (hgeneration : (moment numbered history n).generation = answer.generation)
    (hanswer : (moment numbered history n).answerAnew view request = .ok answer) :
    Truthful numbered history view request answer := by
  refine ⟨⟨n, hgeneration⟩, fun m hm => ?_⟩
  rw [answerAnew_moment numbered history view request (hm.trans hgeneration.symm), hanswer]

/-- A built view answers truthfully, however far behind it is. -/
theorem truthful_of_indexed (hview : view ∈ (after numbered history).views) {g : Nat}
    (hindexed : view.indexed = some g) (hbodies : request.includeDocs = false) {s : Store}
    (hscan : s.scanView view request = .ok answer) :
    Truthful numbered history view request answer := by
  obtain ⟨past, hfollows, hmoments⟩ := exists_timeline numbered history
  obtain ⟨n, hn⟩ := exists_moment numbered history (hfollows.reached view hview g hindexed)
  have hreflects := hfollows.reflects view hview g hindexed
  rw [← hn, hmoments] at hreflects
  rw [scanView_of_reflects hindexed hn hreflects request (by simp [hbodies])] at hscan
  refine truthful_of_moment (n := n) ?_ hscan
  rw [answerAnew] at hscan
  split at hscan
  · cases hscan
  · exact (generation_of_answerRows hscan).symm

/-- A scan that does not refresh first answers what it finds, if it answers. -/
theorem scanView_of_scan {s : Store} (htarget : request.target = .index id)
    (hstale : request.stale ≠ .refreshBefore) (hview : s.view? id = some view)
    (hscan : (s.scan request).2 = .ok answer) : s.scanView view request = .ok answer := by
  have hfound : { s with scans := s.scans + 1 }.scanIndex id request = s.scanView view request := by
    have hview' : { s with scans := s.scans + 1 }.view? id = some view := hview
    rw [scanIndex, hview']
    exact answerRows_congr (fun _ => rfl) (.refl view) ..
  rw [scan, htarget] at hscan
  simp only [scanRefreshing, hfound] at hscan
  cases hpolicy : request.stale with
  | refreshBefore => exact absurd hpolicy hstale
  | neverRefresh => simpa only [hpolicy] using hscan
  | refreshAfter =>
    simp only [hpolicy] at hscan
    split at hscan
    · cases hscan
    next found hok =>
      split at hscan
      · cases hscan
      · rw [hok]
        exact hscan

/-- Where no rows are selected none are answered, unless a missing reduction is asked for. -/
theorem answerRows_nil (s : Store) (view : View) (request : Request) (generation : Nat) :
    s.answerRows view request [] generation =
      if request.reduce ∧ view.reduce = none then .error (.scan (.noReduce view.descriptor))
      else .ok ⟨[], generation⟩ := by
  have hpage : ∀ {α : Type}, page request.skip request.limit ([] : List α) = [] := by
    intro α
    cases request.limit <;> simp [page]
  rw [answerRows]
  cases request.reduce with
  | false => simp [hpage]
  | true => cases view.reduce <;> simp [Group.runs, Group.reduceAll, hpage]

/-- Without documents no rows are selected. -/
theorem answerAnew_of_documents_nil {s : Store} (h : s.documents = []) (view : View)
    (request : Request) :
    s.answerAnew view request = s.answerRows view request [] s.generation := by
  have hselected :
      Entry.selected request.selection request.descending (Entry.ascending []) = [] := by
    cases request.selection <;> simp [Entry.selected, Entry.ascending, View.directed]
  rw [answerAnew, h]
  simp only [Document.living, List.filter_nil, View.emitAll, hselected]

/-- A view that is not built answers under generation 0, and so truthfully exactly if it finds
nothing. -/
theorem truthful_of_unbuilt (hindexed : view.indexed = none)
    (hscan : (after numbered history).scanView view request = .ok answer) :
    Truthful numbered history view request answer ↔ answer.rows = [] := by
  have hgeneration : answer.generation = 0 := by
    rw [scanView, hindexed] at hscan
    exact generation_of_answerRows hscan
  have hstart : (moment numbered history 0).answerAnew view request =
      if request.reduce ∧ view.reduce = none then .error (.scan (.noReduce view.descriptor))
      else .ok ⟨[], 0⟩ := by
    rw [answerAnew_of_documents_nil rfl, answerRows_nil]
    rfl
  have hreduce : ¬(request.reduce ∧ view.reduce = none) := by
    rintro ⟨hreduce, hnone⟩
    rw [scanView, answerRows, if_pos hreduce, hnone] at hscan
    cases hscan
  rw [if_neg hreduce] at hstart
  constructor
  · rintro ⟨-, htruthful⟩
    have hanswer := htruthful 0 hgeneration.symm
    rw [hstart] at hanswer
    cases hanswer
    rfl
  · intro hrows
    refine truthful_of_moment (n := 0) hgeneration.symm ?_
    rw [hstart, ← hrows, ← hgeneration]

/-- A scan without bodies is truthful exactly when it refreshed first, or the view was built, or it
found nothing. -/
theorem truthful_iff (numbered : Nat) (history : List Command) (request : Request) {id : IndexId}
    {view : View} {answer : Answer} (htarget : request.target = .index id)
    (hbodies : request.includeDocs = false)
    (hview : (after numbered history).view? id = some view)
    (hscan : ((after numbered history).scan request).2 = .ok answer) :
    Truthful numbered history view request answer ↔
      request.stale = .refreshBefore ∨ view.indexed.isSome ∨ answer.rows = [] := by
  by_cases hstale : request.stale = .refreshBefore
  · have hanew := scan_eq_answerAnew numbered history request htarget hstale hview
    rw [hscan] at hanew
    have hmoment : moment numbered history history.length = after numbered history :=
      moment_of_length_le (Nat.le_refl history.length)
    refine iff_of_true (truthful_of_moment (n := history.length) ?_ ?_) (.inl hstale)
    · rw [hmoment, hanew.2 answer rfl]
    · rw [hmoment, ← hanew.1]
  · -- Any other scan reads the view as it is, and fails or answers what it found there.
    have hread := scanView_of_scan htarget hstale hview hscan
    cases hindexed : view.indexed with
    | some g =>
      have hmem : view ∈ (after numbered history).views := List.mem_of_find?_eq_some hview
      exact iff_of_true (truthful_of_indexed hmem hindexed hbodies hread) (.inr (.inl rfl))
    | none => simpa [hstale] using truthful_of_unbuilt hindexed hread

/-- The lagging view answers for the generation it was built at, two before the current one. -/
theorem truthful_lagging :
    ∃ view answer, (after 0 lagging).view? ⟨1⟩ = some view ∧
      ((after 0 lagging).scan (wholeOf ⟨1⟩ .neverRefresh)).2 = .ok answer ∧
      answer.generation = 2 ∧ (after 0 lagging).generation = 4 ∧
      Truthful 0 lagging view (wholeOf ⟨1⟩ .neverRefresh) answer :=
  ⟨_, _, rfl, rfl, rfl, rfl,
    (truthful_iff 0 lagging (wholeOf ⟨1⟩ .neverRefresh) rfl rfl rfl rfl).2 (.inr (.inl rfl))⟩

/-- The map function takes one document in and crashes on the next. -/
def halfBuilt : List Command :=
  [.put "a" (.bool true), .put "b" .null, .defineView "v" bodyById none,
   .scan (wholeOf ⟨1⟩ .refreshBefore)]

/-- The row that the crash left behind is answered under generation 0, when there was no
document. -/
theorem not_truthful_after_crash :
    ∃ view answer, (after 0 halfBuilt).view? ⟨1⟩ = some view ∧
      ((after 0 halfBuilt).scan (wholeOf ⟨1⟩ .neverRefresh)).2 = .ok answer ∧
      answer.generation = 0 ∧ answer.rows.map Row.docId = [some "a"] ∧
      ¬Truthful 0 halfBuilt view (wholeOf ⟨1⟩ .neverRefresh) answer := by
  refine ⟨_, _, rfl, rfl, rfl, rfl, fun htruthful => ?_⟩
  have hrows := (truthful_of_unbuilt rfl rfl).1 htruthful
  cases hrows

end Viewbase.Store
