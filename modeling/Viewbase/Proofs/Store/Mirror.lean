import Viewbase.Proofs.Store.Grouping

/-!
Descending scans against ascending ones.

A range is mirrored if its start and its end change places, with the document ids beside them.  Main
statement: a descending scan of a range with an inclusive end answers the rows of the ascending scan
of the mirrored range in reverse, grouped or not, if it makes no difference to the reduce function
from which end it gets its rows (`scan_descending`).
-/

namespace Viewbase

namespace KeyRange

/-- The range whose start is the end of the other, and whose end is its start. -/
def mirrored (range : KeyRange) : KeyRange where
  startKey := range.endKey
  endKey := range.startKey
  startDoc := range.endDoc
  endDoc := range.startDoc
  inclusiveEnd := range.inclusiveEnd

theorem reachesStart_mirrored {range : KeyRange} (h : range.inclusiveEnd = true) (key : Key)
    (docId : String) :
    range.reachesStart true key docId = range.mirrored.withinEnd false key docId := by
  rw [reachesStart, withinEnd, mirrored]
  cases range.startKey with
  | none => rfl
  | some bound =>
    simp only [h]
    cases orderBound key docId bound range.startDoc <;> rfl

theorem withinEnd_mirrored {range : KeyRange} (h : range.inclusiveEnd = true) (key : Key)
    (docId : String) :
    range.withinEnd true key docId = range.mirrored.reachesStart false key docId := by
  rw [reachesStart, withinEnd, mirrored]
  cases range.endKey with
  | none => rfl
  | some bound =>
    simp only [h]
    cases orderBound key docId bound range.endDoc <;> rfl

/-- A range holds in a descending scan what its mirror image holds in an ascending one. -/
theorem contains_mirrored {range : KeyRange} (h : range.inclusiveEnd = true) (key : Key)
    (docId : String) :
    range.contains true key docId = range.mirrored.contains false key docId := by
  rw [contains, contains, reachesStart_mirrored h, withinEnd_mirrored h, Bool.and_comm]

end KeyRange

/-! ## Reversed groups -/

namespace Block

def reversed (block : Block) : Block :=
  ⟨block.key, block.rows.reverse⟩

end Block

theorem Blocks.reversed {level : Nat} {blocks : List Block} {rows : List Entry}
    (h : Blocks level blocks rows) :
    Blocks level (blocks.map Block.reversed).reverse rows.reverse where
  joined := by
    rw [← h.joined, List.reverse_flatMap, ← List.map_reverse, List.flatMap_map]
    rfl
  filled := by
    simpa [Block.reversed] using h.filled
  uniform := by
    simpa [Block.reversed] using h.uniform
  apart := by
    rw [List.map_reverse, List.map_map, List.isChain_reverse]
    exact h.apart.imp fun _ _ => Ne.symm

namespace Group

def reversed (group : Group) : Group :=
  ⟨group.key, group.keys.reverse, group.values.reverse⟩

theorem reversed_reversed (group : Group) : group.reversed.reversed = group := by
  rw [reversed, reversed, List.reverse_reverse, List.reverse_reverse]

/-- Reversed rows have the same groups, each reversed, in reverse. -/
theorem runs_reverse (level : Nat) (rows : List Entry) :
    runs level rows.reverse = ((runs level rows).map reversed).reverse := by
  obtain ⟨blocks, hblocks⟩ := exists_blocks level rows
  rw [runs_of_blocks hblocks, runs_of_blocks hblocks.reversed, List.map_reverse, List.map_map,
    List.map_map]
  refine congrArg List.reverse (List.map_congr_left fun block _ => ?_)
  rw [Function.comp, Function.comp, Block.group, Block.group, reversed, Block.reversed,
    List.map_reverse, List.map_reverse]

end Group

namespace ReduceFunction

/-- It makes no difference from which end the function gets its rows. -/
def Reversible (reduce : ReduceFunction) : Prop :=
  ∀ keys values, reduce keys.reverse values.reverse = reduce keys values

theorem reversible_count : Reversible count := fun keys _ => by
  rw [count, count, List.length_reverse]

end ReduceFunction

namespace Group

variable {reduce : ReduceFunction} {groups : List Group}

theorem reduceAll_reversed (hreduce : reduce.Reversible) {rows : List Row}
    (h : reduceAll reduce groups = .ok rows) :
    reduceAll reduce (groups.map reversed).reverse = .ok rows.reverse := by
  rw [reduceAll_eq_ok] at h
  rw [reduceAll_eq_ok, List.forall₂_reverse_iff, List.forall₂_map_left_iff]
  refine h.imp fun group row ⟨value, hvalue, hrow⟩ => ⟨value, ?_, hrow⟩
  exact (hreduce group.keys group.values).trans hvalue

/-- The only failure of a reduction is that the function crashes on a group. -/
theorem reduceAll_cases (reduce : ReduceFunction) (groups : List Group) :
    (∃ rows, reduceAll reduce groups = .ok rows) ∨
      ∃ key, reduceAll reduce groups = .error (.scan (.reduceCrashed key)) := by
  induction groups with
  | nil => exact .inl ⟨[], rfl⟩
  | cons group rest ih =>
    rw [reduceAll]
    cases reduce group.keys group.values with
    | none => exact .inr ⟨group.key, rfl⟩
    | some value =>
      rcases ih with ⟨rows, heq⟩ | ⟨key, heq⟩
      · exact .inl ⟨Row.aggregate group.key value :: rows, by simp only [heq]⟩
      · exact .inr ⟨key, by simp only [heq]⟩

end Group

/-! ## Mirrored answers -/

/-- The answer with its rows in reverse. -/
def Answer.reversed (answer : Answer) : Answer :=
  ⟨answer.rows.reverse, answer.generation⟩

/-- Outcomes that mirror each other: the same rows in reverse, the same error, or a crash of the
reduce function in both. -/
inductive Mirrored : Except IndexError Answer → Except IndexError Answer → Prop where
  | answers (answer : Answer) : Mirrored (.ok answer.reversed) (.ok answer)
  | errors (error : IndexError) : Mirrored (.error error) (.error error)
  | crashes (key key' : Key) :
    Mirrored (.error (.scan (.reduceCrashed key))) (.error (.scan (.reduceCrashed key')))

/-- A request for a range in a direction. -/
def Request.over (request : Request) (range : KeyRange) (descending : Bool) : Request :=
  { request with selection := .range range, descending := descending }

theorem View.select_mirrored (view : View) {range : KeyRange} (h : range.inclusiveEnd = true) :
    view.select (.range range) true = (view.select (.range range.mirrored) false).reverse := by
  have hcontains : (fun entry : Entry => range.contains true entry.key entry.docId) =
      fun entry => range.mirrored.contains false entry.key entry.docId :=
    funext fun entry => KeyRange.contains_mirrored h entry.key entry.docId
  rw [select, select, hcontains]
  exact List.filter_reverse ..

namespace Store

variable {past : Timeline} {s : Store} {request mirror : Request}

theorem page_all {α : Type} (items : List α) : page 0 none items = items :=
  rfl

/-- Reversed rows answer a mirrored request in reverse. -/
theorem mirrored_answerRows (view : View) (hskip : request.skip = 0) (hlimit : request.limit = none)
    (hreduce : request.reduce = true → ∀ reduce, view.reduce = some reduce → reduce.Reversible)
    (selected : List Entry) (generation : Nat) :
    Mirrored (s.answerRows view request selected.reverse generation)
      (s.answerRows view request selected generation) := by
  simp only [answerRows, hskip, hlimit, page_all]
  cases hasked : request.reduce with
  | false =>
    simp only [Bool.false_eq_true, if_false, List.map_reverse]
    exact .answers ⟨selected.map (s.mappedRow request.includeDocs), generation⟩
  | true =>
    simp only [if_true]
    cases hview : view.reduce with
    | none => exact .errors _
    | some reduce =>
      have hreversible := hreduce hasked reduce hview
      simp only [Group.runs_reverse]
      rcases Group.reduceAll_cases reduce (Group.runs request.groupLevel selected) with
        ⟨rows, heq⟩ | ⟨key, heq⟩
      · rw [Group.reduceAll_reversed hreversible heq, heq]
        exact .answers ⟨rows, generation⟩
      · rcases Group.reduceAll_cases reduce
            ((Group.runs request.groupLevel selected).map Group.reversed).reverse with
          ⟨rows, heq'⟩ | ⟨key', heq'⟩
        · -- Reversed once more the groups would be reduced after all.
          have hback := Group.reduceAll_reversed hreversible heq'
          rw [List.map_reverse, List.reverse_reverse, List.map_map] at hback
          simp [Function.comp_def, Group.reversed_reversed, heq] at hback
        · rw [heq, heq']
          exact .crashes _ _

/-- Scans mirror each other if they do so on the view as it stands after a refresh. -/
theorem Follows.mirrored_scanRefreshing (h : s.Follows past) {id : IndexId}
    (hstale : mirror.stale = request.stale)
    (hscan : ∀ view view' : View, s.view? id = some view → view'.Alike view → ∀ s' : Store,
      Mirrored (s'.scanView view' request) (s'.scanView view' mirror)) :
    Mirrored (s.scanRefreshing id request).2 (s.scanRefreshing id mirror).2 := by
  rw [scanRefreshing, scanRefreshing, hstale]
  cases hview : s.view? id with
  | none =>
    have hmissing : ∀ request, s.scanIndex id request = .error (.unavailable (.index id)) :=
      fun request => by rw [scanIndex, hview]
    have hrefresh : s.refresh id = (s, .error (.unavailable (.index id))) := by
      rw [Store.refresh, hview]
    cases request.stale <;> simp only [hmissing, hrefresh] <;> exact .errors _
  | some view =>
    have hfound : ∀ request, s.scanIndex id request = s.scanView view request := fun request => by
      rw [scanIndex, hview]
    have hrefresh := h.refresh_cases hview
    cases request.stale with
    | neverRefresh =>
      simp only [hfound]
      exact hscan view view hview (.refl view) s
    | refreshBefore =>
      rcases hrefresh with ⟨doc, halfway, -, -, -, heq⟩ |
        ⟨s', current, -, halike, -, -, hcurrent, -, -, -, heq⟩
      · simp only [heq]
        exact .errors _
      · simp only [heq, scanIndex, hcurrent]
        exact hscan view current hview halike s'
    | refreshAfter =>
      have hboth := hscan view view hview (.refl view) s
      simp only [hfound]
      generalize s.scanView view request = outcome at hboth ⊢
      generalize s.scanView view mirror = outcome' at hboth ⊢
      cases hboth with
      | answers answer =>
        rcases hrefresh with ⟨doc, halfway, -, -, -, heq⟩ |
          ⟨s', current, -, -, -, -, -, -, -, -, heq⟩
        · simp only [heq]
          exact .errors _
        · simp only [heq]
          exact .answers answer
      | errors error => exact .errors error
      | crashes key key' => exact .crashes key key'

/-- Documents in a range stand in reverse in a descending scan. -/
theorem scanDocuments_mirrored (s : Store) {request : Request} (hskip : request.skip = 0)
    (hlimit : request.limit = none) {range : KeyRange} (h : range.inclusiveEnd = true) :
    s.scanDocuments (request.over range true) =
      (s.scanDocuments (request.over range.mirrored false)).reversed := by
  have hcontains : (fun doc : Document => request.mode.shows doc &&
        range.contains true (.string doc.id) doc.id) =
      fun doc => request.mode.shows doc &&
        range.mirrored.contains false (.string doc.id) doc.id :=
    funext fun doc => by rw [KeyRange.contains_mirrored h]
  have hselected : s.selectDocuments (request.over range true) =
      (s.selectDocuments (request.over range.mirrored false)).reverse := by
    simp only [selectDocuments, Request.over, if_true, hcontains]
    exact List.filter_reverse ..
  rw [scanDocuments, scanDocuments, Answer.reversed, hselected]
  simp only [Request.over, hskip, hlimit, page_all, List.map_reverse]
  rfl

/-- After any history, an unpaged descending scan of a range with an inclusive end answers the
rows of the ascending scan of the mirrored range in reverse, under any staleness policy, from a view
or from the documents; so do groups, if it makes no difference to the reduce function from which end
it gets its rows. -/
theorem scan_descending (numbered : Nat) (history : List Command) (request : Request)
    (range : KeyRange) (hskip : request.skip = 0) (hlimit : request.limit = none)
    (hinclusive : range.inclusiveEnd = true)
    (hreduce : request.reduce = true → ∀ id view reduce, request.target = .index id →
      (after numbered history).view? id = some view → view.reduce = some reduce →
      reduce.Reversible) :
    Mirrored ((after numbered history).scan (request.over range true)).2
      ((after numbered history).scan (request.over range.mirrored false)).2 := by
  obtain ⟨past, hfollows, -⟩ := exists_timeline numbered history
  cases htarget : request.target with
  | documents =>
    have hscan : ∀ range descending,
        ((after numbered history).scan (request.over range descending)).2 =
        .ok (Store.scanDocuments { after numbered history with
          scans := (after numbered history).scans + 1 } (request.over range descending)) := by
      intro range descending
      rw [scan, Request.over, htarget]
    rw [hscan, hscan, scanDocuments_mirrored _ hskip hlimit hinclusive]
    exact .answers _
  | index id =>
    have hscan : ∀ range descending, (after numbered history).scan (request.over range descending) =
        Store.scanRefreshing { after numbered history with
          scans := (after numbered history).scans + 1 } id (request.over range descending) := by
      intro range descending
      rw [scan, Request.over, htarget]
    rw [hscan, hscan]
    refine (hfollows.counted _).mirrored_scanRefreshing rfl fun view view' hview halike s' => ?_
    rw [scanView, scanView]
    change Mirrored (s'.answerRows view' request (view'.select (.range range) true) _)
      (s'.answerRows view' request (view'.select (.range range.mirrored) false) _)
    rw [view'.select_mirrored hinclusive]
    refine mirrored_answerRows view' hskip hlimit (fun hasked reduce hview' => ?_) _ _
    exact hreduce hasked id view reduce htarget hview (halike.reduce ▸ hview')

/-- The range from an array down to a text, both with document ids beside them. -/
def arraysToText : KeyRange where
  startKey := some (.array [.string "x", .bool true])
  endKey := some (.string "x")
  startDoc := some "a"
  endDoc := some "b"
  inclusiveEnd := true

/-- A lagging view is refreshed first in both directions; the groups of the descending scan, at both
bounds of the range, are those of the ascending one in reverse. -/
theorem descending_mixedKeys :
    Mirrored
        ((after 0 (mixedKeys ++ [.delete "c"])).scan
          (Request.over { countsAt 1 true with stale := .refreshBefore } arraysToText true)).2
        ((after 0 (mixedKeys ++ [.delete "c"])).scan
          (Request.over { countsAt 1 true with stale := .refreshBefore }
            arraysToText.mirrored false)).2 ∧
      ((after 0 (mixedKeys ++ [.delete "c"])).scan
          (Request.over { countsAt 1 true with stale := .refreshBefore } arraysToText true)).2 =
        .ok ⟨[Row.aggregate (.array [.string "x"]) (.nat 2), Row.aggregate (.string "x") (.nat 1)],
          5⟩ := by
  refine ⟨scan_descending 0 (mixedKeys ++ [.delete "c"]) _ arraysToText rfl rfl rfl ?_, rfl⟩
  intro _ id view reduce htarget hview hreduce
  cases htarget
  cases hview
  cases hreduce
  exact ReduceFunction.reversible_count

end Store

end Viewbase
