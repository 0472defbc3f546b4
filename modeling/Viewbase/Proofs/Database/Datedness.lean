import Viewbase.Proofs.Database.Hearing
import Viewbase.Proofs.Database.LastSeen

/-!
Of what generation the rows are that a live query shows.

The query of a live query notes the generation of every success, and the live query takes the answer
over only if its rows are others.  Main statement: at rest after a success, the noted generation is
that of the answer, and the rows shown are of that generation unless they are those of an earlier
answer that was the same row for row (`Reached.shows_last_success`).
-/

namespace Viewbase

namespace LiveQuery

/-- The rows after a success are of its generation unless they were the same before, of another. -/
theorem generation_goodRows (rows : Option Answer) (answer : Answer) :
    (goodRows rows [.ok answer]).map Answer.generation = some answer.generation ↔
      ∀ shown, rows = some shown → shown.sameRows answer →
        shown.generation = answer.generation := by
  cases rows with
  | none => simp [goodRows, sameAs]
  | some shown =>
    cases hsame : shown.sameRows answer <;> simp [goodRows, sameAs, hsame]

end LiveQuery

namespace Store

/-- Emits the body of a document under its id, and nothing where there is none. -/
def bodyIfAny : MapFunction := fun doc =>
  match doc.body with
  | .null => some []
  | body => some [(.string doc.id, body)]

end Store

namespace Moment

variable {σ : Type} {m m' : Moment σ} {id task run : Nat} {live now : LiveQuery} {deed : Deed σ}
  {steps : List (Moment σ × Deed σ)}

/-- No scan is completed for the query of a live query that is idle. -/
theorem Reached.not_completes_of_idle (h : m.Reached) (hlive : m.db.lives[id]? = some live)
    (hidle : live.phase = .idle) (hdoes : m.Does deed m') : ¬m.Completes live.query deed := by
  intro hcompletes
  cases hdoes with
  | act action hpermitted htells =>
    cases action with
    | runQuery query =>
      -- The client cannot name the query of a live query.
      exact hpermitted.2 live (List.mem_of_getElem? hlive) hcompletes.1.symm
    | go job =>
      cases job with
      | run run =>
        obtain ⟨submitted, result, hrun, hquery, -, hcontrol⟩ := hcompletes
        obtain ⟨-, hattended, -⟩ := h.attended
        obtain ⟨query, -, hattends⟩ := hattended.attends id live hlive
        have hknown := (hattends.runs run submitted hrun hquery).2 (.inr hcontrol)
        have hprogress := hattends.progress
        rw [Stance.Progress, hidle] at hprogress
        rw [hprogress.1] at hknown
        cases hknown
      | refresh task => exact hcompletes
    | _ => exact hcompletes
  | _ => exact hcompletes

/-- A live query that is idle was idle, or has just taken the outcome of a run in. -/
theorem idle_before (hdoes : m.Does deed m') (hlive : m.db.lives[id]? = some live)
    (hnone : m.finished? id deed = none) (hnow : m'.db.lives[id]? = some now)
    (hidle : now.phase = .idle) : live.phase = .idle := by
  obtain ⟨phase, epoch, launched, htransition, ⟨now', hnow', hphase, -⟩, -, -⟩ :=
    undergoes_does hdoes hlive
  obtain rfl : now' = now := Option.some.inj (hnow'.symm.trans hnow)
  rw [hidle] at hphase
  cases htransition with
  | rest => exact hphase.symm
  | halt | start | launch | again => cases hphase
  | remember hdeed hreact =>
    have hagain := (LiveQuery.of_remember hreact).2.2
    rw [← hphase] at hagain
    cases hagain
  | settle hdeed htask hof hcurrent =>
    subst hdeed
    cases hdoes with
    | takeIn hready htask' hstage hrun =>
      obtain rfl := Option.some.inj (htask.symm.trans htask')
      rw [finished?_takeIn htask hstage hrun hlive, if_pos ⟨hof, hcurrent⟩] at hnone
      cases hnone

/-- A success is noted by the query before the live query takes it in. -/
theorem Reached.seen_of_finishes (h : m.Reached) {refresh : Refresh} {submitted : Run}
    {answer : Answer} (hfinishes : m.Finishes id task run refresh submitted live)
    (hok : submitted.answer = .ok answer) :
    m.db.lastGeneration live.query = some answer.generation := by
  obtain ⟨-, hover, htold⟩ := h.over_of_finishes hfinishes
  obtain ⟨-, hattended, -⟩ := h.attended
  obtain ⟨query, hquery, hattends⟩ := hattended.attends id live hfinishes.lives
  have hgoing : Stance.Going ⟨m, none⟩ task refresh :=
    ⟨hfinishes.known, by simp [hfinishes.awaits], htold⟩
  obtain ⟨-, -, -, -, hknown⟩ := hattends.of_current hgoing hfinishes.own hfinishes.current
  rw [hfinishes.awaits] at hknown
  obtain ⟨-, submitted', hsubmitted, -, -, hcourse⟩ := hknown
  obtain rfl : submitted' = submitted := Option.some.inj (hsubmitted.symm.trans hfinishes.submitted)
  have hended : submitted'.stage = .ended := by
    cases hstage : submitted'.stage <;> rw [Run.isOver, hstage] at hover
    all_goals cases hover
  rw [Run.OnCourse, hended] at hcourse
  obtain ⟨-, outcome, houtcome, -, hnoted⟩ := hcourse
  have hdelivered : submitted'.answer = outcome := by
    rw [Run.answer, houtcome, Option.getD_some]
  rw [Database.lastGeneration, show m.db.queries[live.query]? = some query from hquery,
    Option.bind_some]
  exact (hnoted answer (hdelivered ▸ hok)).2

/-- How a live query stands after those steps: it has the good rows of its outcomes and the error of
the last, and at rest after a success its query has noted the generation of that. -/
structure Stands (id : Nat) (steps : List (Moment σ × Deed σ)) (db : Database σ)
    (now : LiveQuery) : Prop where
  rows : now.rows = LiveQuery.goodRows none (outcomes id steps)
  lastError : now.lastError = (outcomes id steps).getLast?.bind LiveQuery.failure?
  noted : now.phase = .idle → ∀ answer, (outcomes id steps).getLast? = some (.ok answer) →
    db.lastGeneration now.query = some answer.generation

theorem Stands.does (h : Stands id steps m.db live) (hreached : m.Reached)
    (hlive : m.db.lives[id]? = some live) (hdoes : m.Does deed m') :
    ∃ now, m'.db.lives[id]? = some now ∧ Stands id (steps ++ [(m, deed)]) m'.db now := by
  have hquery {now : LiveQuery} (hnow : m'.db.lives[id]? = some now) : now.query = live.query := by
    obtain ⟨now', hnow', hgoes⟩ := (hreached.onward (.single hdoes.step)).lives id live hlive
    obtain rfl : now' = now := Option.some.inj (hnow'.symm.trans hnow)
    exact hgoes.query
  have hretains (hother : ¬m.Completes live.query deed) :
      m'.db.lastGeneration live.query = m.db.lastGeneration live.query := by
    obtain ⟨-, hattended, -⟩ := hreached.attended
    obtain ⟨query, hknown, -⟩ := hattended.attends id live hlive
    exact (retains_does hdoes hother).lastGeneration hknown
  cases hfinished : m.finished? id deed with
  | none =>
    obtain ⟨-, now, hnow, hrows, herror, -⟩ := stillShows_does hdoes hlive hfinished 0
    have houtcomes : outcomes id (steps ++ [(m, deed)]) = outcomes id steps := by
      rw [outcomes_snoc, hfinished, Option.toList_none, List.map_nil, List.append_nil]
    refine ⟨now, hnow, by rw [hrows, houtcomes, h.rows], by rw [herror, houtcomes, h.lastError],
      fun hidle answer hlast => ?_⟩
    have hbefore := idle_before hdoes hlive hfinished hnow hidle
    rw [hquery hnow, hretains (hreached.not_completes_of_idle hlive hbefore hdoes)]
    exact h.noted hbefore answer (houtcomes ▸ hlast)
  | some finished =>
    obtain ⟨run, outcome⟩ := finished
    obtain ⟨-, -, now, hnow, hrows, herror, -⟩ := hreached.absorbs_does hdoes hlive hfinished
    have houtcomes : outcomes id (steps ++ [(m, deed)]) = outcomes id steps ++ [outcome] := by
      rw [outcomes_snoc, hfinished, Option.toList_some, List.map_singleton]
    refine ⟨now, hnow, by rw [hrows, houtcomes, LiveQuery.goodRows_append, h.rows],
      by rw [herror, houtcomes, List.getLast?_concat, Option.bind_some], ?_⟩
    intro _ answer hlast
    rw [houtcomes, List.getLast?_concat] at hlast
    obtain ⟨task, refresh, submitted, live', rfl, rfl, hfinishes⟩ := hdoes.finishes hfinished
    obtain rfl : live' = live := Option.some.inj (hfinishes.lives.symm.trans hlive)
    rw [hquery hnow, hretains fun hcompletes => hcompletes]
    exact hreached.seen_of_finishes hfinishes (Option.some.inj hlast)

/-- A live query stands so from before its first start on. -/
theorem Reached.stands (h : m.Reached) (hlive : m.db.lives[id]? = some live)
    (hfirst : live.epoch = 0) (htrace : Trace m steps m') :
    ∃ now, m'.db.lives[id]? = some now ∧ Stands id steps m'.db now := by
  induction htrace with
  | nil =>
    obtain ⟨-, hnone, hfine⟩ := h.blankAtFirst id live hlive hfirst
    exact ⟨live, hlive, hnone, hfine, nofun⟩
  | snoc htrace hdoes ih =>
    obtain ⟨live', hlive', hstands⟩ := ih
    exact hstands.does (h.steps htrace.forget) hlive' hdoes

/-- At rest without an error, the noted generation is the current one if the query brings its index
up to date first and the live query has been told of all later changes. -/
theorem Reached.generation_of_idle (h : m.Reached) (hlive : m.db.lives[id]? = some live)
    (hidle : live.phase = .idle) (hgood : live.lastError = none)
    (hstale : ∀ query, m.db.queries[live.query]? = some query →
      query.settings.stale = .refreshBefore)
    (hthere : m.db.store.hasIndex live.index.id) {generation : Nat}
    (hseen : m.db.lastGeneration live.query = some generation)
    (htold : ∀ change : Change, (.live id live.epoch, change) ∈ m.pending →
      change.generation ≤ generation) : generation = m.db.store.generation := by
  obtain ⟨-, hattended, -⟩ := h.attended
  obtain ⟨query, hquery, hattends⟩ := hattended.attends id live hlive
  have hprogress := hattends.progress
  rw [Stance.Progress, hidle] at hprogress
  obtain ⟨-, answer, -, -, hkept, hnoted⟩ := hprogress.2.2 hgood
  obtain rfl : answer.generation = generation := by
    rw [Database.lastGeneration, show m.db.queries[live.query]? = some query from hquery,
      Option.bind_some, hnoted] at hseen
    exact Option.some.inj hseen
  obtain ⟨hfresh, hbehind⟩ := hkept (hstale query hquery)
  by_contra hne
  have hlt := Nat.lt_of_le_of_ne hfresh.reached hne
  rcases hbehind hthere hlt with hagain | ⟨change, hpending, hlater⟩
  · rw [hidle] at hagain
    cases hagain
  · exact Nat.not_lt_of_ge (htold change hpending) hlater

/-- At rest after a success, the generation that the query of a live query has noted is that of the
answer.  The rows shown are those of the answer, of its generation, unless they were the same row
for row before; then they stay as they were, of the generation that they were.  If the query brings
its index up to date first and the live query has been told of all later changes, the answer is of
the current generation, and rows of an earlier one are stale. -/
theorem Reached.shows_last_success (h : m.Reached) (hlive : m.db.lives[id]? = some live)
    (hfirst : live.epoch = 0) (htrace : Trace m steps m') (hnow : m'.db.lives[id]? = some now)
    (hidle : now.phase = .idle) {earlier : List Outcome} {answer : Answer}
    (hlast : outcomes id steps = earlier ++ [.ok answer]) :
    m'.db.lastGeneration now.query = some answer.generation ∧
      now.rows = (if LiveQuery.sameAs (LiveQuery.goodRows none earlier) answer then
        LiveQuery.goodRows none earlier else some answer) ∧
      (now.rows.map Answer.generation = m'.db.lastGeneration now.query ↔
        ∀ shown, LiveQuery.goodRows none earlier = some shown → shown.sameRows answer →
          shown.generation = answer.generation) ∧
      ((∀ query, m'.db.queries[now.query]? = some query →
          query.settings.stale = .refreshBefore) →
        m'.db.store.hasIndex now.index.id →
        (∀ change : Change, (.live id now.epoch, change) ∈ m'.pending →
          change.generation ≤ answer.generation) →
        answer.generation = m'.db.store.generation ∧ ∀ shown, now.rows = some shown →
          (shown.isStale m'.db.store.generation ↔ shown.generation < answer.generation)) := by
  obtain ⟨now', hnow', hrows, herror, hnoted⟩ := h.stands hlive hfirst htrace
  obtain rfl : now' = now := Option.some.inj (hnow'.symm.trans hnow)
  have hend : (outcomes id steps).getLast? = some (.ok answer) := by
    rw [hlast, List.getLast?_concat]
  have hseen := hnoted hidle answer hend
  rw [hend] at herror
  rw [hlast, LiveQuery.goodRows_append] at hrows
  refine ⟨hseen, hrows, ?_, fun hstale hthere htold => ?_⟩
  · rw [hrows, hseen]
    exact LiveQuery.generation_goodRows _ answer
  · have hcurrent := (h.steps htrace.forget).generation_of_idle hnow hidle herror hstale hthere
      hseen htold
    exact ⟨hcurrent, fun shown _ => by rw [Answer.isStale, decide_eq_true_iff, hcurrent]⟩

/-- A document that the view has nothing for is written while a live query is at rest: its second
run finds the rows of the first. -/
theorem Reached.exists_same_rows : ∃ (m m' : Moment Unit) (live now : LiveQuery)
    (steps : List (Moment Unit × Deed Unit)), m.Reached ∧ m.db.lives[0]? = some live ∧
      live.epoch = 0 ∧ Trace m steps m' ∧ m'.db.lives[0]? = some now ∧ now.phase = .idle ∧
      outcomes 0 steps = [.ok ⟨[], 0⟩, .ok ⟨[], 1⟩] ∧
      (∀ query, m'.db.queries[now.query]? = some query → query.settings.stale = .refreshBefore) ∧
      m'.db.store.hasIndex now.index.id ∧ m'.pending = [] ∧ m'.db.store.generation = 1 := by
  have hmade := @create Unit {} .info 0 () _ rfl
  have hdefined := hmade.step (.act (.defineView "v" Store.bodyIfAny none) trivial trivial)
  have hqueried := hdefined.step (.act (.queryIndex (.named ⟨1⟩ "v" false)) trivial trivial)
  have hlive := hqueried.step (.act (.makeLive 0) trivial trivial)
  obtain ⟨hstart, hstarted⟩ := hlive.act (.startLive 0) (by rintro live ⟨⟩; rfl) trivial
  obtain ⟨hsubmit, hsubmitted⟩ :=
    hstarted.act (.go (.refresh 0)) trivial (by rintro refresh ⟨⟩ run ⟨⟩)
  obtain ⟨hrun, hrunning⟩ := hsubmitted.act (.go (.run 0)) trivial trivial
  obtain ⟨hscan, hscanned⟩ := hrunning.act (.scanRun 0) trivial trivial
  obtain ⟨hend, hended⟩ := hscanned.act (.go (.run 0)) trivial trivial
  obtain ⟨htake, htaken⟩ := hended.does (@Does.takeIn Unit _ 0 0 _ _ (by decide) rfl rfl rfl)
  obtain ⟨hwrite, hwritten⟩ := htaken.does
    (@Does.write Unit _ (.put "a" .null) "a" (Store.putEdit "a" .null) _ _ rfl rfl)
  obtain ⟨htell, htold⟩ := hwritten.does (@Does.tell Unit _ [] [] _ (.live 0 1) ⟨1, ["a"]⟩)
  obtain ⟨hsleep, hsleeping⟩ :=
    htold.act (.go (.refresh 1)) trivial (by rintro refresh ⟨⟩ run ⟨⟩)
  obtain ⟨hfire, hfired⟩ := hsleeping.act .fire trivial trivial
  obtain ⟨hsubmit', hsubmitted'⟩ :=
    hfired.act (.go (.refresh 1)) trivial (by rintro refresh ⟨⟩ run ⟨⟩)
  obtain ⟨hrun', hrunning'⟩ := hsubmitted'.act (.go (.run 1)) trivial trivial
  obtain ⟨hscan', hscanned'⟩ := hrunning'.act (.scanRun 1) trivial trivial
  obtain ⟨hend', hended'⟩ := hscanned'.act (.go (.run 1)) trivial trivial
  obtain ⟨htake', -⟩ := hended'.does (@Does.takeIn Unit _ 1 1 _ _ (by decide) rfl rfl rfl)
  have htrace := ((((((((((((((Trace.nil.snoc hstart).snoc hsubmit).snoc hrun).snoc hscan).snoc
    hend).snoc htake).snoc hwrite).snoc htell).snoc hsleep).snoc hfire).snoc hsubmit').snoc
    hrun').snoc hscan').snoc hend').snoc htake'
  exact ⟨_, _, _, _, _, hlive, rfl, rfl, htrace, rfl, rfl, rfl, by rintro query ⟨⟩; rfl, rfl, rfl,
    rfl⟩

/-- The live query shows rows that are the same, of the generation before. -/
theorem Reached.shows_earlier_of_same : ∃ (m : Moment Unit) (now : LiveQuery) (shown : Answer),
    m.Reached ∧ m.db.lives[0]? = some now ∧ now.phase = .idle ∧ now.rows = some shown ∧
      shown.generation = 0 ∧ m.db.lastGeneration now.query = some 1 ∧
      shown.isStale m.db.store.generation := by
  obtain ⟨m, m', live, now, steps, h, hlive, hfirst, htrace, hnow, hidle, houtcomes, hstale, hthere,
    hpending, hgeneration⟩ := exists_same_rows
  obtain ⟨hnoted, hrows, -, hcurrent⟩ := @Reached.shows_last_success _ _ _ _ _ _ _ h hlive hfirst
    htrace hnow hidle [.ok ⟨[], 0⟩] ⟨[], 1⟩ houtcomes
  obtain ⟨-, hwhen⟩ := hcurrent hstale hthere (by simp [hpending])
  exact ⟨m', now, ⟨[], 0⟩, h.steps htrace.forget, hnow, hidle, hrows, rfl, hnoted,
    (hwhen _ hrows).2 Nat.zero_lt_one⟩

/-- The rows shown at rest after a success are not always of the generation that was noted. -/
theorem Reached.not_shown_generation_noted : ¬∀ (m m' : Moment Unit) (id : Nat)
    (live now : LiveQuery) (steps : List (Moment Unit × Deed Unit)) (answer : Answer), m.Reached →
      m.db.lives[id]? = some live → live.epoch = 0 → Trace m steps m' →
      m'.db.lives[id]? = some now → now.phase = .idle →
      (outcomes id steps).getLast? = some (.ok answer) →
      now.rows.map Answer.generation = m'.db.lastGeneration now.query := by
  intro hall
  obtain ⟨m, m', live, now, steps, h, hlive, hfirst, htrace, hnow, hidle, houtcomes, -⟩ :=
    exists_same_rows
  have hsame := hall m m' 0 live now steps ⟨[], 1⟩ h hlive hfirst htrace hnow hidle
    (by rw [houtcomes]; rfl)
  obtain ⟨now', hnow', hrows, -, hnoted⟩ := h.stands hlive hfirst htrace
  obtain rfl : now' = now := Option.some.inj (hnow'.symm.trans hnow)
  rw [hnoted hidle ⟨[], 1⟩ (by rw [houtcomes]; rfl), hrows, houtcomes] at hsame
  exact absurd hsame (by decide)

end Moment

end Viewbase
