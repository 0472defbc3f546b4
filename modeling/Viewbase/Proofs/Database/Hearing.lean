import Viewbase.Proofs.Database.Flight
import Viewbase.Proofs.Database.Showing

/-!
What the listeners of a live query hear.

A run of a live query is finished when its outcome is taken in in the epoch it was submitted in.
Whatever is written, stopped and started, the outcomes of the finished runs alone decide what the
live query shows (`LiveQuery.goodRows`, `LiveQuery.failure?`) and what a listener hears
(`LiveQuery.changes`): that is `Moment.Reached.hears_changes`.
-/

namespace Viewbase

open Relation

/-! ## Outcomes in turn -/

namespace LiveQuery

/-- The rows are those of the answer. -/
def sameAs (rows : Option Answer) (answer : Answer) : Bool :=
  rows.any fun shown => shown.sameRows answer

/-- The good rows after some outcomes.  A success with other rows replaces them. -/
def goodRows (rows : Option Answer) : List Outcome → Option Answer
  | [] => rows
  | .ok answer :: later => goodRows (if sameAs rows answer then rows else some answer) later
  | .error _ :: later => goodRows rows later

/-- The changes that some outcomes are worth: the new rows of a success, unless they are the same,
and the good rows with the error of a failure. -/
def changes (rows : Option Answer) : List Outcome → List Refreshed
  | [] => []
  | .ok answer :: later =>
    if sameAs rows answer then changes rows later
    else ⟨some answer, none⟩ :: changes (some answer) later
  | .error error :: later => ⟨rows, some error⟩ :: changes rows later

/-- The error of a run that failed. -/
def failure? : Outcome → Option QueryError
  | .ok _ => none
  | .error error => some error

theorem goodRows_append (rows : Option Answer) (earlier later : List Outcome) :
    goodRows rows (earlier ++ later) = goodRows (goodRows rows earlier) later := by
  induction earlier generalizing rows with
  | nil => rfl
  | cons outcome earlier ih => cases outcome <;> exact ih _

theorem changes_append (rows : Option Answer) (earlier later : List Outcome) :
    changes rows (earlier ++ later) =
      changes rows earlier ++ changes (goodRows rows earlier) later := by
  induction earlier generalizing rows with
  | nil => rfl
  | cons outcome earlier ih =>
    cases outcome with
    | ok answer =>
      simp only [List.cons_append, changes, goodRows]
      split
      · exact ih rows
      · rw [ih, List.cons_append]
    | error error => simp only [List.cons_append, changes, goodRows, ih]

/-- Failures leave the good rows as they are. -/
theorem goodRows_of_failures (rows : Option Answer) {outcomes : List Outcome}
    (h : ∀ outcome ∈ outcomes, failure? outcome ≠ none) : goodRows rows outcomes = rows := by
  induction outcomes with
  | nil => rfl
  | cons outcome outcomes ih =>
    cases outcome with
    | ok answer => exact absurd rfl (h _ List.mem_cons_self)
    | error error => exact ih fun outcome hmem => h outcome (List.mem_cons_of_mem _ hmem)

/-- The good rows are those of the last success. -/
theorem goodRows_last (rows : Option Answer) {earlier later : List Outcome} {answer : Answer}
    (h : ∀ outcome ∈ later, failure? outcome ≠ none) :
    ∃ shown, goodRows rows (earlier ++ .ok answer :: later) = some shown ∧
      (shown = answer ∨ shown.sameRows answer) := by
  rw [goodRows_append, goodRows, goodRows_of_failures _ h]
  split
  next hsame =>
    obtain ⟨shown, hshown, hrows⟩ := (Option.any_eq_true _ _).1 hsame
    exact ⟨shown, hshown, .inr hrows⟩
  next => exact ⟨answer, rfl, .inl rfl⟩

/-- Good rows are never given up. -/
theorem isSome_goodRows {rows : Option Answer} (h : rows.isSome) (outcomes : List Outcome) :
    (goodRows rows outcomes).isSome := by
  induction outcomes generalizing rows with
  | nil => exact h
  | cons outcome outcomes ih =>
    cases outcome with
    | ok answer =>
      refine ih ?_
      split
      · exact h
      · rfl
    | error error => exact ih h

/-- One outcome replaces the good rows only if it is a success with other rows. -/
theorem goodRows_of_ne {rows : Option Answer} {outcome : Outcome}
    (h : goodRows rows [outcome] ≠ rows) : ∃ answer, outcome = .ok answer ∧
      sameAs rows answer = false ∧ goodRows rows [outcome] = some answer := by
  cases outcome with
  | ok answer =>
    rw [goodRows] at h ⊢
    cases hsame : sameAs rows answer with
    | true =>
      rw [if_pos hsame] at h
      exact absurd rfl h
    | false => exact ⟨answer, rfl, hsame, rfl⟩
  | error error => exact absurd rfl h

variable {live : LiveQuery} {outcome : Outcome}

theorem hasRows_eq (live : LiveQuery) (answer : Answer) :
    live.hasRows answer = sameAs live.rows answer := by
  rw [hasRows]
  split
  next hrows => rw [hrows, sameAs, Option.any_some]
  next hrows => rw [hrows, sameAs, Option.any_none]

/-- What a live query makes of an outcome that was not discarded. -/
theorem absorb_judge (live : LiveQuery) (hkept : outcome ≠ .error .cancelled) :
    (live.absorb (live.judge outcome)).rows = goodRows live.rows [outcome] ∧
      (live.absorb (live.judge outcome)).lastError = failure? outcome ∧
      (live.absorb (live.judge outcome)).listeners = live.listeners ∧
      (live.announcement? (live.judge outcome)).toList = changes live.rows [outcome] := by
  cases outcome with
  | ok answer =>
    simp only [judge, hasRows_eq, goodRows, changes]
    split <;> exact ⟨rfl, rfl, rfl, rfl⟩
  | error error =>
    cases error with
    | cancelled => exact absurd rfl hkept
    | _ => exact ⟨rfl, rfl, rfl, rfl⟩

end LiveQuery

/-- The run that a refresh waits for. -/
def RefreshStage.run? : RefreshStage → Option Nat
  | .awaiting run => some run
  | _ => none

/-- A listener is added to a live query, or removed from it. -/
def Deed.Relists {σ : Type} (id listener : Nat) (deed : Deed σ) : Prop :=
  deed = .act (.addListener id listener) ∨ deed = .act (.removeListener id listener)

namespace Moment

variable {σ : Type} {m m' m'' : Moment σ} {id listener task run : Nat} {live : LiveQuery}
  {outcome : Outcome} {deed : Deed σ} {steps : List (Moment σ × Deed σ)}

/-! ## Finished runs -/

/-- The run of a live query that is finished in a deed, with its outcome: it is taken in in the
epoch of its refresh, and was not discarded by a stop. -/
def finished? (m : Moment σ) (id : Nat) : Deed σ → Option (Nat × Outcome)
  | .takeIn task => do
    let refresh ← m.db.refreshes[task]?
    let run ← refresh.stage.run?
    let submitted ← m.db.runs[run]?
    let live ← m.db.lives[id]?
    if refresh.live = id ∧ live.isCurrent refresh.epoch then some (run, submitted.answer) else none
  | _ => none

/-- The runs that were finished in the course of those steps, in order. -/
def finishedRuns (id : Nat) (steps : List (Moment σ × Deed σ)) : List (Nat × Outcome) :=
  steps.filterMap fun step => step.1.finished? id step.2

/-- The outcomes of the runs that were finished in the course of those steps, in order. -/
def outcomes (id : Nat) (steps : List (Moment σ × Deed σ)) : List Outcome :=
  (finishedRuns id steps).map Prod.snd

/-- What a listener of a live query hears in the course of a deed. -/
def hears (m : Moment σ) (id listener : Nat) (deed : Deed σ) : List Refreshed :=
  (m.calls id deed).filterMap fun call => if call.1 = listener then some call.2 else none

/-- What a listener of a live query hears in the course of those steps. -/
def changesHeard (id listener : Nat) (steps : List (Moment σ × Deed σ)) : List Refreshed :=
  steps.flatMap fun step => step.1.hears id listener step.2

theorem finished?_takeIn {refresh : Refresh} {submitted : Run}
    (htask : m.db.refreshes[task]? = some refresh) (hstage : refresh.stage = .awaiting run)
    (hrun : m.db.runs[run]? = some submitted) (hlive : m.db.lives[id]? = some live) :
    m.finished? id (.takeIn task) =
      if refresh.live = id ∧ live.isCurrent refresh.epoch then some (run, submitted.answer)
      else none := by
  simp only [finished?, htask, hstage, RefreshStage.run?, hrun, hlive, Option.bind_eq_bind,
    Option.bind_some]

theorem finishedRuns_snoc (id : Nat) (steps : List (Moment σ × Deed σ)) (m : Moment σ)
    (deed : Deed σ) :
    finishedRuns id (steps ++ [(m, deed)]) =
      finishedRuns id steps ++ (m.finished? id deed).toList := by
  rw [finishedRuns, finishedRuns, List.filterMap_append]
  cases h : m.finished? id deed <;> simp [h]

theorem outcomes_snoc (id : Nat) (steps : List (Moment σ × Deed σ)) (m : Moment σ)
    (deed : Deed σ) :
    outcomes id (steps ++ [(m, deed)]) =
      outcomes id steps ++ (m.finished? id deed).toList.map Prod.snd := by
  rw [outcomes, outcomes, finishedRuns_snoc, List.map_append]

theorem changesHeard_snoc (id listener : Nat) (steps : List (Moment σ × Deed σ)) (m : Moment σ)
    (deed : Deed σ) :
    changesHeard id listener (steps ++ [(m, deed)]) =
      changesHeard id listener steps ++ m.hears id listener deed := by
  rw [changesHeard, changesHeard, List.flatMap_append, List.flatMap_singleton]

/-- How a run is finished. -/
structure Finishes (m : Moment σ) (id task run : Nat) (refresh : Refresh) (submitted : Run)
    (live : LiveQuery) : Prop where
  ready : .refresh task ∈ m.db.ready
  known : m.db.refreshes[task]? = some refresh
  awaits : refresh.stage = .awaiting run
  submitted : m.db.runs[run]? = some submitted
  lives : m.db.lives[id]? = some live
  own : refresh.live = id
  current : live.isCurrent refresh.epoch = true

theorem Does.finishes (h : m.Does deed m') (hfinished : m.finished? id deed = some (run, outcome)) :
    ∃ task refresh submitted live, deed = .takeIn task ∧ outcome = submitted.answer ∧
      m.Finishes id task run refresh submitted live := by
  cases h with
  | @takeIn _ task run' refresh submitted hready htask hstage hrun =>
    cases hlive : m.db.lives[id]? with
    | none => simp [finished?, hlive] at hfinished
    | some live =>
      rw [finished?_takeIn htask hstage hrun hlive] at hfinished
      obtain ⟨⟨hof, hcurrent⟩, heq⟩ := Option.ite_none_right_eq_some.1 hfinished
      cases heq
      exact ⟨task, refresh, submitted, live, rfl, rfl, hready, htask, hstage, hrun, hlive, hof,
        hcurrent⟩
  | _ => cases hfinished

/-- A finished run is over, and it was submitted for the refresh that takes it in. -/
theorem Reached.over_of_finishes (h : m.Reached) {refresh : Refresh} {submitted : Run}
    (hfinishes : m.Finishes id task run refresh submitted live) :
    submitted.recipient = .refresh task ∧ submitted.isOver = true ∧
      task ∉ m.telling := by
  obtain ⟨hplaced, -⟩ := h.attended
  have hat := hplaced.refreshes task
  rw [show (Stance.mk m none).db.refreshes[task]? = some refresh from hfinishes.known,
    Option.map_some, hfinishes.awaits] at hat
  obtain ⟨-, submitted', hsubmitted, hrecipient, hqueued⟩ := hat
  obtain rfl : submitted' = submitted := Option.some.inj (hsubmitted.symm.trans hfinishes.submitted)
  have hcount : 0 < m.db.ready.count (.refresh task) := List.count_pos_iff.2 hfinishes.ready
  rw [Stance.queued_none rfl] at hqueued
  by_cases hboth : submitted'.isOver = true ∧ task ∉ m.telling
  · exact ⟨hrecipient, hboth⟩
  · rw [if_neg hboth] at hqueued
    exact absurd hqueued (Nat.ne_of_gt hcount)

/-- The outcome of a finished run is that of its scan: it was not cancelled. -/
theorem Reached.ne_cancelled_of_finishes (h : m.Reached) {refresh : Refresh} {submitted : Run}
    (hfinishes : m.Finishes id task run refresh submitted live) :
    submitted.answer ≠ .error .cancelled := by
  obtain ⟨-, hover, htold⟩ := h.over_of_finishes hfinishes
  obtain ⟨-, hattended, -⟩ := h.attended
  obtain ⟨query, -, hattends⟩ := hattended.attends id live hfinishes.lives
  have hgoing : Stance.Going ⟨m, none⟩ task refresh :=
    ⟨hfinishes.known, by simp [hfinishes.awaits], htold⟩
  obtain ⟨-, -, -, -, hknown⟩ := hattends.of_current hgoing hfinishes.own hfinishes.current
  rw [hfinishes.awaits] at hknown
  obtain ⟨-, submitted', hsubmitted, -, -, hcourse⟩ := hknown
  obtain rfl : submitted' = submitted := Option.some.inj (hsubmitted.symm.trans hfinishes.submitted)
  have hended : submitted'.stage = .ended := by
    cases hstage : submitted'.stage <;> rw [Run.isOver, hstage] at hover
    all_goals cases hover
  rw [Run.OnCourse, hended] at hcourse
  obtain ⟨-, outcome, houtcome, hgood, -⟩ := hcourse
  rwa [Run.answer, houtcome, Option.getD_some]

theorem Trace.of_mem (h : Trace m steps m') {before : Moment σ} (hmem : (before, deed) ∈ steps) :
    ∃ after, ReflTransGen Step m before ∧ before.Does deed after ∧ ReflTransGen Step after m' := by
  induction h with
  | nil => cases hmem
  | snoc htrace hdoes ih =>
    rcases List.mem_append.1 hmem with hearlier | hlast
    · obtain ⟨after, hbefore, hthen, hlater⟩ := ih hearlier
      exact ⟨after, hbefore, hthen, hlater.tail hdoes.step⟩
    · cases List.mem_singleton.1 hlast
      exact ⟨_, htrace.forget, hdoes, .refl⟩

/-- A run is finished once. -/
theorem Reached.not_finished_again (h : m.Reached) (hdoes : m.Does deed m')
    (hfinished : m.finished? id deed = some (run, outcome)) (hsteps : ReflTransGen Step m' m'')
    {later : Moment σ} {deed' : Deed σ} (hdoes' : m''.Does deed' later) (outcome' : Outcome) :
    m''.finished? id deed' ≠ some (run, outcome') := by
  intro hagain
  obtain ⟨task, refresh, submitted, live, rfl, -, hfinishes⟩ := hdoes.finishes hfinished
  obtain ⟨task', refresh', submitted', live', rfl, -, hfinishes'⟩ := hdoes'.finishes hagain
  have hm' := h.step hdoes.step
  have hm'' := hm'.steps hsteps
  -- Both refreshes are the one that the run was submitted for.
  obtain ⟨hfor, -⟩ := h.over_of_finishes hfinishes
  obtain ⟨hfor', -⟩ := hm''.over_of_finishes hfinishes'
  have honward := h.onward (.head hdoes.step hsteps)
  obtain ⟨then', hthen, hgoes⟩ := honward.runs run submitted hfinishes.submitted
  obtain rfl : then' = submitted' := Option.some.inj (hthen.symm.trans hfinishes'.submitted)
  have hsame := (Run.recipient_of_goes hgoes).trans hfor
  obtain rfl : task = task' := Recipient.refresh.inj (hsame.symm.trans hfor')
  obtain ⟨old, hold, -⟩ :=
    (h.onward (.single hdoes.step)).refreshes task refresh hfinishes.known
  obtain ⟨again, hgoing⟩ := hm''.going_of_takeIn hdoes'
  exact not_flies_takeIn hdoes (hm'.flies_before hsteps hold ⟨again, hgoing, rfl, rfl⟩)

theorem Reached.finished_once (h : m.Reached) (htrace : Trace m steps m') :
    ((finishedRuns id steps).map Prod.fst).Nodup := by
  induction htrace with
  | nil => exact List.nodup_nil
  | @snoc before after steps deed htrace hdoes ih =>
    rw [finishedRuns_snoc]
    cases hfinished : before.finished? id deed with
    | none => rwa [Option.toList_none, List.append_nil]
    | some finished =>
      obtain ⟨run, outcome⟩ := finished
      rw [Option.toList_some, List.map_append, List.nodup_append]
      refine ⟨ih, by simp, fun first hearlier last hlast hsame => ?_⟩
      obtain rfl : last = run := List.mem_singleton.1 hlast
      subst hsame
      obtain ⟨⟨_, outcome'⟩, hmem, rfl⟩ := List.mem_map.1 hearlier
      obtain ⟨⟨then', deed'⟩, hstep, hfirst⟩ := List.mem_filterMap.1 hmem
      obtain ⟨next, hsteps, hdoes', hlater⟩ := htrace.of_mem hstep
      exact (h.steps hsteps).not_finished_again hdoes' hfirst hlater hdoes outcome hfinished

/-! ## What a deed changes -/

/-- After a deed the live query shows what it showed, and to a listener as often, unless that is
added or removed. -/
def StillShows (db : Database σ) (id listener : Nat) (deed : Deed σ) (live : LiveQuery) : Prop :=
  ∃ now, db.lives[id]? = some now ∧ now.rows = live.rows ∧ now.lastError = live.lastError ∧
    (¬deed.Relists id listener → now.listeners.count listener = live.listeners.count listener)

theorem stillShows {db db' : Database σ} (h : db.Shows db') (hlive : db.lives[id]? = some live)
    (listener : Nat) (deed : Deed σ) : StillShows db' id listener deed live := by
  obtain ⟨now, hnow, hrows, herror, hlisteners⟩ := h id live hlive
  exact ⟨now, hnow, hrows, herror, fun _ => by rw [hlisteners]⟩

theorem stillShows_perform {db : Database σ} (hlive : db.lives[id]? = some live) {action : Action}
    (hpermitted : db.Permits action) (htells : db.TellsNobody action) (listener : Nat) :
    StillShows (db.perform (.silent σ) action) id listener (.act action) live := by
  cases action with
  | addListener other callback =>
    obtain ⟨now, hnow, hrows, herror, hlisteners⟩ :=
      Database.exists_listen hlive other fun listeners => listeners ++ [callback]
    refine ⟨now, hnow, hrows, herror, fun hstays => ?_⟩
    rw [hlisteners]
    split
    next hother =>
      have hne : callback ≠ listener := fun heq => hstays (.inl (by rw [hother, heq]))
      rw [List.count_append, List.count_singleton, beq_false_of_ne hne, if_neg nofun, Nat.add_zero]
    next => rfl
  | removeListener other callback =>
    simp only [Database.perform, Database.removeListener]
    split
    · exact ⟨live, hlive, rfl, rfl, fun _ => rfl⟩
    · obtain ⟨now, hnow, hrows, herror, hlisteners⟩ :=
        Database.exists_listen hlive other fun listeners => listeners.filter (· != callback)
      refine ⟨now, hnow, hrows, herror, fun hstays => ?_⟩
      rw [hlisteners]
      split
      next hother =>
        have hne : listener ≠ callback := fun heq => hstays (.inr (by rw [hother, heq]))
        exact List.count_filter (bne_iff_ne.2 hne)
      next => rfl
  | _ =>
    exact stillShows (Database.shows_perform hpermitted htells (by simp) (by simp)) hlive listener _

/-- An outcome that is taken in and finishes no run of a live query is nothing to it. -/
theorem stillShows_takeIn (hdoes : m.Does (.takeIn task) m') (hlive : m.db.lives[id]? = some live)
    (hnone : m.finished? id (.takeIn task) = none) (listener : Nat) :
    m.calls id (.takeIn task) = [] ∧
      StillShows m'.db id listener (.takeIn task) live := by
  cases hdoes with
  | @takeIn _ _ run refresh submitted hready htask hstage hrun =>
    rw [finished?_takeIn htask hstage hrun hlive] at hnone
    have hlapsed : refresh.live = id → live.isCurrent refresh.epoch = false := by
      intro hof
      by_contra hcurrent
      rw [if_pos ⟨hof, by simpa using hcurrent⟩] at hnone
      cases hnone
    obtain ⟨taken, htaken⟩ : ∃ taken, taken =
      { m.db with ready := m.db.ready.erase (.refresh task) } := ⟨_, rfl⟩
    have hlive' : taken.lives[id]? = some live := htaken ▸ hlive
    simp only [calls, taken?, htask, hstage, hrun, Option.map_some, ← htaken]
    by_cases hof : refresh.live = id
    · rw [if_pos hof, hof, Database.finishLive_of_lapsed hlive' (hlapsed hof)]
      exact ⟨Database.tellings_of_lapsed hlive (hlapsed hof) _, live, hlive', rfl, rfl,
        fun _ => rfl⟩
    · rw [if_neg hof]
      refine ⟨rfl, live, ?_, rfl, rfl, fun _ => rfl⟩
      rw [Database.getElem?_finishLive_ne (Ne.symm hof), hlive']

/-- A deed that finishes no run of a live query leaves it what it shows, and calls no listener. -/
theorem stillShows_does (hdoes : m.Does deed m') (hlive : m.db.lives[id]? = some live)
    (hnone : m.finished? id deed = none) (listener : Nat) :
    m.calls id deed = [] ∧ StillShows m'.db id listener deed live := by
  cases hdoes with
  | act action hpermitted htells =>
    exact ⟨rfl, stillShows_perform hlive hpermitted htells listener⟩
  | write hedit hwrite => exact ⟨rfl, stillShows (Database.shows_of_lives rfl) hlive listener _⟩
  | tell observer change =>
    exact ⟨rfl, stillShows (Database.shows_notifyOne change observer _) hlive listener _⟩
  | takeIn hready htask hstage hrun =>
    exact stillShows_takeIn (.takeIn hready htask hstage hrun) hlive hnone listener
  | @retire _ task refresh htelling htask =>
    have hreaped := Database.aside_reap refresh.live
      (m.db.updateRefresh task fun refresh => { refresh with stage := .over })
    exact ⟨rfl, stillShows (Database.shows_of_lives hreaped.lives) hlive listener _⟩
  | touch client => exact ⟨rfl, stillShows (Database.shows_of_lives rfl) hlive listener _⟩

/-- A finished run is told to every listener if it is worth a change, and to nobody otherwise. -/
theorem Reached.absorbs_does (h : m.Reached) (hdoes : m.Does deed m')
    (hlive : m.db.lives[id]? = some live) (hfinished : m.finished? id deed = some (run, outcome)) :
    outcome ≠ .error .cancelled ∧
      (m.calls id deed = (LiveQuery.changes live.rows [outcome]).flatMap fun change =>
        live.listeners.map fun listener => (listener, change)) ∧
      ∃ now, m'.db.lives[id]? = some now ∧ now.rows = LiveQuery.goodRows live.rows [outcome] ∧
        now.lastError = LiveQuery.failure? outcome ∧ now.listeners = live.listeners := by
  obtain ⟨task, refresh, submitted, live', rfl, rfl, hfinishes⟩ := hdoes.finishes hfinished
  obtain rfl : live' = live := Option.some.inj (hfinishes.lives.symm.trans hlive)
  have hkept := h.ne_cancelled_of_finishes hfinishes
  obtain ⟨hrows, herror, hlisteners, hannounced⟩ := live'.absorb_judge hkept
  refine ⟨hkept, ?_, ?_⟩
  · simp only [calls, taken?, hfinishes.known, hfinishes.awaits, hfinishes.submitted,
      Option.map_some, if_pos hfinishes.own, Database.tellings, hlive, hfinishes.current,
      Bool.not_true, Bool.false_eq_true, if_false, ← hannounced]
    cases live'.announcement? (live'.judge submitted.answer) <;> simp
  · cases hdoes with
    | @takeIn _ _ run' refresh' submitted' hready htask hstage hrun =>
      obtain rfl : refresh' = refresh := Option.some.inj (htask.symm.trans hfinishes.known)
      obtain rfl : run' = run := RefreshStage.awaiting.inj (hstage.symm.trans hfinishes.awaits)
      obtain rfl : submitted' = submitted := Option.some.inj (hrun.symm.trans hfinishes.submitted)
      obtain ⟨taken, htaken⟩ : ∃ taken, taken =
        { m.db with ready := m.db.ready.erase (.refresh task) } := ⟨_, rfl⟩
      have hlive' : taken.lives[id]? = some live' := htaken ▸ hlive
      obtain ⟨phase, hlives⟩ :=
        Database.lives_finishLive hlive' hfinishes.current submitted'.answer
      refine ⟨{ live'.absorb (live'.judge submitted'.answer) with
        running := none, phase := phase }, ?_, hrows, herror, hlisteners⟩
      simp only [← htaken, hfinishes.own, hlives, List.getElem?_modify_eq, hlive',
        Option.map_eq_map, Option.map_some]

/-! ## What a listener hears -/

/-- A listener hears a change as often as it is registered. -/
theorem told_eq (listener : Nat) (listeners : List Nat) (change : Refreshed) :
    ((listeners.map fun other => (other, change)).filterMap fun call =>
      if call.1 = listener then some call.2 else none) =
        List.replicate (listeners.count listener) change := by
  induction listeners with
  | nil => rfl
  | cons other listeners ih =>
    by_cases hother : other = listener
    · simp [hother, ih, List.replicate_succ]
    · simp [hother, ih]

/-- What a live query shows after those steps, and what its listener has heard in their course. -/
structure Informed (first : LiveQuery) (id listener : Nat) (steps : List (Moment σ × Deed σ))
    (now : LiveQuery) : Prop where
  rows : now.rows = LiveQuery.goodRows first.rows (outcomes id steps)
  lastError : now.lastError =
    (outcomes id steps).getLast?.elim first.lastError LiveQuery.failure?
  registered : now.listeners.count listener = 1
  heard : changesHeard id listener steps = LiveQuery.changes first.rows (outcomes id steps)
  delivered : ∀ outcome ∈ outcomes id steps, outcome ≠ .error .cancelled

theorem Informed.does {first : LiveQuery} (h : Informed first id listener steps live)
    (hreached : m.Reached) (hlive : m.db.lives[id]? = some live) (hdoes : m.Does deed m')
    (hstays : ¬deed.Relists id listener) :
    ∃ now, m'.db.lives[id]? = some now ∧ Informed first id listener (steps ++ [(m, deed)]) now := by
  cases hfinished : m.finished? id deed with
  | none =>
    obtain ⟨hcalls, now, hnow, hrows, herror, hcount⟩ :=
      stillShows_does hdoes hlive hfinished listener
    have houtcomes : outcomes id (steps ++ [(m, deed)]) = outcomes id steps := by
      rw [outcomes_snoc, hfinished, Option.toList_none, List.map_nil, List.append_nil]
    have hheard : changesHeard id listener (steps ++ [(m, deed)]) =
        changesHeard id listener steps := by
      rw [changesHeard_snoc, hears, hcalls, List.filterMap_nil, List.append_nil]
    refine ⟨now, hnow, ⟨?_, ?_, (hcount hstays).trans h.registered, ?_, ?_⟩⟩
    · rw [hrows, houtcomes, h.rows]
    · rw [herror, houtcomes, h.lastError]
    · rw [hheard, houtcomes, h.heard]
    · rw [houtcomes]
      exact h.delivered
  | some finished =>
    obtain ⟨run, outcome⟩ := finished
    obtain ⟨hkept, hcalls, now, hnow, hrows, herror, hlisteners⟩ :=
      hreached.absorbs_does hdoes hlive hfinished
    have houtcomes : outcomes id (steps ++ [(m, deed)]) = outcomes id steps ++ [outcome] := by
      rw [outcomes_snoc, hfinished, Option.toList_some, List.map_singleton]
    have hheard : m.hears id listener deed = LiveQuery.changes live.rows [outcome] := by
      rw [hears, hcalls, List.filterMap_flatMap]
      simp only [told_eq, h.registered, List.replicate_one, List.flatMap_singleton']
    refine ⟨now, hnow, ⟨?_, ?_, ?_, ?_, ?_⟩⟩
    · rw [hrows, houtcomes, LiveQuery.goodRows_append, h.rows]
    · rw [herror, houtcomes, List.getLast?_concat, Option.elim_some]
    · rw [hlisteners, h.registered]
    · rw [changesHeard_snoc, houtcomes, LiveQuery.changes_append, h.heard, hheard, h.rows]
    · rw [houtcomes]
      intro other hmem
      rcases List.mem_append.1 hmem with hearlier | hlast
      · exact h.delivered other hearlier
      · exact List.mem_singleton.1 hlast ▸ hkept

theorem Reached.informed {first : LiveQuery} (h : m.Reached) (hlive : m.db.lives[id]? = some first)
    (hregistered : first.listeners.count listener = 1) (htrace : Trace m steps m')
    (hstays : ∀ step ∈ steps, ¬step.2.Relists id listener) :
    ∃ now, m'.db.lives[id]? = some now ∧ Informed first id listener steps now := by
  induction htrace with
  | nil => exact ⟨first, hlive, ⟨rfl, rfl, hregistered, rfl, nofun⟩⟩
  | @snoc before after steps deed htrace hdoes ih =>
    obtain ⟨live, hlive', hinformed⟩ :=
      ih fun step hstep => hstays step (List.mem_append_left _ hstep)
    exact hinformed.does (h.steps htrace.forget) hlive' hdoes
      (hstays _ (List.mem_append_right _ List.mem_cons_self))

/-- The rows that a live query shows change only when a run is finished that found others, and from
then on there are rows. -/
theorem Reached.rows_change (h : m.Reached) (hlive : m.db.lives[id]? = some live)
    (hdoes : m.Does deed m') : ∃ now, m'.db.lives[id]? = some now ∧
      (live.rows.isSome → now.rows.isSome) ∧
      (now.rows ≠ live.rows → ∃ run answer, m.finished? id deed = some (run, .ok answer) ∧
        LiveQuery.sameAs live.rows answer = false ∧ now.rows = some answer) := by
  cases hfinished : m.finished? id deed with
  | none =>
    obtain ⟨-, now, hnow, hrows, -⟩ := stillShows_does hdoes hlive hfinished 0
    exact ⟨now, hnow, fun hsome => hrows ▸ hsome, fun hne => absurd hrows hne⟩
  | some finished =>
    obtain ⟨run, outcome⟩ := finished
    obtain ⟨-, -, now, hnow, hrows, -⟩ := h.absorbs_does hdoes hlive hfinished
    refine ⟨now, hnow, fun hsome => hrows ▸ LiveQuery.isSome_goodRows hsome _, fun hne => ?_⟩
    obtain ⟨answer, rfl, hother, hnew⟩ := LiveQuery.goodRows_of_ne (hrows ▸ hne)
    exact ⟨run, answer, rfl, hother, hrows.trans hnew⟩

/-- A listener that was registered before the first start and stays hears exactly what the finished
runs are worth: the new rows of each success with other rows, and the good rows with the error of
each failure, in order and once for each run; and no such run was cancelled.  The live query shows
the rows of the last success, and an error exactly if the last of these runs failed.  Its rows
change only with a success that found others, and never become absent again.  What is heard are the
calls that are made in the course of each step, whatever the listeners do. -/
theorem Reached.hears_changes (h : m.Reached) (hlive : m.db.lives[id]? = some live)
    (hfirst : live.epoch = 0) (hnew : listener ∉ live.listeners)
    (hadd : m.Does (.act (.addListener id listener)) m') (htrace : Trace m' steps m'')
    (hstays : ∀ step ∈ steps, ¬step.2.Relists id listener) :
    ∃ now, m''.db.lives[id]? = some now ∧
      changesHeard id listener steps = LiveQuery.changes none (outcomes id steps) ∧
      ((finishedRuns id steps).map Prod.fst).Nodup ∧
      (∀ outcome ∈ outcomes id steps, outcome ≠ .error .cancelled) ∧
      now.rows = LiveQuery.goodRows none (outcomes id steps) ∧
      (∀ earlier answer later, outcomes id steps = earlier ++ .ok answer :: later →
        (∀ outcome ∈ later, LiveQuery.failure? outcome ≠ none) →
          ∃ shown, now.rows = some shown ∧ (shown = answer ∨ shown.sameRows answer)) ∧
      now.lastError = (outcomes id steps).getLast?.bind LiveQuery.failure? ∧
      (∀ before deed, (before, deed) ∈ steps →
        ∃ after, before.Does deed after ∧ before.CallsMade deed after) ∧
      ∀ deed later, m''.Does deed later → ∃ then', later.db.lives[id]? = some then' ∧
        (now.rows.isSome → then'.rows.isSome) ∧
        (then'.rows ≠ now.rows → ∃ run answer, m''.finished? id deed = some (run, .ok answer) ∧
          LiveQuery.sameAs now.rows answer = false ∧ then'.rows = some answer) := by
  have hregistered : m'.Reached := h.step hadd.step
  obtain ⟨hstopped, hnone, hfine⟩ := h.blankAtFirst id live hlive hfirst
  have hlive' : m'.db.lives[id]? =
      some { live with listeners := live.listeners ++ [listener] } := by
    cases hadd with
    | act action hpermitted htells =>
      simp [Database.perform, Database.addListener, Database.updateLive, hlive]
  have hcount : (live.listeners ++ [listener]).count listener = 1 := by
    rw [List.count_append, List.count_eq_zero_of_not_mem hnew, List.count_singleton_self]
  obtain ⟨now, hnow, hinformed⟩ := hregistered.informed hlive' hcount htrace hstays
  have hrows : now.rows = LiveQuery.goodRows none (outcomes id steps) := hnone ▸ hinformed.rows
  refine ⟨now, hnow, hnone ▸ hinformed.heard, hregistered.finished_once htrace,
    hinformed.delivered, hrows, fun earlier answer later heq hlater => ?_, ?_,
    fun before deed hmem => ?_,
    fun deed later hdoes => (hregistered.steps htrace.forget).rows_change hnow hdoes⟩
  · rw [hrows, heq]
    exact LiveQuery.goodRows_last none hlater
  · rw [hinformed.lastError]
    cases (outcomes id steps).getLast? with
    | none => exact hfine
    | some outcome => rfl
  · obtain ⟨after, -, hdoes, -⟩ := htrace.of_mem hmem
    exact ⟨after, hdoes, hdoes.callsMade⟩

/-- A first run, one that finds the same rows after a stop and a start, and one that fails: the
first and the last are heard. -/
theorem Reached.hears_success_and_failure : ∃ (m m' m'' : Moment Unit) (live : LiveQuery)
    (steps : List (Moment Unit × Deed Unit)) (shown : Answer) (error : QueryError), m.Reached ∧
      m.db.lives[0]? = some live ∧ live.epoch = 0 ∧ 7 ∉ live.listeners ∧
      m.Does (.act (.addListener 0 7)) m' ∧ Trace m' steps m'' ∧
      (∀ step ∈ steps, ¬step.2.Relists 0 7) ∧ (outcomes 0 steps).length = 3 ∧
      changesHeard 0 7 steps = [⟨some shown, none⟩, ⟨some shown, some error⟩] := by
  have hmade := @create Unit {} .info 0 () _ rfl
  have hdefined := hmade.step (.act (.defineView "v" Store.bodyById none) trivial trivial)
  have hqueried := hdefined.step (.act (.queryIndex (.named ⟨1⟩ "v" false)) trivial trivial)
  have hlive := hqueried.step (.act (.makeLive 0) trivial trivial)
  obtain ⟨hadd, hadded⟩ := hlive.act (.addListener 0 7) trivial trivial
  obtain ⟨hstart, hstarted⟩ := hadded.act (.startLive 0) (by rintro live ⟨⟩; rfl) trivial
  obtain ⟨hsubmit, hsubmitted⟩ :=
    hstarted.act (.go (.refresh 0)) trivial (by rintro refresh ⟨⟩ run ⟨⟩)
  obtain ⟨hrun, hrunning⟩ := hsubmitted.act (.go (.run 0)) trivial trivial
  obtain ⟨hscan, hscanned⟩ := hrunning.act (.scanRun 0) trivial trivial
  obtain ⟨hend, hended⟩ := hscanned.act (.go (.run 0)) trivial trivial
  obtain ⟨htake, htaken⟩ := hended.does (@Does.takeIn Unit _ 0 0 _ _ (by decide) rfl rfl rfl)
  obtain ⟨hstop, hstopped⟩ := htaken.act (.stopLive 0) trivial trivial
  obtain ⟨hstart', hstarted'⟩ := hstopped.act (.startLive 0) (by rintro live ⟨⟩; rfl) trivial
  obtain ⟨hsubmit', hsubmitted'⟩ :=
    hstarted'.act (.go (.refresh 1)) trivial (by rintro refresh ⟨⟩ run ⟨⟩)
  obtain ⟨hrun', hrunning'⟩ := hsubmitted'.act (.go (.run 1)) trivial trivial
  obtain ⟨hscan', hscanned'⟩ := hrunning'.act (.scanRun 1) trivial trivial
  obtain ⟨hend', hended'⟩ := hscanned'.act (.go (.run 1)) trivial trivial
  obtain ⟨htake', htaken'⟩ := hended'.does (@Does.takeIn Unit _ 1 1 _ _ (by decide) rfl rfl rfl)
  -- The view can make nothing of a null.
  obtain ⟨hstop', hstopped'⟩ := htaken'.act (.stopLive 0) trivial trivial
  obtain ⟨hwrite, hwritten⟩ := hstopped'.does
    (@Does.write Unit _ (.put "a" .null) "a" (Store.putEdit "a" .null) _ _ rfl rfl)
  obtain ⟨hstart'', hstarted''⟩ := hwritten.act (.startLive 0) (by rintro live ⟨⟩; rfl) trivial
  obtain ⟨hsubmit'', hsubmitted''⟩ :=
    hstarted''.act (.go (.refresh 2)) trivial (by rintro refresh ⟨⟩ run ⟨⟩)
  obtain ⟨hrun'', hrunning''⟩ := hsubmitted''.act (.go (.run 2)) trivial trivial
  obtain ⟨hscan'', hscanned''⟩ := hrunning''.act (.scanRun 2) trivial trivial
  obtain ⟨hend'', hended''⟩ := hscanned''.act (.go (.run 2)) trivial trivial
  obtain ⟨htake'', -⟩ := hended''.does (@Does.takeIn Unit _ 2 2 _ _ (by decide) rfl rfl rfl)
  have htrace := ((((((((((((((((((((Trace.nil.snoc hstart).snoc hsubmit).snoc hrun).snoc
    hscan).snoc hend).snoc htake).snoc hstop).snoc hstart').snoc hsubmit').snoc hrun').snoc
    hscan').snoc hend').snoc htake').snoc hstop').snoc hwrite).snoc hstart'').snoc
    hsubmit'').snoc hrun'').snoc hscan'').snoc hend'').snoc htake''
  obtain ⟨now, hnow, hheard, -⟩ :=
    hlive.hears_changes rfl rfl List.not_mem_nil hadd htrace (by simp [Deed.Relists])
  exact ⟨_, _, _, _, _, _, _, hlive, rfl, rfl, List.not_mem_nil, hadd, htrace,
    by simp [Deed.Relists], rfl, hheard.trans rfl⟩

end Moment

end Viewbase
