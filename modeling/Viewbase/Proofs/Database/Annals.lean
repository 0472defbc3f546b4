import Viewbase.Proofs.Database.Deliveries
import Viewbase.Proofs.Database.Session

/-!
What queries have seen last, told by what was delivered for them.

Every step of a session makes a query, delivers an outcome for one, or does neither
(`Session.Occurs`).  A query has seen last the generation of the good answer that was delivered for
it last, and before the first what it has started from: nothing, or what its source had seen when it
was copied.  An error of the store is delivered in one layer that tells this generation.

Main statement: both hold of all steps that can be taken
(`Session.Reached.lastGeneration_and_failures`).
-/

namespace Viewbase

namespace QueryError

/-- How many generation layers an error comes in. -/
def layers : QueryError → Nat
  | execution _ source => source.layers + 1
  | _ => 0

/-- The error of the store is delivered in one layer, with the generation, and is fatal if it is a
misuse of the lifetime of an index. -/
structure Carries (generation : Option Nat) (error : IndexError)
    (delivered : QueryError) : Prop where
  layers : delivered.layers = 1
  generation : delivered.generation? = generation
  root : delivered.root = .ofIndexError error
  fatal : delivered.isFatal = error.isLifecycle

theorem carries_wrap (generation : Option Nat) (error : IndexError) :
    Carries generation error ((ofIndexError error).wrap generation) := by
  cases error <;> exact ⟨rfl, rfl, rfl, rfl⟩

end QueryError

namespace Session

open Database Relation

variable {σ : Type} {s s' s'' : Session σ} {config : Config}

/-- What a step of a session is to queries. -/
inductive Occurrence where
  | quiet
  /-- A query is made; a copy has a source. -/
  | made (source : Option Nat)
  /-- An outcome is delivered for a query.  Nothing was found for it if it was cancelled. -/
  | delivered (query : Nat) (found : Option Execution.Found) (outcome : Outcome)

namespace Occurrence

/-- The generation of a good answer that is delivered for the query. -/
def success? (query : Nat) : Occurrence → Option Nat
  | .delivered other _ (.ok answer) => if other = query then some answer.generation else none
  | _ => none

def outcome? : Occurrence → Option Outcome
  | .delivered _ _ outcome => some outcome
  | _ => none

/-- What a run in its turn was to queries, from what it was before and what it reports then. -/
def ofTurn : Option Run → Option Outcome → Occurrence
  | some run, some outcome =>
    if run.isOver then .quiet else .delivered run.query run.finding? outcome
  | _, _ => .quiet

/-- What an action was to queries, from what it led to. -/
def ofAction (db db' : Database σ) : Action → Occurrence
  | .go (.run id) => ofTurn db.runs[id]? (db'.runs[id]?.bind Run.report)
  | action =>
    if db.queries.length < db'.queries.length then .made action.source? else .quiet

/-- What queries have seen after it. -/
def seen (db : Database σ) : Occurrence → List (Option Nat)
  | .quiet => db.seen
  | .made source => db.seen ++ [source.bind db.lastGeneration]
  | .delivered query _ outcome => seenAfter query db.seen outcome

end Occurrence

/-- The steps of a session, and what each of them is to queries. -/
inductive Occurs : Session σ → Occurrence → Session σ → Prop where
  | act {s : Session σ} {c : Client σ} (hc : c.Passive) (action : Action)
      (hspares : SparesScans action) :
      Occurs s (.ofAction s.db (s.db.perform c action) action)
        { s with db := s.db.perform c action }
  | deed {s : Session σ} {m : Moment σ} {deed : Deed σ} (hdeed : ∀ action, deed ≠ .act action)
      (hdoes : s.toMoment.Does deed m) : Occurs s .quiet { s with toMoment := m }
  | call {s : Session σ} {id : Nat} {query : Query} {temporary : Option Nat}
      (hquery : s.db.queries[id]? = some query)
      (hregister : (s.db.register id).2 = .ok temporary) :
      Occurs s .quiet
        { s with
          db := (s.db.register id).1
          made := s.made + 1
          calls := ⟨id, query.request, temporary⟩ :: s.calls }
  | refuse {s : Session σ} {id : Nat} {error : QueryError}
      (hregister : (s.db.register id).2 = .error error) :
      Occurs s (.delivered id (some (.refused error)) (.error error))
        { s with
          db := (s.db.register id).1
          made := s.made + 1
          refusals := error :: s.refusals }
  | comeBack {s : Session σ} {c : Client σ} (hc : c.Passive) {earlier later : List AtOnce}
      {call : AtOnce} (hcalls : s.calls = earlier ++ call :: later)
      (result : Except IndexError Answer) :
      Occurs s
        (.delivered call.query (some (.scanned result)) ((s.db.endRegistration c
          call.temporary).complete call.query call.request.target result).2)
        { s with
          db := ((s.db.endRegistration c call.temporary).complete call.query call.request.target
            result).1
          calls := earlier ++ later
          returned := ((s.db.endRegistration c call.temporary).complete call.query
            call.request.target result).2 :: s.returned }
  | overtake {s : Session σ} {c : Client σ} (hc : c.Passive) {id : Nat} {run : Run}
      {error : QueryError} (hready : .run id ∈ s.db.ready)
      (hrefused : s.db.AtRefusal id run error) :
      Occurs s (.delivered run.query none (.error .cancelled))
        { s with
          db := s.db.overtakeRun c id error
          overtaken := error :: s.overtaken }

theorem Occurs.step {occurrence : Occurrence} (h : s.Occurs occurrence s') : s.Step s' := by
  cases h with
  | act hc action hspares => exact .act hc action hspares
  | deed hdeed hdoes => exact .deed hdeed hdoes
  | call hquery hregister => exact .call hquery hregister
  | refuse hregister => exact .refuse hregister
  | comeBack hc hcalls result => exact .comeBack hc hcalls result
  | overtake hc hready hrefused => exact .overtake hc hready hrefused

/-- Every step is something to queries, be it nothing. -/
theorem Step.occurs (h : s.Step s') : ∃ occurrence, s.Occurs occurrence s' := by
  cases h with
  | act hc action hspares => exact ⟨_, .act hc action hspares⟩
  | deed hdeed hdoes => exact ⟨_, .deed hdeed hdoes⟩
  | call hquery hregister => exact ⟨_, .call hquery hregister⟩
  | refuse hregister => exact ⟨_, .refuse hregister⟩
  | comeBack hc hcalls result => exact ⟨_, .comeBack hc hcalls result⟩
  | overtake hc hready hrefused => exact ⟨_, .overtake hc hready hrefused⟩

/-! ## Actions -/

section Actions

variable {c : Client σ} {db db' : Database σ} {action : Action} {id : Nat} {run : Run}

theorem Occurrence.ofTurn_open (hopen : run.isOver = false) (report : Option Outcome) :
    ofTurn (some run) report = report.elim .quiet (.delivered run.query run.finding?) := by
  cases report <;> simp [ofTurn, hopen]

theorem Occurrence.ofTurn_over (hover : run.isOver = true) (report : Option Outcome) :
    ofTurn (some run) report = .quiet := by
  cases report <;> simp [ofTurn, hover]

theorem Occurrence.ofAction_eq (hgo : ∀ id, action ≠ .go (.run id)) :
    ofAction db db' action =
      if db.seen.length < db'.seen.length then .made action.source? else .quiet := by
  rw [length_seen, length_seen, ofAction]
  exact fun id heq => hgo id heq

theorem Occurrence.ofAction_unreported (hreports : db'.reports = db.reports) :
    ofAction db db' (.go (.run id)) = .quiet := by
  rw [ofAction, report_of_reports, hreports, ← report_of_reports]
  cases db.runs[id]? with
  | none => rfl
  | some run =>
    cases hover : run.isOver with
    | false => rw [ofTurn_open hover, Option.bind_some, Run.report_of_not_isOver hover]; rfl
    | true => exact ofTurn_over hover _

/-- What an occurrence comes to between two databases. -/
inductive Amounts (db db' : Database σ) : Occurrence → Prop where
  | quiet (hseen : db'.seen = db.seen) (hreports : Unreported db db') : Amounts db db' .quiet
  | made {source : Option Nat} (hseen : db'.seen = db.seen ++ [source.bind db.lastGeneration])
      (hreports : Unreported db db') : Amounts db db' (.made source)
  | delivered {id : Nat} {run : Run} (hrun : db.runs[id]? = some run) (hopen : run.isOver = false)
      (hseen : db'.seen = seenAfter run.query db.seen (run.due (db.lastGeneration run.query)))
      (hreports : db'.reports =
        db.reports.set id (run.query, some (run.due (db.lastGeneration run.query)))) :
      Amounts db db' (.delivered run.query run.finding? (run.due (db.lastGeneration run.query)))

/-- What an action is to queries and to runs. -/
theorem amounts_perform {slots : Nat} {others : Nat → Nat} {returned : List Outcome}
    (hc : c.Passive) (h : db.Roster slots others returned) (hspares : SparesScans action) :
    Amounts db (db.perform c action) (.ofAction db (db.perform c action) action) := by
  by_cases hgo : ∃ id, action = .go (.run id)
  · obtain ⟨id, rfl⟩ := hgo
    rcases reports_go hc h id with ⟨hreports, hseen⟩ | ⟨run, hrun, hopen, hreports, hseen⟩
    · rw [perform, Occurrence.ofAction_unreported hreports]
      exact .quiet hseen (.inl hreports)
    · have hlt := (List.getElem?_eq_some_iff.1 (getElem?_reports hrun)).1
      rw [perform, Occurrence.ofAction, hrun, Occurrence.ofTurn_open hopen, report_of_reports,
        hreports, List.getElem?_set_self hlt]
      exact .delivered hrun hopen hseen hreports
  · have hother : ∀ id, action ≠ .go (.run id) := fun id heq => hgo ⟨id, heq⟩
    have hunreported := unreported_perform hc h.lodged hspares hother
    rw [Occurrence.ofAction_eq hother]
    rcases adds_perform hc (hspares.sparesSeen hother) db with hsame | hadded
    · rw [hsame, if_neg (Nat.lt_irrefl _)]
      exact .quiet hsame hunreported
    · rw [if_pos (by simp [hadded])]
      exact .made hadded hunreported

theorem Amounts.seen_eq {occurrence : Occurrence} (h : Amounts db db' occurrence) :
    db'.seen = occurrence.seen db := by
  cases h with
  | quiet hseen hreports => exact hseen
  | made hseen hreports => exact hseen
  | delivered hrun hopen hseen hreports => exact hseen

/-- What the runs have come to that are over, and nothing is forgotten. -/
theorem Amounts.answers_perm {occurrence : Occurrence} (h : Amounts db db' occurrence) :
    db'.answers.Perm (occurrence.outcome?.toList ++ db.answers) := by
  rw [answers_eq, answers_eq]
  cases h with
  | quiet hseen hreports => exact .of_eq hreports.filterMap_eq
  | made hseen hreports => exact .of_eq hreports.filterMap_eq
  | delivered hrun hopen hseen hreports =>
    have hnone := getElem?_reports hrun
    rw [Run.report_of_not_isOver hopen] at hnone
    rw [hreports]
    exact filterMap_set_perm hnone _

end Actions

/-! ## Steps -/

section Steps

variable {slots : Nat} {occurrence : Occurrence}

/-- What queries have seen changes by what a step is to them. -/
theorem Occurs.seen_eq (h : s.Occurs occurrence s') (hsettled : s.Settled slots) :
    s'.db.seen = occurrence.seen s.db := by
  cases h with
  | act hc action hspares => exact (amounts_perform hc hsettled.roster hspares).seen_eq
  | deed hdeed hdoes => exact Moment.seen_does hdeed hdoes
  | call hquery hregister => exact seen_of_queries (Stance.queries_register _ s.db)
  | refuse hregister => exact seen_of_queries (Stance.queries_register _ s.db)
  | @comeBack c hc earlier later call hcalls result =>
    have hended := seen_of_queries (queries_endRegistered hc call.temporary s.db)
    rw [Occurrence.seen, ← hended]
    exact seen_complete call.query call.request.target result _
  | overtake hc hready hrefused => exact seen_overtakeRun hc hrefused

/-- The outcome that is delivered is what was found, an error of the store with the generation that
the query has seen; or it is that the run was cancelled. -/
theorem Occurs.outcome_eq {query : Nat} {found : Option Execution.Found} {outcome : Outcome}
    (h : s.Occurs (.delivered query found outcome) s') (hsettled : s.Settled slots) :
    outcome = found.elim (.error .cancelled)
      (Execution.Found.outcome (s.db.lastGeneration query)) := by
  generalize hoccurrence : Occurrence.delivered query found outcome = occurrence at h
  cases h with
  | act hc action hspares =>
    have hamounts := amounts_perform hc hsettled.roster hspares
    rw [← hoccurrence] at hamounts
    cases hamounts
    rfl
  | deed hdeed hdoes => cases hoccurrence
  | call hquery hregister => cases hoccurrence
  | refuse hregister =>
    cases hoccurrence
    rfl
  | @comeBack c hc earlier later call hcalls result =>
    cases hoccurrence
    rw [snd_complete, lastGeneration, queries_endRegistered hc call.temporary s.db]
    rfl
  | overtake hc hready hrefused =>
    cases hoccurrence
    rfl

/-- What background runs and calls have come to so far. -/
def outcomes (s : Session σ) : List Outcome :=
  s.db.answers ++ s.returned ++ s.refusals.map .error

/-- A step delivers what it is to queries, once, and nothing besides. -/
theorem Occurs.outcomes_perm (h : s.Occurs occurrence s') (hsettled : s.Settled slots) :
    s'.outcomes.Perm (occurrence.outcome?.toList ++ s.outcomes) := by
  cases h with
  | act hc action hspares =>
    have hanswers := (amounts_perform hc hsettled.roster hspares).answers_perm
    simp only [outcomes, ← List.append_assoc]
    exact (hanswers.append_right _).append_right _
  | deed hdeed hdoes =>
    have hsame := (offstage_does hdeed hdoes).toApart.reports
    simp only [outcomes, answers_eq, hsame]
    exact .refl _
  | call hquery hregister =>
    simp only [outcomes, answers_eq, reports_register]
    exact .refl _
  | refuse hregister =>
    simp only [outcomes, answers_eq, reports_register, List.map_cons]
    exact List.perm_middle
  | @comeBack c hc earlier later call hcalls result =>
    have hended := (apart_endRegistration hc call.temporary s.db).reports
    simp only [outcomes, answers_eq, reports_complete, hended, List.append_assoc]
    exact List.perm_middle
  | overtake hc hready hrefused =>
    have hreports := reports_overtakeRun hc hsettled.roster hready hrefused
    have hnone := getElem?_reports hrefused.found
    rw [Run.report_of_not_isOver hrefused.not_isOver] at hnone
    simp only [outcomes, answers_eq, hreports]
    exact ((filterMap_set_perm hnone _).append_right _).append_right _

end Steps

/-! ## Traces -/

/-- Steps in a row, each with the session that it was taken in and what it was to queries. -/
inductive Trace : Session σ → List (Session σ × Occurrence) → Session σ → Prop where
  | nil {s : Session σ} : Trace s [] s
  | cons {s s' s'' : Session σ} {occurrence : Occurrence} {steps : List (Session σ × Occurrence)}
      (hoccurs : s.Occurs occurrence s') (htrace : Trace s' steps s'') :
      Trace s ((s, occurrence) :: steps) s''

/-- The generations of the good answers that are delivered for the query, in their order. -/
def successes (query : Nat) (steps : List (Session σ × Occurrence)) : List Nat :=
  steps.filterMap fun step => step.2.success? query

/-- All outcomes that are delivered. -/
def delivered (steps : List (Session σ × Occurrence)) : List Outcome :=
  steps.filterMap fun step => step.2.outcome?

section Traces

variable {slots : Nat} {steps : List (Session σ × Occurrence)}

theorem successes_cons (query : Nat) (step : Session σ × Occurrence)
    (steps : List (Session σ × Occurrence)) :
    successes query (step :: steps) = (step.2.success? query).toList ++ successes query steps := by
  rw [successes, List.filterMap_cons]
  cases step.2.success? query <;> rfl

theorem delivered_cons (step : Session σ × Occurrence) (steps : List (Session σ × Occurrence)) :
    delivered (step :: steps) = step.2.outcome?.toList ++ delivered steps := by
  rw [delivered, List.filterMap_cons]
  cases step.2.outcome? <;> rfl

/-- Whatever steps are taken can be told. -/
theorem exists_trace (h : ReflTransGen Step s s') : ∃ steps, Trace s steps s' := by
  induction h using ReflTransGen.head_induction_on with
  | refl => exact ⟨[], .nil⟩
  | head hstep _ ih =>
    obtain ⟨occurrence, hoccurs⟩ := hstep.occurs
    obtain ⟨steps, htrace⟩ := ih
    exact ⟨_, .cons hoccurs htrace⟩

theorem Trace.reflTransGen (h : Trace s steps s') : ReflTransGen Step s s' := by
  induction h with
  | nil => exact .refl
  | cons hoccurs _ ih => exact .head hoccurs.step ih

/-- What was taken before a step, the step, and what was taken after it. -/
theorem Trace.split {earlier later : List (Session σ × Occurrence)} {before : Session σ}
    {occurrence : Occurrence} (h : Trace s (earlier ++ (before, occurrence) :: later) s') :
    ∃ after, Trace s earlier before ∧ before.Occurs occurrence after ∧ Trace after later s' := by
  induction earlier generalizing s with
  | nil =>
    cases h with
    | cons hoccurs htrace => exact ⟨_, .nil, hoccurs, htrace⟩
  | cons step earlier ih =>
    cases h with
    | cons hoccurs htrace =>
      obtain ⟨after, hearlier, hoccurs', hlater⟩ := ih htrace
      exact ⟨after, .cons hoccurs hearlier, hoccurs', hlater⟩

theorem Trace.next {occurrence : Occurrence} (h : Trace s steps s')
    (hoccurs : s'.Occurs occurrence s'') : Trace s (steps ++ [(s', occurrence)]) s'' := by
  induction h with
  | nil => exact .cons hoccurs .nil
  | cons hfirst _ ih => exact .cons hfirst (ih hoccurs)

theorem Trace.settled (h : Trace s steps s') (hsettled : s.Settled slots) : s'.Settled slots := by
  induction h with
  | nil => exact hsettled
  | cons hoccurs _ ih => exact ih (hsettled.step hoccurs.step)

/-- A query that is there sees what is delivered for it, and nothing else. -/
theorem Occurrence.getElem?_seen {db : Database σ} {query : Nat} {generation : Option Nat}
    (hseen : db.seen[query]? = some generation) (occurrence : Occurrence) :
    (occurrence.seen db)[query]? = some ((occurrence.success? query).or generation) := by
  have hlt := (List.getElem?_eq_some_iff.1 hseen).1
  cases occurrence with
  | quiet => exact hseen
  | made source =>
    rw [seen, List.getElem?_append_left hlt]
    exact hseen
  | delivered other found outcome =>
    cases outcome with
    | error error => exact hseen
    | ok answer =>
      rw [seen, seenAfter, List.getElem?_set]
      by_cases hother : other = query
      · simp [success?, hother, hlt]
      · simpa [success?, hother] using hseen

/-- A query has seen last what was delivered for it last, or what it had seen before. -/
theorem Trace.getElem?_seen (h : Trace s steps s') (hsettled : s.Settled slots) {query : Nat}
    {generation : Option Nat} (hseen : s.db.seen[query]? = some generation) :
    s'.db.seen[query]? = some ((successes query steps).getLast?.or generation) := by
  induction h generalizing generation with
  | nil => exact hseen
  | @cons s s' s'' occurrence steps hoccurs _ ih =>
    have hnext := Occurrence.getElem?_seen hseen occurrence
    rw [← hoccurs.seen_eq hsettled] at hnext
    have hlast : (occurrence.success? query).toList.getLast? = occurrence.success? query := by
      cases occurrence.success? query <;> rfl
    rw [ih (hsettled.step hoccurs.step) hnext, successes_cons, List.getLast?_append, hlast,
      Option.or_assoc]

/-- A query that is there was there before, or was made in the course of the steps. -/
theorem Trace.made_or (h : Trace s steps s') (hsettled : s.Settled slots) {query : Nat}
    (hquery : query < s'.db.queries.length) : query < s.db.queries.length ∨
      ∃ earlier before source later, steps = earlier ++ (before, .made source) :: later ∧
        before.db.queries.length = query := by
  induction h with
  | nil => exact .inl hquery
  | @cons s s' s'' occurrence steps hoccurs _ ih =>
    rcases ih (hsettled.step hoccurs.step) hquery with
      hearlier | ⟨earlier, before, source, later, heq, hlength⟩
    · rw [← length_seen, hoccurs.seen_eq hsettled] at hearlier
      cases occurrence with
      | made source =>
        rw [Occurrence.seen, List.length_append, List.length_singleton, length_seen] at hearlier
        rcases Nat.lt_succ_iff_lt_or_eq.1 hearlier with hthere | hnew
        · exact .inl hthere
        · exact .inr ⟨[], s, source, steps, rfl, hnew.symm⟩
      | quiet =>
        rw [Occurrence.seen, length_seen] at hearlier
        exact .inl hearlier
      | delivered other found outcome =>
        rw [Occurrence.seen, length_seenAfter, length_seen] at hearlier
        exact .inl hearlier
    · exact .inr ⟨(s, occurrence) :: earlier, before, source, later, by rw [heq]; rfl, hlength⟩

/-- Everything that is delivered is there in the end, once, beside what was there before. -/
theorem Trace.outcomes_perm (h : Trace s steps s') (hsettled : s.Settled slots) :
    s'.outcomes.Perm (delivered steps ++ s.outcomes) := by
  induction h with
  | nil => exact .refl _
  | @cons s s' s'' occurrence steps hoccurs _ ih =>
    have hlater := ih (hsettled.step hoccurs.step)
    have hnow := (hoccurs.outcomes_perm hsettled).append_left (delivered steps)
    rw [delivered_cons, List.append_assoc]
    exact (hlater.trans hnow).trans (List.perm_append_comm_assoc _ _ _)

/-- The query started from this generation, and these steps were taken since: it was there from the
beginning, or it was made in the course of the steps, maybe as a copy. -/
inductive Since (s : Session σ) (steps : List (Session σ × Occurrence)) (query : Nat) :
    Option Nat → List (Session σ × Occurrence) → Prop where
  | there (hquery : query < s.db.queries.length) :
      Since s steps query (s.db.lastGeneration query) steps
  | made {earlier later : List (Session σ × Occurrence)} {before : Session σ} {source : Option Nat}
      (hsteps : steps = earlier ++ (before, .made source) :: later)
      (hquery : before.db.queries.length = query) :
      Since s steps query (source.bind before.db.lastGeneration) later

theorem Trace.lastGeneration_eq (h : Trace s steps s') (hsettled : s.Settled slots) {query : Nat}
    {start : Option Nat} {later : List (Session σ × Occurrence)}
    (hsince : Since s steps query start later) :
    s'.db.lastGeneration query = (successes query later).getLast?.or start := by
  cases hsince with
  | there hquery =>
    have hseen : s.db.seen[query]? = some (s.db.lastGeneration query) := by
      rw [Database.lastGeneration_eq, List.getElem?_eq_getElem (length_seen s.db ▸ hquery)]
      rfl
    rw [Database.lastGeneration_eq, h.getElem?_seen hsettled hseen]
    rfl
  | @made earlier later before source hsteps hquery =>
    obtain ⟨after, hearlier, hoccurs, hlater⟩ := (hsteps ▸ h).split
    have hbefore := hearlier.settled hsettled
    have hseen : after.db.seen[query]? = some (source.bind before.db.lastGeneration) := by
      rw [hoccurs.seen_eq hbefore, Occurrence.seen, ← hquery, ← length_seen]
      exact List.getElem?_concat_length
    rw [Database.lastGeneration_eq, hlater.getElem?_seen (hbefore.step hoccurs.step) hseen]
    rfl

/-- Every query that there is in the end has seen last the generation of the good answer that was
delivered for it last, or what it started from.  All outcomes are delivered once, an error of the
store in one layer with that generation. -/
theorem Reached.lastGeneration_and_failures (h : s.Reached config)
    (hsteps : ReflTransGen Step s s') :
    (∃ steps, Trace s steps s') ∧ ∀ steps, Trace s steps s' →
      (∀ query < s'.db.queries.length, ∃ start later, Since s steps query start later) ∧
      (∀ query start later, Since s steps query start later →
        s'.db.lastGeneration query = (successes query later).getLast?.or start) ∧
      s'.outcomes.Perm (delivered steps ++ s.outcomes) ∧
      (∀ before query found outcome, (before, .delivered query found outcome) ∈ steps →
        outcome = found.elim (.error .cancelled)
          (Execution.Found.outcome (before.db.lastGeneration query))) ∧
      (∀ before query error outcome,
        (before, .delivered query (some (.scanned (.error error))) outcome) ∈ steps →
          ∃ delivered, outcome = .error delivered ∧
            delivered.Carries (before.db.lastGeneration query) error) := by
  refine ⟨exists_trace hsteps, fun steps htrace => ?_⟩
  have hsettled := h.settled
  have hdelivered : ∀ before query found outcome,
      (before, .delivered query found outcome) ∈ steps →
        outcome = found.elim (.error .cancelled)
          (Execution.Found.outcome (before.db.lastGeneration query)) := by
    intro before query found outcome hmem
    obtain ⟨earlier, later, hsplit⟩ := List.append_of_mem hmem
    obtain ⟨after, hearlier, hoccurs, -⟩ := (hsplit ▸ htrace).split
    exact hoccurs.outcome_eq (hearlier.settled hsettled)
  refine ⟨fun query hquery => ?_, fun query start later hsince => ?_,
    htrace.outcomes_perm hsettled, hdelivered, fun before query error outcome hmem => ?_⟩
  · rcases htrace.made_or hsettled hquery with hthere | ⟨_, _, _, _, hmade, hlength⟩
    · exact ⟨_, _, .there hthere⟩
    · exact ⟨_, _, .made hmade hlength⟩
  · exact htrace.lastGeneration_eq hsettled hsince
  · exact ⟨_, hdelivered before query _ outcome hmem, QueryError.carries_wrap _ error⟩

/-- A query answers, is copied, and answers again after a write.  A run of the copy is cancelled, the
store fails another, and a call is refused once the copy is disposed of: the copy has seen what the
query had seen when it was copied, and its failure tells that. -/
theorem lastGeneration_of_copy : ∃ (s s' : Session Unit) (before : Session Unit) (outcome : Outcome)
    (steps : List (Session Unit × Occurrence)), s.Reached {} ∧ Trace s steps s' ∧
      successes 0 steps = [1] ∧ s'.db.lastGeneration 0 = some 1 ∧ s'.db.lastGeneration 1 = some 0 ∧
        (before, .delivered 1 (some (.scanned (.error (.internal (.other "no connection")))))
          outcome) ∈ steps ∧ ∃ delivered, outcome = .error delivered ∧
            delivered.Carries (some 0) (.internal (.other "no connection")) := by
  have hsilent := Client.passive_silent Unit
  have hfailing : Client.Passive failing := { Client.passive_silent Unit with
    beforeScan := fun _ _ => rfl }
  have hmade := @Reached.create Unit {} .info 0 () _ rfl
  have hdefined := hmade.step (.act hsilent (.defineView "v" Store.bodyById none) trivial)
  have hqueried := hdefined.step (.act hsilent (.queryIndex (.named ⟨1⟩ "v" false)) trivial)
  have hcalled := hqueried.step (@Step.call Unit _ 0 _ none rfl rfl)
  have hback := hcalled.step (@Step.comeBack Unit _ _ hsilent [] [] _ rfl (.ok ⟨[], 0⟩))
  have hstart {t : Session Unit} (_ : t.Reached {}) : Trace t [] t := .nil
  have hcopied := (hstart hback).next (.act hsilent (.copyQuery 0) trivial)
  have hwritten := hcopied.next (.act hsilent (.put "d" (.bool true)) trivial)
  have hsubmitted := hwritten.next (.act hsilent (.submit 0 .handle) trivial)
  have hstarted := hsubmitted.next (.act hsilent (.go (.run 0)) trivial)
  have hscanned := hstarted.next (.act hsilent (.scanRun 0) trivial)
  have hanswered := hscanned.next (.act hsilent (.go (.run 0)) trivial)
  have hsecond := hanswered.next (.act hsilent (.submit 1 .handle) trivial)
  have hcancelled := hsecond.next (.act hsilent (.cancel 1) trivial)
  have habandoned := hcancelled.next (.act hsilent (.go (.run 1)) trivial)
  have hthird := habandoned.next (.act hsilent (.submit 1 .handle) trivial)
  have hrestarted := hthird.next (.act hsilent (.go (.run 2)) trivial)
  have hfailed := hrestarted.next (.act hfailing (.scanRun 2) trivial)
  have hended := hfailed.next (.act hsilent (.go (.run 2)) trivial)
  have hdisposed := hended.next (.act hsilent (.disposeQuery 1) trivial)
  have hturned := hdisposed.next (@Occurs.refuse Unit _ 1 _ rfl)
  obtain ⟨-, htold⟩ := hback.lastGeneration_and_failures hturned.reflTransGen
  obtain ⟨-, hlast, -, -, hfailures⟩ := htold _ hturned
  have hsource := hlast 0 _ _ (.there Nat.zero_lt_one)
  have hcopy := hlast 1 _ _ (@Since.made Unit _ _ _ [] _ _ (some 0) rfl rfl)
  have hmem {α : Type} (earlier : List α) (a b c : α) : a ∈ earlier ++ [a] ++ [b] ++ [c] := by simp
  have hfailure := hfailures _ 1 (.internal (.other "no connection")) _ (hmem _ _ _ _)
  exact ⟨_, _, _, _, _, hback, hturned, rfl, hsource, hcopy, hmem _ _ _ _, hfailure⟩

end Traces

end Session

end Viewbase
