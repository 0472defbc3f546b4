import Viewbase.Proofs.Database.Executions
import Viewbase.Proofs.Database.LastSeen
import Viewbase.Proofs.Database.Silence

/-!
Background runs and runs at once.

A background run takes effect when its scan ends.  What is delivered later is what a run of the
query at once would have come to then, with the settings of the time the background run was
submitted (`Moment.Reached.background_agrees`).  Neither what became of the query meanwhile nor when
the run was submitted, started or finished makes a difference.
-/

namespace Viewbase

open Relation

/-! ## How far a run has come -/

namespace Run

variable {run run' : Run} {error : QueryError}

theorem stage_of_isOver (h : run.isOver) : run.stage = .ended := by
  rw [isOver] at h
  split at h
  next heq => exact heq
  next => cases h

/-- A run that has a result keeps it until it is over. -/
theorem scanned_of_goes {result : Except IndexError Answer} (hstage : run.stage = .scanned result)
    (h : ReflTransGen Goes run run') : run'.stage = .scanned result ∨ run'.isOver := by
  induction h with
  | refl => exact .inl hstage
  | @tail between after _ hgoes ih =>
    rcases ih with hscanned | hover
    · cases hgoes with
      | stay | cancel => exact .inl hscanned
      | abandon | conclude => exact .inr rfl
      | permit hother | start hother | scan hother =>
        rw [hscanned] at hother
        cases hother
    · have hended := stage_of_isOver hover
      cases hgoes with
      | stay | cancel => exact .inr hover
      | abandon | conclude => exact .inr rfl
      | permit hother | start hother | scan hother =>
        rw [hended] at hother
        cases hother

/-- How far a run can come whose scan was refused. -/
def Refused (error : QueryError) (run : Run) : Prop :=
  run.registration = .error error ∧
    match run.stage with
    | .waiting => run.control = .pending ∨ run.control = .cancelled
    | .admitted => run.control = .pending ∨ run.control = .cancelled
    | .ended => run.control = .cancelled ∨ run.outcome = some (.error error)
    | _ => False

theorem Refused.goes (h : run.Refused error) (hgoes : run.Goes run') : run'.Refused error := by
  obtain ⟨hregistration, hstage⟩ := h
  refine ⟨hgoes.kept.2.2.trans hregistration, ?_⟩
  cases hgoes with
  | stay => exact hstage
  | cancel =>
    cases hcontrol : run.control <;> cases heq : run.stage <;>
      simp_all [Control.cancel]
  | permit heq => simpa [heq] using hstage
  | start _ _ hgranted =>
    obtain ⟨temporary, hgranted⟩ := hgranted
    rw [hregistration] at hgranted
    cases hgranted
  | abandon heq hclosed =>
    rw [heq] at hstage
    exact .inl (hstage.resolve_left hclosed)
  | scan heq =>
    rw [heq] at hstage
    exact hstage.elim
  | conclude hconcludes =>
    cases hconcludes with
    | refused _ _ hrefused =>
      rw [hregistration] at hrefused
      cases hrefused
      exact .inr rfl
    | discarded heq | failed _ heq | answered heq =>
      rw [heq] at hstage
      exact hstage.elim

theorem Refused.goes_on (h : run.Refused error) (hgoes : ReflTransGen Goes run run') :
    run'.Refused error := by
  induction hgoes with
  | refl => exact h
  | tail _ hgoes ih => exact ih.goes hgoes

end Run

/-! ## Runs at once -/

namespace Database

variable {σ : Type} {db db' : Database σ} {query : Nat} {q : Query}

/-- Run a query at once whose scan is registered. -/
def runRegistered (c : Client σ) (id : Nat) (request : Request) (temporary : Option Nat)
    (db : Database σ) : Database σ × Outcome :=
  match db.scan c request with
  | (db, result) => (db.endRegistration c temporary).complete id request.target result

/-- To run a query at once is to register its scan and then to run it. -/
theorem runQuery_eq (c : Client σ) (hquery : db.queries[query]? = some q) :
    db.runQuery c query =
      match db.register query with
      | (db, .error error) => (db, .error error)
      | (db, .ok temporary) => db.runRegistered c query q.request temporary := by
  rw [runQuery, hquery]
  rfl

theorem snd_complete (query : Nat) (target : Target) (result : Except IndexError Answer)
    (db : Database σ) :
    (db.complete query target result).2 =
      (Execution.Found.scanned result).outcome (db.lastGeneration query) := by
  cases result <;> rfl

theorem store_complete (query : Nat) (target : Target) (result : Except IndexError Answer)
    (db : Database σ) :
    (db.complete query target result).1.store = db.store ∧
      (db.complete query target result).1.temporaries = db.temporaries ∧
        (db.complete query target result).1.runs = db.runs := by
  cases result <;> exact ⟨rfl, rfl, rfl⟩

/-- A query has seen the generation of its answer, or what it had seen before an error. -/
theorem lastGeneration_complete (hquery : db.queries[query]? = some q) (target : Target)
    (result : Except IndexError Answer) :
    (db.complete query target result).1.lastGeneration query =
      match result with
      | .ok answer => some answer.generation
      | .error _ => q.lastGeneration := by
  cases result with
  | ok answer => simp [complete, updateQuery, count, note, lastGeneration, hquery]
  | error error => simp [complete, count, note, lastGeneration, hquery]

/-- What is registered is no matter of which scans are under way. -/
theorem endRegistration_scanning (temporary : Option Nat) (scanning : List Nat)
    (db : Database σ) :
    ({ db with scanning := scanning } : Database σ).endRegistration (.silent σ) temporary =
      { db.endRegistration (.silent σ) temporary with scanning := scanning } := by
  cases temporary with
  | none => rfl
  | some id =>
    simp only [endRegistration, endScan, onTemporary]
    cases db.temporaries[id]? with
    | none => rfl
    | some record =>
      simp only [Temporary.endScan, Temporary.deleteQuietly, Temporary.deleteNow, deleteIndex,
        Client.silent]
      split
      · cases db.store.deleteIndex record.index with
        | ok store => rfl
        | error error =>
          dsimp only
          split <;> rfl
      · rfl

/-! ## The scan -/

theorem runRegistered_eq (id : Nat) (request : Request) (temporary : Option Nat)
    (db : Database σ) :
    db.runRegistered (.silent σ) id request temporary =
      (({ db with store := (db.store.scan request).1 } : Database σ).endRegistration
        (.silent σ) temporary).complete id request.target (db.store.scan request).2 := by
  rw [runRegistered, scan_silent]

/-- What a run at once comes to, and what the query has seen then, whatever is registered. -/
theorem runRegistered_delivers (hquery : db.queries[query]? = some q) (request : Request)
    (temporary : Option Nat) :
    (db.runRegistered (.silent σ) query request temporary).2 =
        (Execution.Found.scanned (db.store.scan request).2).outcome q.lastGeneration ∧
      (db.runRegistered (.silent σ) query request temporary).1.lastGeneration query =
        match (db.store.scan request).2 with
        | .ok answer => some answer.generation
        | .error _ => q.lastGeneration := by
  have hended : (({ db with store := (db.store.scan request).1 } : Database σ).endRegistration
      (.silent σ) temporary).queries[query]? = some q := by
    rw [queries_endRegistration]
    exact hquery
  rw [runRegistered_eq, snd_complete, lastGeneration_complete hended, lastGeneration, hended,
    Option.bind_some]
  exact ⟨rfl, rfl⟩

/-- The scan of a run leaves the store and the temporary indexes as a run at once does. -/
theorem scanRun_agrees {id : Nat} {run : Run} (hrun : db.runs[id]? = some run) (query : Nat) :
    (db.scanRun (.silent σ) id).store =
        (db.runRegistered (.silent σ) query run.request run.registered?).1.store ∧
      (db.scanRun (.silent σ) id).temporaries =
        (db.runRegistered (.silent σ) query run.request run.registered?).1.temporaries ∧
      (db.scanRun (.silent σ) id).runs[id]? =
        some { run with stage := .scanned (db.store.scan run.request).2 } := by
  have hscanning := endRegistration_scanning run.registered? (db.scanning.filter (· != id))
    { db with store := (db.store.scan run.request).1 }
  have hruns := (beside_endRegistration run.registered?
    { db with store := (db.store.scan run.request).1 }).runs
  obtain ⟨hstore, htemporaries, -⟩ := store_complete query run.request.target
    (db.store.scan run.request).2 (({ db with store := (db.store.scan run.request).1 } :
      Database σ).endRegistration (.silent σ) run.registered?)
  dsimp only at hscanning
  simp only [scanRun, runRegistered_eq, hrun, scan_silent, hscanning]
  refine ⟨hstore.symm, htemporaries.symm, ?_⟩
  simp [updateRun, wake, hruns, hrun]

/-! ## The end of a run -/

theorem kept_givePermit (db : Database σ) :
    db.givePermit.store = db.store ∧ db.givePermit.temporaries = db.temporaries ∧
      db.givePermit.runs.length = db.runs.length := by
  rw [givePermit]
  split
  · exact ⟨rfl, rfl, rfl⟩
  · exact ⟨rfl, rfl, List.length_modify ..⟩

theorem kept_deliver (id : Nat) (recipient : Recipient) (outcome : Outcome) (db : Database σ) :
    (db.deliver (.silent σ) id recipient outcome).store = db.store ∧
      (db.deliver (.silent σ) id recipient outcome).temporaries = db.temporaries ∧
        (db.deliver (.silent σ) id recipient outcome).runs =
          db.runs.modify id fun run => { run with stage := .ended, outcome := some outcome } := by
  cases recipient <;> exact ⟨rfl, rfl, rfl⟩

/-- A run that was not cancelled completes its scan and is delivered. -/
theorem finishRun_eq {id : Nat} {run : Run} (hrun : db.runs[id]? = some run)
    (hcontrol : run.control = .running) (result : Except IndexError Answer) :
    ∃ finished : Database σ, finished.queries = db.queries ∧ finished.store = db.store ∧
      finished.temporaries = db.temporaries ∧ finished.runs.length = db.runs.length ∧
      db.finishRun (.silent σ) id result =
        (finished.complete run.query run.request.target result).1.deliver (.silent σ) id
          run.recipient (finished.complete run.query run.request.target result).2 := by
  obtain ⟨hstore, htemporaries, hruns⟩ := kept_givePermit db
  refine ⟨db.givePermit.updateRun id fun run => { run with control := .done },
    queries_givePermit db, hstore, htemporaries, (List.length_modify ..).trans hruns, ?_⟩
  simp only [finishRun, hrun, conclude, hcontrol, Control.finish]

/-- A run that was not cancelled delivers what its scan came to, with the generation that its query
has seen last by then. -/
theorem finishRun_delivers {id : Nat} {run : Run} (hrun : db.runs[id]? = some run)
    (hcontrol : run.control = .running) (hquery : db.queries[run.query]? = some q)
    (result : Except IndexError Answer) :
    (∃ done, (db.finishRun (.silent σ) id result).runs[id]? = some done ∧ done.isOver ∧
      done.outcome = some ((Execution.Found.scanned result).outcome q.lastGeneration)) ∧
    ((db.finishRun (.silent σ) id result).lastGeneration run.query =
      match result with
      | .ok answer => some answer.generation
      | .error _ => q.lastGeneration) ∧
    (db.finishRun (.silent σ) id result).store = db.store ∧
    (db.finishRun (.silent σ) id result).temporaries = db.temporaries := by
  obtain ⟨finished, hqueries, hstore, htemporaries, hruns, hended⟩ :=
    finishRun_eq hrun hcontrol result
  have hfound : finished.queries[run.query]? = some q := hqueries ▸ hquery
  have hlast : finished.lastGeneration run.query = q.lastGeneration := by
    rw [lastGeneration, hfound, Option.bind_some]
  obtain ⟨hcompletedStore, hcompletedTemporaries, hsame⟩ := store_complete run.query
    run.request.target result finished
  obtain ⟨hdeliveredStore, hdeliveredTemporaries, hdelivered⟩ := kept_deliver id run.recipient
    (finished.complete run.query run.request.target result).2
    (finished.complete run.query run.request.target result).1
  rw [hended]
  refine ⟨?_, ?_, hdeliveredStore.trans (hcompletedStore.trans hstore),
    hdeliveredTemporaries.trans (hcompletedTemporaries.trans htemporaries)⟩
  · have hlt : id < finished.runs.length := hruns ▸ (List.getElem?_eq_some_iff.1 hrun).1
    refine ⟨{ finished.runs[id] with
      stage := .ended
      outcome := some (finished.complete run.query run.request.target result).2 }, ?_, rfl, ?_⟩
    · rw [hdelivered, hsame]
      simp [hlt]
    · rw [snd_complete, hlast]
  · rw [lastGeneration, queries_deliver (Client.passive_silent σ), ← lastGeneration]
    exact lastGeneration_complete hfound run.request.target result

/-! ## A refused scan -/

theorem store_conclude {id : Nat} {run : Run} {outcome : Database σ → Database σ × Outcome}
    (h : ∀ db, (outcome db).1.store = db.store) (db : Database σ) :
    (db.conclude (.silent σ) id run outcome).store = db.store := by
  rw [conclude]
  split
  · exact (kept_deliver id run.recipient _ _).1.trans (h _)
  · exact (kept_deliver id run.recipient _ _).1

theorem store_startRun_of_refused {id : Nat}
    (h : ∀ run, db.runs[id]? = some run → ∃ error, run.registration = .error error) :
    (db.startRun (.silent σ) id).store = db.store := by
  cases hrun : db.runs[id]? with
  | none => rw [startRun, hrun]
  | some run =>
    obtain ⟨error, hrefused⟩ := h run hrun
    cases hstart : run.control.start with
    | mk control started =>
      cases started with
      | false =>
        simp only [startRun, hrun, hstart, hrefused]
        exact (congrArg Database.store (Stance.wakeRecipient_eq _ _)).trans (kept_givePermit _).1
      | true =>
        simp only [startRun, hrun, hstart, hrefused]
        exact (store_conclude (fun _ => rfl) _).trans (kept_givePermit _).1

/-- A run whose scan was refused has no effect on the store. -/
theorem store_pollRun_of_refused {id : Nat} {error : QueryError}
    (h : ∀ run, db.runs[id]? = some run → run.Refused error) :
    (db.pollRun (.silent σ) id).store = db.store := by
  have htaken : (db.takePermit id).store = db.store := by
    rw [takePermit]
    split <;> rfl
  rw [pollRun]
  split
  · split
    next hpermits =>
      refine (store_startRun_of_refused fun run hrun => ?_).trans htaken
      rw [takePermit, if_pos hpermits] at hrun
      obtain ⟨old, hold, rfl⟩ : ∃ old, db.runs[id]? = some old ∧
          { old with stage := .admitted } = run := by
        simpa [updateRun] using hrun
      exact ⟨error, (h old hold).1⟩
    · exact htaken
  · exact store_startRun_of_refused fun run hrun => ⟨error, (h run hrun).1⟩
  next result hstage =>
    obtain ⟨run, hrun, hscanned⟩ := Option.map_eq_some_iff.1 hstage
    have hrefused := (h run hrun).2
    rw [hscanned] at hrefused
    exact hrefused.elim
  · rfl

/-- A run that starts without having been cancelled, and whose scan was refused, ends with the
refusal. -/
theorem startRun_delivers_refusal {id : Nat} {run : Run} {error : QueryError}
    (hrun : db.runs[id]? = some run) (hpending : run.control = .pending)
    (hrefused : run.registration = .error error) :
    ∃ done, (db.startRun (.silent σ) id).runs[id]? = some done ∧ done.isOver ∧
      done.outcome = some (.error error) := by
  have hstarted := getElem?_startRefused hrun
  have hlt : id < (db.startRefused id).givePermit.runs.length := by
    rw [(kept_givePermit _).2.2]
    exact (List.getElem?_eq_some_iff.1 hstarted).1
  rw [startRun_of_refused hrun hpending hrefused, endRefused, hstarted]
  simp only [conclude, Control.finish]
  rw [(kept_deliver _ _ _ _).2.2]
  exact ⟨{ (db.startRefused id).givePermit.runs[id] with
    control := .done, stage := .ended, outcome := some (.error error) }, by simp [updateRun, hlt],
    rfl, rfl⟩

/-- A run goes on to its end if its scan was refused, it was not cancelled, and a permit is there
for it. -/
theorem pollRun_delivers_refusal {id : Nat} {run : Run} {error : QueryError}
    (hrun : db.runs[id]? = some run) (hrefused : run.Refused error)
    (hpermit : run.stage = .admitted ∨ run.stage = .waiting ∧ 0 < db.permits)
    (huncancelled : run.control ≠ .cancelled) :
    ∃ done, (db.pollRun (.silent σ) id).runs[id]? = some done ∧ done.isOver ∧
      done.outcome = some (.error error) := by
  obtain ⟨hregistration, hcontrol⟩ := hrefused
  rcases hpermit with hadmitted | ⟨hwaiting, hpermits⟩
  · rw [hadmitted] at hcontrol
    simp only [pollRun, hrun, Option.map_some, hadmitted]
    exact startRun_delivers_refusal hrun (hcontrol.resolve_right huncancelled) hregistration
  · rw [hwaiting] at hcontrol
    simp only [pollRun, hrun, Option.map_some, hwaiting, if_pos hpermits]
    have hrun' : (db.takePermit id).runs[id]? = some { run with stage := .admitted } := by
      rw [takePermit, if_pos hpermits]
      simp [updateRun, hrun]
    exact startRun_delivers_refusal hrun' (hcontrol.resolve_right huncancelled) hregistration

/-! ## Submission -/

theorem runs_submit (hquery : db.queries[query]? = some q) (recipient : Recipient) :
    (db.submit query recipient).1.runs =
      db.runs ++ [.new query q.request (db.register query).2 recipient] := by
  obtain ⟨noted, hbeside, -, -, heq⟩ := Stance.exists_submit query recipient db
  rw [heq, Stance.requestOf, hquery]
  exact congrArg (· ++ [_]) hbeside.runs

theorem runs_reap (id : Nat) (db : Database σ) : (db.reap (.silent σ) id).runs = db.runs := by
  rw [reap]
  split
  · rfl
  split
  · rfl
  next live _ _ =>
    obtain ⟨released, hbeside, heq⟩ := exists_dropQuery live.query db
    rw [heq]
    exact hbeside.runs

theorem store_register (id : Nat) (db : Database σ) : (db.register id).1.store = db.store := by
  obtain ⟨temporaries, heq⟩ := exists_register id db
  rw [heq]

/-- Whether a scan is refused is no matter of the work that can go on. -/
theorem register_ready (id : Nat) (ready : List Job) (db : Database σ) :
    (({ db with ready := ready } : Database σ).register id).2 = (db.register id).2 := by
  simp only [register, beginScan, onTemporary]
  cases db.queries[id]? with
  | none => rfl
  | some query =>
    dsimp only
    split
    · rfl
    · cases query.temporary with
      | none => rfl
      | some temporary =>
        dsimp only
        cases db.temporaries[temporary]? with
        | none => rfl
        | some record =>
          simp only [Temporary.beginScan]
          cases record.isGone <;> rfl

end Database

/-- A run that has a result is running, unless it was cancelled. -/
theorem Execution.Shows.running {e : Execution} {run : Run} (h : e.Shows run) (hsound : e.Sound)
    {result : Except IndexError Answer} (hstage : run.stage = .scanned result)
    (huncancelled : run.control ≠ .cancelled) : run.control = .running := by
  have hfound := (hstage ▸ h.place).eq_found
  have hcontrol := h.control
  cases hsound.fits with
  | found _ hopen =>
    exact hcontrol.trans (hopen.resolve_right fun heq => huncancelled (hcontrol.trans heq))
  | _ => cases hfound

/-! ## From submission to delivery -/

namespace Moment

open Stance Execution

variable {σ : Type} {m m' : Moment σ} {query : Nat}

/-- A query is submitted: by the client, or by a live query for a refresh. -/
inductive Submits (m : Moment σ) : Nat → Moment σ → Prop where
  | client {query : Nat} {recipient : Recipient} {submitted : Moment σ}
      (hdoes : m.Does (.act (.submit query recipient)) submitted) : m.Submits query submitted
  | refresh {task : Nat} {refresh : Refresh} {live : LiveQuery} {submitted : Moment σ}
      (hready : .refresh task ∈ m.db.ready) (htask : m.db.refreshes[task]? = some refresh)
      (hdue : refresh.stage = .launched 0 ∨ refresh.stage = .due)
      (hlive : m.db.lives[refresh.live]? = some live)
      (hcurrent : live.isCurrent refresh.epoch)
      (hdoes : m.Does (.act (.go (.refresh task))) submitted) : m.Submits live.query submitted

theorem Submits.step {submitted : Moment σ} (h : m.Submits query submitted) :
    m.Step submitted := by
  cases h with
  | client hdoes => exact hdoes.step
  | refresh _ _ _ _ _ hdoes => exact hdoes.step

/-- The new run has the request and the registration of its time. -/
theorem Submits.runs {submitted : Moment σ} (h : m.Submits query submitted) {q : Query}
    (hquery : m.db.queries[query]? = some q) :
    ∃ recipient, submitted.db.runs =
      m.db.runs ++ [.new query q.request (m.db.register query).2 recipient] := by
  cases h with
  | @client query recipient _ hdoes =>
    cases hdoes
    exact ⟨recipient, Database.runs_submit hquery recipient⟩
  | @refresh task refresh live _ hready htask hdue hlive hcurrent hdoes =>
    cases hdoes
    let taken := { m.db with ready := m.db.ready.erase (.refresh task) }
    have hsubmitted := @Database.runs_submit σ taken live.query q hquery (.refresh task)
    have hregistered := Database.register_ready live.query (m.db.ready.erase (.refresh task)) m.db
    have hexecuted : (taken.executeLive task refresh.live refresh.epoch).runs =
        (taken.submit live.query (.refresh task)).1.runs := by
      rw [Database.executeLive, hlive]
      simp only [hcurrent]
      rfl
    refine ⟨.refresh task, ?_⟩
    rw [← hregistered, ← hsubmitted, ← hexecuted,
      ← Database.runs_reap refresh.live (taken.executeLive task refresh.live refresh.epoch)]
    simp only [Database.perform, Database.go, List.contains_iff_mem.2 hready, if_true,
      Database.poll, Database.pollRefresh, htask]
    rcases hdue with hdue | hdue <;> simp only [hdue, taken]

/-- A step that completes no scan for the query. -/
def Passes (query : Nat) (m m' : Moment σ) : Prop :=
  ∃ deed, m.Does deed m' ∧ ¬m.Completes query deed

theorem steps_of_passes (h : ReflTransGen (Passes query) m m') : ReflTransGen Step m m' := by
  refine h.lift id fun m m' hpasses => ?_
  obtain ⟨deed, hdoes, -⟩ := hpasses
  exact hdoes.step

theorem retains_of_passes (h : ReflTransGen (Passes query) m m') : m.db.Retains query m'.db := by
  induction h with
  | refl => exact .refl query m.db
  | tail _ hpasses ih =>
    obtain ⟨deed, hdoes, hother⟩ := hpasses
    exact ih.trans (retains_does hdoes hother)

/-- The course of a background run that is not cancelled.  Anything may be done before its scan
ends, and between that and the end of the run anything but to complete another scan for its
query. -/
structure Background (query run : Nat) (submitted before scanned ready finished : Moment σ) :
    Prop where
  waits : ReflTransGen Step submitted before
  underway : run ∈ before.db.scanning
  scans : before.Does (.act (.scanRun run)) scanned
  passes : ReflTransGen (Passes query) scanned ready
  uncancelled : ∃ last, ready.db.runs[run]? = some last ∧ last.isOver = false ∧
    last.control ≠ .cancelled
  finishes : ready.Does (.act (.go (.run run))) finished

/-- What is delivered and what is left are what they are for a run at once.  The store is as that
run leaves it when the scan has ended, and the end of the background run does not change it. -/
structure AgreesWith (query run : Nat) (scanned ready finished : Moment σ)
    (atOnce : Database σ × Outcome) : Prop where
  delivered : ∃ done, finished.db.runs[run]? = some done ∧ done.isOver ∧
    done.outcome = some atOnce.2
  generation : finished.db.lastGeneration query = atOnce.1.lastGeneration query
  scanned : scanned.db.store = atOnce.1.store ∧ scanned.db.temporaries = atOnce.1.temporaries
  finished : finished.db.store = ready.db.store ∧
    finished.db.temporaries = ready.db.temporaries

/-- The database with the query as it was, apart from the generation it has seen last. -/
structure Recalls (query : Nat) (q : Query) (db recalled : Database σ) : Prop where
  store : recalled.store = db.store
  query : recalled.queries[query]? = some { q with lastGeneration := db.lastGeneration query }

/-- A run that has a result and was not cancelled is running, and can go on. -/
theorem Reached.can_finish (h : m.Reached) {id : Nat} {run : Run}
    {result : Except IndexError Answer} (hrun : m.db.runs[id]? = some run)
    (hstage : run.stage = .scanned result) (huncancelled : run.control ≠ .cancelled) :
    run.control = .running ∧ .run id ∈ m.db.ready := by
  constructor
  · obtain ⟨history, hshows⟩ := h.traced run (List.mem_of_getElem? hrun)
    exact hshows.running (sound_after history) hstage huncancelled
  · obtain ⟨hplaced, -⟩ := h.attended
    have hat := hplaced.runs id
    rw [hrun, Option.map_some, hstage] at hat
    have hqueued : m.db.ready.count (.run id) = 1 :=
      (queued_none (s := ⟨m, none⟩) rfl (.run id)).symm.trans hat.1
    exact List.count_pos_iff.1 (by omega)

theorem Background.exists_query {submitted before scanned ready finished : Moment σ} {id : Nat}
    {new : Run} (h : Background query id submitted before scanned ready finished)
    (hreached : submitted.Reached) (hnew : submitted.db.runs[id]? = some new) :
    ∃ q, before.db.queries[new.query]? = some q := by
  obtain ⟨run, hrun, hgoes⟩ := (hreached.onward h.waits).runs id new hnew
  obtain ⟨-, hattended, -⟩ := (hreached.steps h.waits).attended
  have hlt := hattended.submitted id run hrun
  rw [(Run.kept hgoes).1] at hlt
  exact ⟨_, List.getElem?_eq_getElem hlt⟩

/-- A background run agrees with a run at once when its scan ends. -/
theorem Background.agrees {submitted before scanned ready finished : Moment σ} {id : Nat}
    {new : Run} {temporary : Option Nat}
    (h : Background query id submitted before scanned ready finished) (hreached : submitted.Reached)
    (hnew : submitted.db.runs[id]? = some new) (hquery : new.query = query)
    (hregistration : new.registration = .ok temporary) :
    AgreesWith query id scanned ready finished
      (before.db.runRegistered (.silent σ) query new.request temporary) := by
  have hbefore := hreached.steps h.waits
  obtain ⟨run, hrun, hgoes⟩ := (hreached.onward h.waits).runs id new hnew
  obtain ⟨hsameQuery, hrequest, hsame⟩ := Run.kept hgoes
  obtain ⟨hplaced, -⟩ := hbefore.attended
  have hscanning := (hplaced.of_scanning h.underway hrun).1
  have hregistered : run.registered? = temporary := by
    rw [Run.registered?, hscanning, hsame, hregistration]
  obtain ⟨q, hq⟩ : ∃ q, before.db.queries[query]? = some q :=
    hquery ▸ h.exists_query hreached hnew
  -- The scan ends.
  have hscanned : scanned.db = before.db.scanRun (.silent σ) id := by
    cases h.scans
    simp only [Database.perform, Database.endRunScan, List.contains_iff_mem.2 h.underway, if_true]
  obtain ⟨hstore, htemporaries, hresult⟩ := Database.scanRun_agrees hrun query
  rw [← hscanned, hrequest, hregistered] at hstore htemporaries
  rw [← hscanned, hrequest] at hresult
  -- The run is ready with what the scan has come to.
  have hscannedReached := hbefore.step h.scans.step
  have hsteps := steps_of_passes h.passes
  have hready := hscannedReached.steps hsteps
  obtain ⟨last, hlast, hopen, huncancelled⟩ := h.uncancelled
  obtain ⟨found, hfound, honward⟩ := (hscannedReached.onward hsteps).runs id _ hresult
  obtain rfl : found = last := Option.some.inj (hfound.symm.trans hlast)
  have hstage := (Run.scanned_of_goes rfl honward).resolve_right (by simp [hopen])
  have hlastQuery : found.query = query :=
    (Run.kept honward).1.trans (hsameQuery.trans hquery)
  obtain ⟨hrunning, hqueued⟩ := hready.can_finish hlast hstage huncancelled
  -- Its query has seen the same generation as before.
  have hretains : before.db.Retains query ready.db :=
    (retains_does h.scans fun hcompletes => hcompletes).trans (retains_of_passes h.passes)
  obtain ⟨q', hq', hgeneration⟩ := hretains q hq
  have hfinished : finished.db = ({ ready.db with ready := ready.db.ready.erase (.run id) } :
      Database σ).finishRun (.silent σ) id (before.db.store.scan new.request).2 := by
    cases h.finishes
    simp only [Database.perform, Database.go, List.contains_iff_mem.2 hqueued, if_true,
      Database.poll, Database.pollRun, hlast, Option.map_some, hstage]
  obtain ⟨hdelivered, hleft, hstoreLeft, htemporariesLeft⟩ := @Database.finishRun_delivers σ
    { ready.db with ready := ready.db.ready.erase (.run id) } q' id found hlast hrunning
    (hlastQuery ▸ hq') (before.db.store.scan new.request).2
  rw [← hfinished] at hdelivered hleft hstoreLeft htemporariesLeft
  obtain ⟨houtcome, hseen⟩ := Database.runRegistered_delivers hq new.request temporary
  refine ⟨?_, ?_, ⟨hstore, htemporaries⟩, hstoreLeft, htemporariesLeft⟩
  · rw [houtcome, ← hgeneration]
    exact hdelivered
  · rw [hseen, ← hgeneration, ← hlastQuery]
    exact hleft

/-- The query as it was comes to the same whatever its scan is registered with. -/
theorem Recalls.runQuery {q now : Query} {db recalled : Database σ} {granted : Option Nat}
    (h : Recalls query q db recalled) (hnow : db.queries[query]? = some now)
    (hgranted : (recalled.register query).2 = .ok granted) (temporary : Option Nat) :
    (recalled.runQuery (.silent σ) query).2 =
        (db.runRegistered (.silent σ) query q.request temporary).2 ∧
      (recalled.runQuery (.silent σ) query).1.lastGeneration query =
        (db.runRegistered (.silent σ) query q.request temporary).1.lastGeneration query := by
  obtain ⟨houtcome, hseen⟩ := Database.runRegistered_delivers hnow q.request temporary
  have hrecalled := h.query
  rw [Database.lastGeneration, hnow, Option.bind_some] at hrecalled
  have hqueries := queries_register query recalled
  have hstore := (Database.store_register query recalled).trans h.store
  rw [Database.runQuery_eq _ hrecalled]
  cases hregister : recalled.register query with
  | mk registered reply =>
    rw [hregister] at hgranted hqueries hstore
    cases hgranted
    obtain ⟨houtcome', hseen'⟩ := @Database.runRegistered_delivers σ registered query _
      (hqueries ▸ hrecalled) q.request granted
    rw [hstore] at houtcome' hseen'
    exact ⟨houtcome'.trans houtcome.symm, hseen'.trans hseen.symm⟩

/-- A background run comes to what a run of the query at once comes to when its scan ends.

Here `q` is the query when the run is submitted.  If its scan is registered then, the run delivers
and leaves what a run at once does that starts when the scan of the background run ends, under that
registration.  So it delivers what the query as it was would answer then, its scan registered anew.
If the registration is refused, the refusal is what a run at once comes to, and the store is never
scanned for the run.  Unless it was cancelled, the step in which the run has its permit ends it with
the refusal, and that is what it has delivered from then on. -/
theorem Reached.background_agrees (hreached : m.Reached) {q : Query} {submitted : Moment σ}
    (hquery : m.db.queries[query]? = some q) (hsubmits : m.Submits query submitted) :
    (∀ temporary, (m.db.register query).2 = .ok temporary →
      ∀ before scanned ready finished : Moment σ,
        Background query m.db.runs.length submitted before scanned ready finished →
        AgreesWith query m.db.runs.length scanned ready finished
          (before.db.runRegistered (.silent σ) query q.request temporary) ∧
        ∀ recalled, Recalls query q before.db recalled →
          ∀ granted, (recalled.register query).2 = .ok granted →
            (recalled.runQuery (.silent σ) query).2 =
                (before.db.runRegistered (.silent σ) query q.request temporary).2 ∧
              (recalled.runQuery (.silent σ) query).1.lastGeneration query =
                finished.db.lastGeneration query) ∧
    ∀ error, (m.db.register query).2 = .error error →
      (m.db.runQuery (.silent σ) query).2 = .error error ∧
      ∀ later, ReflTransGen Step submitted later →
        m.db.runs.length ∉ later.db.scanning ∧
        (∀ next, later.Does (.act (.go (.run m.db.runs.length))) next →
          next.db.store = later.db.store) ∧
        (∀ run next, later.db.runs[m.db.runs.length]? = some run → run.control ≠ .cancelled →
          run.stage = .admitted ∨ run.stage = .waiting ∧ 0 < later.db.permits →
            .run m.db.runs.length ∈ later.db.ready →
              later.Does (.act (.go (.run m.db.runs.length))) next →
                ∃ done, next.db.runs[m.db.runs.length]? = some done ∧ done.isOver ∧
                  done.outcome = some (.error error)) ∧
        ∀ done, later.db.runs[m.db.runs.length]? = some done → done.isOver →
          done.control ≠ .cancelled → done.outcome = some (.error error) := by
  obtain ⟨recipient, hruns⟩ := hsubmits.runs hquery
  have hsubmitted := hreached.step hsubmits.step
  have hnew : submitted.db.runs[m.db.runs.length]? =
      some (.new query q.request (m.db.register query).2 recipient) := by
    rw [hruns, Database.getElem?_push, if_pos rfl]
  refine ⟨fun temporary hgranted before scanned ready finished hbackground => ?_,
    fun error hrefused => ⟨?_, fun later hsteps => ?_⟩⟩
  · have hagrees := hbackground.agrees hsubmitted hnew rfl hgranted
    refine ⟨hagrees, fun recalled hrecalls granted hregister => ?_⟩
    obtain ⟨now, hnow⟩ := hbackground.exists_query hsubmitted hnew
    obtain ⟨houtcome, hseen⟩ := hrecalls.runQuery hnow hregister temporary
    exact ⟨houtcome, hseen.trans hagrees.generation.symm⟩
  · rw [Database.runQuery_eq _ hquery]
    cases hregister : m.db.register query with
    | mk registered reply =>
      rw [hregister] at hrefused
      cases hrefused
      rfl
  · have hlater := hsubmitted.steps hsteps
    obtain ⟨run, hrun, hgoes⟩ := (hsubmitted.onward hsteps).runs _ _ hnew
    have hkept : run.Refused error := Run.Refused.goes_on ⟨hrefused, Or.inl rfl⟩ hgoes
    have hfound : ∀ other, later.db.runs[m.db.runs.length]? = some other → other.Refused error := by
      intro other hother
      rw [hrun] at hother
      cases hother
      exact hkept
    refine ⟨fun hscanning => ?_, fun next hnext => ?_,
      fun run next hrun huncancelled hpermit hready hnext => ?_,
      fun done hdone hover huncancelled => ?_⟩
    · obtain ⟨hplaced, -⟩ := hlater.attended
      have hstage := (hplaced.of_scanning hscanning hrun).1
      have hnone := hkept.2
      rw [hstage] at hnone
      exact hnone
    · cases hnext
      simp only [Database.perform, Database.go]
      split
      · exact @Database.store_pollRun_of_refused σ
          { later.db with ready := later.db.ready.erase (.run m.db.runs.length) } _ error hfound
      · rfl
    · cases hnext
      simp only [Database.perform, Database.go, List.contains_iff_mem.2 hready, if_true,
        Database.poll]
      exact @Database.pollRun_delivers_refusal σ
        { later.db with ready := later.db.ready.erase (.run m.db.runs.length) } _ run error hrun
        (hfound run hrun) hpermit huncancelled
    · have hended : done.stage = .ended := Run.stage_of_isOver hover
      have hreason := (hfound done hdone).2
      rw [hended] at hreason
      exact hreason.resolve_left huncancelled

/-- A query over a temporary index is submitted, set to show nothing and given up while its scan is
under way, and documents are written before and after the scan.  It answers with what there was when
the scan ended, as it would have at once with its share, and the index is gone. -/
theorem Reached.answers_after_drop : ∃ (m submitted before scanned ready finished : Moment Unit)
    (recalled : Database Unit) (q : Query) (answer : Answer), m.Reached ∧
      m.db.queries[0]? = some q ∧ m.Submits 0 submitted ∧
      Background 0 0 submitted before scanned ready finished ∧
      before.db.queries[0]?.map Query.disposed = some true ∧ Recalls 0 q before.db recalled ∧
      (recalled.runQuery (.silent Unit) 0).2 = .ok answer ∧
      (∃ done, finished.db.runs[0]? = some done ∧ done.isOver ∧
        done.outcome = some (.ok answer)) ∧
      answer.rows.length = 1 ∧ finished.db.lastGeneration 0 = some 1 ∧
      finished.db.store.generation = 2 ∧ scanned.db.store.views = [] := by
  have howns : ∀ {db : Database Unit}, 0 < db.queries.length → db.lives = [] → db.OwnsQuery 0 :=
    fun hlength hnone => ⟨hlength, fun live hlive => by rw [hnone] at hlive; cases hlive⟩
  have hmade := @Reached.create Unit {} .info 0 () _ rfl
  have hqueried := hmade.step (.act (.queryMap Store.bodyById) trivial trivial)
  obtain ⟨hsubmit, hsubmitted⟩ :=
    hqueried.act (.submit 0 .handle) ⟨howns (by decide) rfl, nofun⟩ trivial
  obtain ⟨hstart, hstarted⟩ := hsubmitted.act (.go (.run 0)) trivial trivial
  obtain ⟨hset, hconfigured⟩ := hstarted.act
    (.configure 0 fun settings => { settings with limit := some 0 }) (howns (by decide) rfl) trivial
  obtain ⟨hdrop, hdropped⟩ := hconfigured.act (.dropQuery 0) (howns (by decide) rfl) trivial
  obtain ⟨hwrite, hwritten⟩ := hdropped.does
    (@Does.write Unit _ (.put "a" (.bool true)) "a" (Store.putEdit "a" (.bool true)) _ _ rfl rfl)
  obtain ⟨hscan, hscanned⟩ := hwritten.act (.scanRun 0) trivial trivial
  obtain ⟨hrewrite, hrewritten⟩ := hscanned.does
    (@Does.write Unit _ (.put "a" (.bool false)) "a" (Store.putEdit "a" (.bool false)) _ _ rfl rfl)
  obtain ⟨hfinish, -⟩ := hrewritten.act (.go (.run 0)) trivial trivial
  have hwaits := (((ReflTransGen.single hstart.step).tail hset.step).tail hdrop.step).tail
    hwrite.step
  have hbackground : Background 0 0 _ _ _ _ _ :=
    ⟨hwaits, by decide, hscan, .single ⟨_, hrewrite, nofun⟩, ⟨_, rfl, rfl, nofun⟩, hfinish⟩
  have hrecalls : ∀ (db : Database Unit) (q : Query), Recalls 0 q db { db with
      queries := [{ q with lastGeneration := db.lastGeneration 0 }]
      temporaries := db.temporaries.map fun record => { record with owners := 1 } } :=
    fun _ _ => ⟨rfl, rfl⟩
  obtain ⟨hagrees, -⟩ := hqueried.background_agrees rfl (.client hsubmit)
  obtain ⟨⟨hdelivered, hseen, -⟩, hrecalled⟩ := hagrees _ rfl _ _ _ _ hbackground
  obtain ⟨hanswer, -⟩ := hrecalled _ (hrecalls _ _) _ rfl
  exact ⟨_, _, _, _, _, _, _, _, _, hqueried, rfl, .client hsubmit, hbackground, rfl, hrecalls _ _,
    hanswer.trans rfl, hdelivered, rfl, hseen.trans rfl, rfl, rfl⟩

end Moment

end Viewbase
