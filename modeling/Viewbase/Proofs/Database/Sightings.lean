import Viewbase.Proofs.Database.Dwindling
import Viewbase.Proofs.Database.Upkeep
import Viewbase.Proofs.Query.Cancellation

/-!
The generations that queries have seen last.

They are set down query by query (`Database.seen`).  Whatever the store refuses, an action leaves
them as they are or adds that of a new query, which is that of its source (`adds_perform`); only a
run in its turn can change one, and then its scan was answered and it was not cancelled
(`seen_pollRun`).
-/

namespace Viewbase

/-- The query whose copy the action makes, if it makes one. -/
def Action.source? : Action → Option Nat
  | .copyQuery query => some query
  | .makeLive query => some query
  | _ => none

namespace Database

variable {σ : Type} {c : Client σ} {db db' : Database σ}

/-- The generation of its last good answer, query by query. -/
def seen (db : Database σ) : List (Option Nat) :=
  db.queries.map Query.lastGeneration

theorem lastGeneration_eq (db : Database σ) (id : Nat) :
    db.lastGeneration id = db.seen[id]?.join := by
  rw [lastGeneration, seen, List.getElem?_map]
  cases db.queries[id]? <;> rfl

theorem length_seen (db : Database σ) : db.seen.length = db.queries.length :=
  List.length_map _

theorem seen_of_queries (h : db'.queries = db.queries) : db'.seen = db.seen := by
  rw [seen, h, seen]

theorem seen_updateQuery (id : Nat) {change : Query → Query}
    (h : ∀ query, (change query).lastGeneration = query.lastGeneration) (db : Database σ) :
    (db.updateQuery id change).seen = db.seen := by
  refine List.ext_getElem? fun other => ?_
  simp only [seen, updateQuery, List.getElem?_map, List.getElem?_modify]
  cases db.queries[other]? with
  | none => rfl
  | some query =>
    by_cases hother : id = other
    · simp [hother, h]
    · simp [hother]

theorem seen_addQuery (query : Query) (db : Database σ) :
    (addQuery query db).1.seen = db.seen ++ [query.lastGeneration] := by
  rw [seen, addQuery, List.map_append, List.map_singleton, seen]

/-! ## Requests to the store -/

theorem queries_scan (hc : c.Passive) (request : Request) (db : Database σ) :
    (db.scan c request).1.queries = db.queries := by
  obtain ⟨store, hstore⟩ := exists_scan hc request db
  rw [hstore]

theorem queries_deleteIndex (hc : c.Passive) (index : Descriptor) (db : Database σ) :
    (db.deleteIndex c index).1.queries = db.queries := by
  obtain ⟨store, hstore⟩ := exists_deleteIndex hc index db
  rw [hstore]

theorem queries_of_minded (id : Nat)
    {operation : Temporary → Database σ → Temporary.Step (Database σ)}
    (h : ∀ record, Minded db record (operation record db)) :
    (onTemporary id operation db).1.queries = db.queries := by
  cases hrecord : db.temporaries[id]? with
  | none => rw [onTemporary, hrecord]
  | some record => exact (onTemporary_eq hrecord (h record)).2.2

theorem queries_releaseOwner (hc : c.Passive) (id : Nat) (db : Database σ) :
    (db.releaseOwner c id).1.queries = db.queries :=
  queries_of_minded id fun record => minded_releaseOwner hc record db

theorem queries_releaseDeferred (hc : c.Passive) (id : Nat) (db : Database σ) :
    (db.releaseDeferred c id).queries = db.queries :=
  queries_of_minded id fun record => minded_releaseDeferred hc record db

theorem queries_createTemporary (hc : c.Passive) (map : MapFunction) (db : Database σ) :
    (db.createTemporary c map).1.queries = db.queries := by
  obtain ⟨store, hstore⟩ := exists_createEphemeral hc map db
  rw [createTemporary]
  split
  next heq =>
    rw [heq] at hstore
    cases hstore
    rfl
  next heq =>
    rw [heq] at hstore
    cases hstore
    rfl

theorem queries_endRegistered (hc : c.Passive) (temporary : Option Nat) (db : Database σ) :
    (db.endRegistration c temporary).queries = db.queries := by
  cases temporary with
  | none => rfl
  | some id => exact (queries_endScan hc id db).1

/-! ## Queries -/

theorem seen_markDisposed (id : Nat) (db : Database σ) : (db.markDisposed id).seen = db.seen := by
  refine seen_updateQuery id ?_ db
  exact fun _ => rfl

theorem seen_configure (id : Nat) (change : Settings → Settings) (db : Database σ) :
    (db.configure id change).seen = db.seen := by
  refine seen_updateQuery id ?_ db
  exact fun _ => rfl

theorem seen_release (hc : c.Passive) (id : Nat) (db : Database σ) :
    (db.release c id).seen = db.seen := by
  rw [release]
  split
  · exact seen_markDisposed id db
  · exact (seen_markDisposed id _).trans (seen_of_queries (queries_releaseDeferred hc _ db))

theorem seen_dropQuery (hc : c.Passive) (id : Nat) (db : Database σ) :
    (db.dropQuery c id).seen = db.seen := by
  rw [dropQuery]
  split
  · exact seen_release hc id _
  · exact seen_release hc id db

theorem seen_dispose (hc : c.Passive) (id : Nat) (db : Database σ) :
    (db.dispose c id).1.seen = db.seen := by
  rw [dispose]
  split
  · rfl
  split
  · rfl
  split
  · exact seen_markDisposed id db
  next temporary _ =>
    have hreleased := seen_of_queries (queries_releaseOwner hc temporary db)
    split
    next heq => rwa [heq] at hreleased
    next heq =>
      rw [heq] at hreleased
      exact (seen_markDisposed id _).trans hreleased

/-- From `db` to `db'` no query was made, or one that has seen what its source has. -/
def Adds (source : Option Nat) (db db' : Database σ) : Prop :=
  db'.seen = db.seen ∨ db'.seen = db.seen ++ [source.bind db.lastGeneration]

theorem adds_queryMap (hc : c.Passive) (map : MapFunction) (db : Database σ) :
    Adds none db (db.queryMap c map).1 := by
  have hcreated := seen_of_queries (queries_createTemporary hc map db)
  rw [queryMap]
  split
  next heq =>
    rw [heq] at hcreated
    exact .inl hcreated
  next heq =>
    rw [heq] at hcreated
    exact .inr ((seen_addQuery _ _).trans (congrArg (· ++ [none]) hcreated))

theorem adds_copyQuery (id : Nat) (db : Database σ) : Adds (some id) db (db.copyQuery id).1 := by
  rw [copyQuery]
  split
  · exact .inl rfl
  next query hquery =>
    have hlast : db.lastGeneration id = query.lastGeneration := by
      rw [lastGeneration, hquery, Option.bind_some]
    split
    · exact .inl rfl
    · have hshared := seen_of_queries (queries_shareTemporary query db)
      split
      next heq =>
        rw [heq] at hshared
        exact .inl hshared
      next heq =>
        rw [heq] at hshared
        refine .inr ((seen_addQuery _ _).trans ?_)
        rw [hshared, Option.bind_some, hlast]

theorem adds_makeLive (id : Nat) (db : Database σ) : Adds (some id) db (db.makeLive id).1 := by
  have hcopied := adds_copyQuery id db
  rw [makeLive]
  split
  · exact .inl rfl
  split
  next heq => rwa [heq] at hcopied
  next heq => rwa [heq] at hcopied

/-- What queries have seen once one of them has come to an outcome. -/
def seenAfter (query : Nat) (seen : List (Option Nat)) : Outcome → List (Option Nat)
  | .ok answer => seen.set query (some answer.generation)
  | .error _ => seen

theorem length_seenAfter (query : Nat) (seen : List (Option Nat)) (outcome : Outcome) :
    (seenAfter query seen outcome).length = seen.length := by
  cases outcome with
  | ok answer => exact List.length_set
  | error error => rfl

theorem seen_complete (query : Nat) (target : Target) (result : Except IndexError Answer)
    (db : Database σ) : (db.complete query target result).1.seen =
      seenAfter query db.seen (db.complete query target result).2 := by
  cases result with
  | ok answer =>
    refine List.ext_getElem? fun other => ?_
    simp only [complete, seenAfter, seen, note, count, updateQuery, List.getElem?_map,
      List.getElem?_modify, List.getElem?_set]
    by_cases hother : query = other
    · subst hother
      cases hquery : db.queries[query]? with
      | none => simpa using hquery
      | some q => simp [(List.getElem?_eq_some_iff.1 hquery).1]
    · simp [hother]
  | error error => rfl

/-! ## Runs -/

theorem queries_submit (id : Nat) (recipient : Recipient) (db : Database σ) :
    (db.submit id recipient).1.queries = db.queries :=
  Stance.queries_register id db

theorem queries_cancel (id : Nat) (db : Database σ) : (db.cancel id).1.queries = db.queries := by
  rw [cancel]
  split <;> rfl

theorem queries_takePermit (id : Nat) (db : Database σ) :
    (db.takePermit id).queries = db.queries := by
  rw [takePermit]
  split <;> rfl

theorem queries_givePermit (db : Database σ) : db.givePermit.queries = db.queries := by
  rw [givePermit]
  split <;> rfl

theorem queries_deliver (hc : c.Passive) (id : Nat) (recipient : Recipient) (outcome : Outcome)
    (db : Database σ) : (db.deliver c id recipient outcome).queries = db.queries := by
  rw [deliver_passive hc]
  cases recipient <;> rfl

theorem queries_abandon (id : Nat) (recipient : Recipient) (db : Database σ) :
    (db.abandon id recipient).queries = db.queries := by
  cases recipient <;> rfl

theorem queries_scanRun (hc : c.Passive) (id : Nat) (db : Database σ) :
    (db.scanRun c id).queries = db.queries := by
  rw [scanRun]
  split
  · rfl
  next run _ =>
    exact (queries_endRegistered hc run.registered? _).trans (queries_scan hc run.request _)

/-- A run that starts, or is ended instead, completes no scan. -/
theorem seen_startRun (hc : c.Passive) (id : Nat) (db : Database σ) :
    (db.startRun c id).seen = db.seen := by
  rw [startRun]
  split
  · rfl
  next run _ =>
    split
    next =>
      dsimp only
      split
      · exact seen_of_queries ((queries_abandon id run.recipient _).trans
          ((queries_endRegistered hc _ _).trans (queries_givePermit _)))
      · exact seen_of_queries ((queries_abandon id run.recipient _).trans (queries_givePermit _))
    next control error _ _ =>
      dsimp only
      rw [conclude]
      split
      · exact seen_of_queries ((queries_deliver hc id run.recipient _ _).trans
          (queries_givePermit _))
      · exact seen_of_queries ((queries_deliver hc id run.recipient _ _).trans
          (queries_givePermit _))
    next => rfl

theorem queries_cancelRefused (id : Nat) (db : Database σ) :
    (db.cancelRefused id).queries = db.queries := by
  rw [cancelRefused, queries_cancel, startRefused, ensurePermit]
  dsimp only [count, updateRun]
  split
  · exact queries_takePermit id _
  · rfl

/-- Nor does one that is cancelled after its start, since its scan was refused. -/
theorem seen_overtakeRun (hc : c.Passive) {id : Nat} {run : Run} {error : QueryError}
    (hat : db.AtRefusal id run error) : (db.overtakeRun c id error).seen = db.seen := by
  rw [overtakeRun, endRefused, hat.getElem?_cancelRefused]
  exact seen_of_queries ((queries_deliver hc id run.recipient _ _).trans
    ((queries_givePermit _).trans (queries_cancelRefused id db)))

theorem seen_takePermit (id : Nat) (db : Database σ) : (db.takePermit id).seen = db.seen :=
  seen_of_queries (queries_takePermit id db)

end Database

namespace Run

/-- What a run finds if it goes on to its end now, unless it was cancelled. -/
def finding? (run : Run) : Option Execution.Found :=
  match run.stage, run.control, run.registration with
  | .scanned result, .running, _ => some (.scanned result)
  | .waiting, .pending, .error error => some (.refused error)
  | .admitted, .pending, .error error => some (.refused error)
  | _, _, _ => none

/-- What a run comes to if it ends now, its query having seen this generation last. -/
def due (generation : Option Nat) (run : Run) : Outcome :=
  run.finding?.elim (.error .cancelled) (Execution.Found.outcome generation)

variable {run : Run} {generation : Option Nat} {answer : Answer}

/-- A run comes to a good answer only if its scan has ended with that. -/
theorem of_due_ok (h : run.due generation = .ok answer) :
    run.stage = .scanned (.ok answer) ∧ run.control = .running := by
  rw [due, finding?] at h
  split at h
  next result hstage hcontrol =>
    cases result with
    | ok found =>
      cases h
      exact ⟨hstage, hcontrol⟩
    | error error => cases h
  all_goals cases h

end Run

namespace Database

variable {σ : Type} {c : Client σ} {db db' : Database σ} {id : Nat} {run : Run}

theorem seenAfter_due (generation : Option Nat)
    (hunscanned : ∀ result, run.stage ≠ .scanned result) (query : Nat) (seen : List (Option Nat)) :
    seenAfter query seen (run.due generation) = seen := by
  cases hdue : run.due generation with
  | ok answer => exact absurd (Run.of_due_ok hdue).1 (hunscanned _)
  | error error => rfl

theorem seen_finishRun (hc : c.Passive) (hrun : db.runs[id]? = some run)
    {result : Except IndexError Answer} (hstage : run.stage = .scanned result)
    (generation : Option Nat) :
    (db.finishRun c id result).seen = seenAfter run.query db.seen (run.due generation) := by
  have hgiven : db.givePermit.seen = db.seen := seen_of_queries (queries_givePermit db)
  have hdelivered (outcome : Outcome) (db : Database σ) :=
    seen_of_queries (queries_deliver hc id run.recipient outcome db)
  rw [finishRun, hrun, Run.due, Run.finding?, hstage, ← hgiven]
  cases hcontrol : run.control with
  | running =>
    simp only [conclude, hcontrol, Control.finish, hdelivered, seen_complete]
    cases result <;> rfl
  | _ =>
    simp only [conclude, hcontrol, Control.finish, hdelivered]
    rfl

/-- A run in its turn sets what its query has seen if it comes to a good answer. -/
theorem seen_pollRun (hc : c.Passive) (hrun : db.runs[id]? = some run) (generation : Option Nat) :
    (db.pollRun c id).seen = seenAfter run.query db.seen (run.due generation) := by
  have hstarted (hunscanned : ∀ result, run.stage ≠ .scanned result) (db' : Database σ)
      (hsame : db'.seen = db.seen) : db'.seen = seenAfter run.query db.seen (run.due generation) :=
    hsame.trans (seenAfter_due generation hunscanned run.query db.seen).symm
  rw [pollRun, hrun, Option.map_some]
  cases hstage : run.stage with
  | scanned result => exact seen_finishRun hc hrun hstage generation
  | waiting =>
    refine hstarted (by simp [hstage]) _ ?_
    dsimp only
    split
    · exact (seen_startRun hc id _).trans (seen_takePermit id db)
    · exact seen_takePermit id db
  | admitted => exact hstarted (by simp [hstage]) _ (seen_startRun hc id db)
  | scanning => exact hstarted (by simp [hstage]) db rfl
  | ended => exact hstarted (by simp [hstage]) db rfl

/-! ## Live queries -/

theorem queries_startLive (id : Nat) (db : Database σ) :
    (db.startLive id).1.queries = db.queries := by
  rw [startLive]
  split
  · rfl
  split
  · rfl
  split
  · rfl
  dsimp only
  split <;> rfl

theorem seen_disposeLive (hc : c.Passive) (id : Nat) (db : Database σ) :
    (db.disposeLive c id).seen = db.seen := by
  rw [disposeLive]
  split
  · rfl
  split
  · rfl
  next live _ _ =>
    have hstopped := queries_stopLive id
      (db.updateLive id fun live => { live with disposed := true })
    exact (seen_release hc live.query _).trans (seen_of_queries hstopped)

theorem seen_reap (hc : c.Passive) (id : Nat) (db : Database σ) :
    (db.reap c id).seen = db.seen := by
  rw [reap]
  split
  · rfl
  split
  · rfl
  · exact seen_dropQuery hc _ db

theorem seen_dropLive (hc : c.Passive) (id : Nat) (db : Database σ) :
    (db.dropLive c id).seen = db.seen :=
  (seen_reap hc id _).trans (seen_of_queries (queries_stopLive id db))

theorem queries_removeListener (id callback : Nat) (db : Database σ) :
    (db.removeListener id callback).1.queries = db.queries := by
  rw [removeListener]
  split <;> rfl

theorem queries_executeLive (task id epoch : Nat) (db : Database σ) :
    (db.executeLive task id epoch).queries = db.queries := by
  rw [executeLive]
  split
  · rfl
  next live _ =>
    split
    · rfl
    · exact queries_submit live.query (.refresh task) db

theorem queries_changeLive (id epoch : Nat) (change : Change) (db : Database σ) :
    (db.changeLive id epoch change).queries = db.queries := by
  rw [changeLive]
  split
  · rfl
  split
  · rfl
  split <;> rfl

theorem queries_finishLive (hc : c.Passive) (id epoch : Nat) (outcome : Outcome)
    (db : Database σ) : (db.finishLive c id epoch outcome).queries = db.queries := by
  have hsettled (live : LiveQuery) (db : Database σ) :
      (db.settleLive id live).queries = db.queries := by
    rw [settleLive]
    split <;> rfl
  have hrecorded (live : LiveQuery) (verdict : LiveQuery.Verdict) (db : Database σ) :
      (db.recordVerdict live verdict).queries = db.queries := by
    cases verdict <;> rfl
  rw [finishLive]
  split
  · rfl
  split
  · rfl
  · simp only [tellListeners_passive hc]
    split
    · exact (hsettled _ _).trans (hrecorded _ _ db)
    · exact (hsettled _ _).trans (hrecorded _ _ db)

theorem seen_pollRefresh (hc : c.Passive) (task : Nat) (db : Database σ) :
    (db.pollRefresh c task).seen = db.seen := by
  rw [pollRefresh]
  split
  · rfl
  next refresh _ =>
    have hexecuted := (seen_reap hc refresh.live _).trans
      (seen_of_queries (queries_executeLive task refresh.live refresh.epoch db))
    dsimp only
    split
    · exact hexecuted
    · rfl
    · exact hexecuted
    · split
      · rfl
      next submitted _ =>
        have hfinished := seen_of_queries
          (queries_finishLive hc refresh.live refresh.epoch submitted.answer db)
        exact (seen_reap hc refresh.live _).trans hfinished
    · rfl
    · rfl

theorem queries_fireNext (db : Database σ) : db.fireNext.queries = db.queries := by
  obtain ⟨clock, timers, refreshes, ready, heq, -⟩ := exists_fireNext db
  rw [heq]

/-! ## Writes -/

theorem queries_notifyOne (hc : c.Passive) (change : Change) (observer : Observer)
    (db : Database σ) : (db.notifyOne c change observer).queries = db.queries := by
  cases observer with
  | client callback => rw [notifyOne, hc.notify]
  | live id epoch => exact queries_changeLive id epoch change db

theorem queries_announce (hc : c.Passive) (change : Change) (db : Database σ) :
    (db.announce c change).queries = db.queries := by
  rw [announce]
  generalize db.store.audience = audience
  induction audience generalizing db with
  | nil => rfl
  | cons observer audience ih => exact (ih _).trans (queries_notifyOne hc change observer db)

theorem queries_write (hc : c.Passive) (id : String) (edit : Store.Edit) (db : Database σ) :
    (db.write c id edit).1.queries = db.queries := by
  rw [write]
  split
  · rfl
  · exact queries_announce hc _ _

/-! ## Actions -/

/-- No query is run at once, and no run goes on. -/
def SparesSeen : Action → Prop
  | .runQuery _ => False
  | .go (.run _) => False
  | _ => True

/-- Short of a run in its turn, what queries have seen stays, but for a query that is made. -/
theorem adds_perform (hc : c.Passive) {action : Action} (hspares : SparesSeen action)
    (db : Database σ) : Adds action.source? db (db.perform c action) := by
  cases action with
  | put id body => exact .inl (seen_of_queries (queries_write hc id _ db))
  | delete id => exact .inl (seen_of_queries (queries_write hc id _ db))
  | addConflict id rev => exact .inl (seen_of_queries (queries_write hc id _ db))
  | resolveConflicts id => exact .inl (seen_of_queries (queries_write hc id _ db))
  | deleteIndex index => exact .inl (seen_of_queries (queries_deleteIndex hc index db))
  | scan request => exact .inl (seen_of_queries (queries_scan hc request db))
  | queryIndex index => exact .inr (seen_addQuery _ db)
  | queryDocuments => exact .inr (seen_addQuery _ db)
  | queryMap map => exact adds_queryMap hc map db
  | copyQuery query => exact adds_copyQuery query db
  | configure query change => exact .inl (seen_configure query change db)
  | disposeQuery query => exact .inl (seen_dispose hc query db)
  | dropQuery query => exact .inl (seen_dropQuery hc query db)
  | runQuery query => exact hspares.elim
  | submit query recipient => exact .inl (seen_of_queries (queries_submit query recipient db))
  | cancel run => exact .inl (seen_of_queries (queries_cancel run db))
  | acquireOwner temporary => exact .inl (seen_of_queries (queries_acquireOwner temporary db))
  | releaseOwner temporary => exact .inl (seen_of_queries (queries_releaseOwner hc temporary db))
  | releaseDeferred temporary =>
    exact .inl (seen_of_queries (queries_releaseDeferred hc temporary db))
  | deleteTemporary temporary =>
    exact .inl (seen_of_queries (queries_of_minded temporary fun record =>
      minded_deleteTemporary hc record db))
  | beginScan temporary =>
    exact .inl (seen_of_queries (queries_of_minded temporary fun record =>
      minded_beginScan record db))
  | endScan temporary => exact .inl (seen_of_queries (queries_endScan hc temporary db).1)
  | makeLive query => exact adds_makeLive query db
  | startLive live => exact .inl (seen_of_queries (queries_startLive live db))
  | stopLive live => exact .inl (seen_of_queries (queries_stopLive live db))
  | disposeLive live => exact .inl (seen_disposeLive hc live db)
  | dropLive live => exact .inl (seen_dropLive hc live db)
  | removeListener live callback =>
    exact .inl (seen_of_queries (queries_removeListener live callback db))
  | go job =>
    cases job with
    | run id => exact hspares.elim
    | refresh task =>
      simp only [perform, go]
      split
      · exact .inl (seen_pollRefresh hc task _)
      · exact .inl rfl
  | scanRun run =>
    simp only [perform, endRunScan]
    split
    · exact .inl (seen_of_queries (queries_scanRun hc run db))
    · exact .inl rfl
  | fire => exact .inl (seen_of_queries (queries_fireNext db))
  | _ => exact .inl rfl

end Database

end Viewbase
