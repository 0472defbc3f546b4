import Viewbase.Proofs.Database.Sightings

/-!
The generation that a query has seen last.

It changes only when a scan for the query is completed: by a run of the query at once, or when a
background run of it that was not cancelled finishes (`Moment.Completes`).  Whatever else is done,
the query keeps it, also when it is configured anew or given up (`retains_does`).
-/

namespace Viewbase

namespace Database

variable {σ : Type} {c : Client σ} {db db' db'' : Database σ} {query : Nat}

/-- The query is there still, and the generation it has seen last is the same. -/
def Retains (query : Nat) (db db' : Database σ) : Prop :=
  ∀ q, db.queries[query]? = some q →
    ∃ q', db'.queries[query]? = some q' ∧ q'.lastGeneration = q.lastGeneration

theorem Retains.refl (query : Nat) (db : Database σ) : Retains query db db :=
  fun q hq => ⟨q, hq, rfl⟩

theorem Retains.trans (h : Retains query db db') (h' : Retains query db' db'') :
    Retains query db db'' := by
  intro q hq
  obtain ⟨q', hq', hlast⟩ := h q hq
  obtain ⟨q'', hq'', hlast'⟩ := h' q' hq'
  exact ⟨q'', hq'', hlast'.trans hlast⟩

theorem Retains.lastGeneration (h : Retains query db db') {q : Query}
    (hq : db.queries[query]? = some q) : db'.lastGeneration query = db.lastGeneration query := by
  obtain ⟨q', hq', hlast⟩ := h q hq
  rw [Database.lastGeneration, Database.lastGeneration, hq, hq', Option.bind_some,
    Option.bind_some, hlast]

/-- It is enough that what the query has seen is set down as before. -/
theorem retains_of_seen (h : ∀ generation, db.seen[query]? = some generation →
    db'.seen[query]? = some generation) : Retains query db db' := by
  intro q hq
  have hseen : db'.seen[query]? = some q.lastGeneration :=
    h _ (by rw [seen, List.getElem?_map, hq, Option.map_some])
  rw [seen, List.getElem?_map] at hseen
  exact Option.map_eq_some_iff.1 hseen

theorem retains_of_eq (h : db'.seen = db.seen) : Retains query db db' :=
  retains_of_seen fun _ hseen => h ▸ hseen

theorem retains_of_queries (h : db'.queries = db.queries) : Retains query db db' :=
  retains_of_eq (seen_of_queries h)

/-- A good answer of another query may be set down. -/
theorem retains_of_seenAfter {id : Nat} {outcome : Outcome}
    (h : db'.seen = seenAfter id db.seen outcome)
    (hother : ∀ answer, outcome = .ok answer → id ≠ query) : Retains query db db' := by
  cases outcome with
  | ok answer =>
    refine retains_of_seen fun generation hseen => ?_
    rw [h, seenAfter, List.getElem?_set_ne (hother answer rfl), hseen]
  | error error => exact retains_of_eq h

theorem Adds.retains {source : Option Nat} (h : Adds source db db') : Retains query db db' := by
  rcases h with hsame | hadded
  · exact retains_of_eq hsame
  · refine retains_of_seen fun generation hseen => ?_
    rw [hadded, List.getElem?_append_left (List.getElem?_eq_some_iff.1 hseen).1, hseen]

theorem retains_complete {id : Nat} (hother : id ≠ query) (target : Target)
    (result : Except IndexError Answer) (db : Database σ) :
    Retains query db (db.complete id target result).1 :=
  retains_of_seenAfter (seen_complete id target result db) fun _ _ => hother

theorem retains_runQuery (hc : c.Passive) {id : Nat}
    (h : id = query → ∀ temporary, (db.register id).2 ≠ .ok temporary) :
    Retains query db (db.runQuery c id).1 := by
  rw [runQuery]
  split
  · exact .refl query db
  next source _ =>
    have hregistered := Stance.queries_register id db
    split
    next heq =>
      rw [heq] at hregistered
      exact retains_of_queries hregistered
    next registered temporary heq =>
      rw [heq] at hregistered h
      have hother : id ≠ query := fun hid => h hid temporary rfl
      have hended := (queries_endRegistered hc temporary _).trans
        (queries_scan hc source.request registered)
      exact (retains_of_queries (hended.trans hregistered)).trans (retains_complete hother _ _ _)

/-- A run in its turn completes a scan if its own has ended and it was not cancelled. -/
theorem retains_pollRun (hc : c.Passive) {id : Nat}
    (h : ∀ run result, db.runs[id]? = some run → run.stage = .scanned result →
      run.control = .running → run.query ≠ query) : Retains query db (db.pollRun c id) := by
  cases hrun : db.runs[id]? with
  | none =>
    rw [pollRun, hrun]
    exact .refl query db
  | some run =>
    refine retains_of_seenAfter (seen_pollRun hc hrun none) fun answer hdue => ?_
    obtain ⟨hstage, hcontrol⟩ := Run.of_due_ok hdue
    exact h run _ hrun hstage hcontrol

end Database

/-! ## Deeds -/

namespace Moment

variable {σ : Type} {m m' : Moment σ} {query : Nat} {deed : Deed σ}

/-- A scan for the query is completed: at once, or by a background run that was not cancelled. -/
def Completes (m : Moment σ) (query : Nat) : Deed σ → Prop
  | .act (.runQuery id) => id = query ∧ ∃ temporary, (m.db.register id).2 = .ok temporary
  | .act (.go (.run id)) => ∃ run result, m.db.runs[id]? = some run ∧ run.query = query ∧
      run.stage = .scanned result ∧ run.control = .running
  | _ => False

theorem retains_perform {action : Action} (h : ¬m.Completes query (.act action)) :
    m.db.Retains query (m.db.perform (.silent σ) action) := by
  have hsilent := Client.passive_silent σ
  have hspared (action : Action) (hspares : Database.SparesSeen action) :
      m.db.Retains query (m.db.perform (.silent σ) action) :=
    (Database.adds_perform hsilent hspares m.db).retains
  cases action with
  | runQuery id =>
    exact Database.retains_runQuery hsilent fun hid temporary hok => h ⟨hid, temporary, hok⟩
  | go job =>
    cases job with
    | run id =>
      simp only [Database.perform, Database.go]
      split
      · change Database.Retains query { m.db with ready := m.db.ready.erase (.run id) } _
        exact Database.retains_pollRun hsilent fun run result hrun hstage hcontrol hquery =>
          h ⟨run, result, hrun, hquery, hstage, hcontrol⟩
      · exact .refl query m.db
    | refresh task => exact hspared (.go (.refresh task)) trivial
  | _ =>
    refine hspared _ ?_
    trivial

/-- Besides actions, nothing that is done is seen by queries. -/
theorem seen_does (hdeed : ∀ action, deed ≠ .act action) (h : m.Does deed m') :
    m'.db.seen = m.db.seen := by
  have hsilent := Client.passive_silent σ
  cases h with
  | act action hpermitted htells => exact absurd rfl (hdeed action)
  | write hedit hwrite => rfl
  | tell observer change =>
    exact Database.seen_of_queries (Database.queries_notifyOne hsilent change observer _)
  | @takeIn _ task run refresh submitted =>
    exact Database.seen_of_queries
      (Database.queries_finishLive hsilent refresh.live refresh.epoch submitted.answer _)
  | @retire _ task refresh =>
    exact Database.seen_reap hsilent refresh.live
      (m.db.updateRefresh task fun refresh => { refresh with stage := .over })
  | touch client => rfl

/-- Whatever is done short of completing a scan for it, a query keeps the generation it has seen
last. -/
theorem retains_does (h : m.Does deed m') (hother : ¬m.Completes query deed) :
    m.db.Retains query m'.db := by
  by_cases hact : ∃ action, deed = .act action
  · obtain ⟨action, rfl⟩ := hact
    cases h
    exact retains_perform hother
  · exact Database.retains_of_eq (seen_does (fun action heq => hact ⟨action, heq⟩) h)

end Moment

end Viewbase
