import Viewbase.Proofs.Database.Steps

/-!
What is done in a step, and which listeners are called in its course.

A step says what became of a moment, a deed says what was done to it (`step_iff`).  Listeners of a
live query are called only when a refresh takes its outcome in, one after another and after the
live query has changed (`finishLive_eq`); no action calls any (`perform_listening`).  So a deed that
is done with listeners is the deed, and then the calls of one live query (`Does.callsMade`).
-/

namespace Viewbase

/-! ## Calls of listeners -/

/-- A client that lets every request pass and minds only what listeners of live queries are told. -/
def Client.listening {σ : Type} (hear : Nat → Refreshed → Database σ → Database σ) : Client σ where
  notify callback
    | .refreshed change => hear callback change
    | _ => fun db => db
  beforeScan _ db := (db, none)
  beforeDelete _ db := (db, none)
  beforeCreate db := (db, none)

namespace Database

variable {σ : Type}

/-- Who is told of what, in order, when a live query takes an outcome in. -/
def tellings (db : Database σ) (id epoch : Nat) (outcome : Outcome) : List (Nat × Refreshed) :=
  match db.lives[id]? with
  | none => []
  | some live =>
    if !live.isCurrent epoch then []
    else
      match live.announcement? (live.judge outcome) with
      | none => []
      | some change => live.listeners.map fun listener => (listener, change)

/-- An outcome of another epoch, or for a stopped live query, is told to nobody. -/
theorem tellings_of_lapsed {db : Database σ} {id epoch : Nat} {live : LiveQuery}
    (hlive : db.lives[id]? = some live) (hlapsed : live.isCurrent epoch = false)
    (outcome : Outcome) : db.tellings id epoch outcome = [] := by
  simp only [tellings, hlive, hlapsed, Bool.not_false, if_true]

/-- Call listeners in turn. -/
def callAll (c : Client σ) (calls : List (Nat × Refreshed)) (db : Database σ) : Database σ :=
  calls.foldl (fun db call => c.notify call.1 (.refreshed call.2) db) db

theorem tellListeners_eq (c : Client σ) (change : Refreshed) (listeners : List Nat)
    (db : Database σ) :
    db.tellListeners c change listeners =
      db.callAll c (listeners.map fun listener => (listener, change)) := by
  rw [tellListeners, callAll, List.foldl_map]

/-- The live query has taken the outcome in before the first listener is called. -/
theorem finishLive_eq (c : Client σ) (id epoch : Nat) (outcome : Outcome) (db : Database σ) :
    db.finishLive c id epoch outcome =
      (db.finishLive (.silent σ) id epoch outcome).callAll c (db.tellings id epoch outcome) := by
  cases hlive : db.lives[id]? with
  | none =>
    simp only [finishLive, tellings, hlive]
    rfl
  | some live =>
    simp only [finishLive, tellings, hlive]
    cases live.isCurrent epoch with
    | false => rfl
    | true =>
      simp only [Bool.not_true, Bool.false_eq_true, if_false]
      cases live.announcement? (live.judge outcome) with
      | none => rfl
      | some change => simp only [tellListeners_eq c, Stance.tellListeners_silent]

/-- Whatever the listeners do, no action of a step calls one. -/
theorem perform_listening (hear : Nat → Refreshed → Database σ → Database σ) {db : Database σ}
    {action : Action} (h : db.TellsNobody action) :
    db.perform (.listening hear) action = db.perform (.silent σ) action := by
  cases action with
  | go job =>
    cases job with
    | run id => rfl
    | refresh task =>
      simp only [perform, go, poll, pollRefresh]
      split
      · split
        · rfl
        next refresh hrefresh =>
          split
          · rfl
          · rfl
          · rfl
          next run hstage => exact absurd hstage (h refresh hrefresh run)
          · rfl
          · rfl
      · rfl
  | _ => rfl

end Database

/-! ## Deeds -/

/-- What is done in a step. -/
inductive Deed (σ : Type) where
  | act (action : Action)
  | write (command : Command)
  | tell (observer : Observer) (change : Change)
  | takeIn (task : Nat)
  | retire (task : Nat)
  | touch (client : σ)

namespace Moment

variable {σ : Type} {m m' : Moment σ} {deed : Deed σ}

/-- What a deed makes of a moment. -/
inductive Does : Moment σ → Deed σ → Moment σ → Prop where
  | act {m : Moment σ} (action : Action) (hpermitted : m.db.Permits action)
      (htells : m.db.TellsNobody action) :
      Does m (.act action) { m with db := m.db.perform (.silent σ) action }
  | write {m : Moment σ} {command : Command} {id : String} {edit : Store.Edit} {store : Store}
      {doc : Document} (hedit : command.edit? = some (id, edit))
      (hwrite : m.db.store.write id edit = .ok (store, doc)) :
      Does m (.write command)
        { m with
          db := { m.db with store := store }
          pending := m.pending ++ store.audience.map fun observer =>
            (observer, ⟨store.generation, [id]⟩) }
  | tell {db : Database σ} {earlier later : List (Observer × Change)} {telling : List Nat}
      (observer : Observer) (change : Change) :
      Does ⟨db, earlier ++ (observer, change) :: later, telling⟩ (.tell observer change)
        ⟨db.notifyOne (.silent σ) change observer, earlier ++ later, telling⟩
  | takeIn {m : Moment σ} {task run : Nat} {refresh : Refresh} {submitted : Run}
      (hready : .refresh task ∈ m.db.ready) (htask : m.db.refreshes[task]? = some refresh)
      (hstage : refresh.stage = .awaiting run) (hrun : m.db.runs[run]? = some submitted) :
      Does m (.takeIn task)
        { m with
          db := { m.db with ready := m.db.ready.erase (.refresh task) }.finishLive (.silent σ)
            refresh.live refresh.epoch submitted.answer
          telling := task :: m.telling }
  | retire {m : Moment σ} {task : Nat} {refresh : Refresh} (htelling : task ∈ m.telling)
      (htask : m.db.refreshes[task]? = some refresh) :
      Does m (.retire task)
        { m with
          db := (m.db.updateRefresh task fun refresh => { refresh with stage := .over }).reap
            (.silent σ) refresh.live
          telling := m.telling.filter fun other => other != task }
  | touch {m : Moment σ} (client : σ) :
      Does m (.touch client) { m with db := { m.db with client := client } }

theorem Does.step (h : m.Does deed m') : m.Step m' := by
  cases h with
  | act action hpermitted htells => exact .act action hpermitted htells
  | write hedit hwrite => exact .write hedit hwrite
  | tell observer change => exact .tell observer change
  | takeIn hready htask hstage hrun => exact .takeIn hready htask hstage hrun
  | retire htelling htask => exact .retire htelling htask
  | touch client => exact .touch client

theorem Reached.does (h : m.Reached) (hdoes : m.Does deed m') : m.Does deed m' ∧ m'.Reached :=
  ⟨hdoes, h.step hdoes.step⟩

theorem Reached.act (h : m.Reached) (action : Action) (hpermitted : m.db.Permits action)
    (htells : m.db.TellsNobody action) :
    m.Does (.act action) { m with db := m.db.perform (.silent σ) action } ∧
      Reached { m with db := m.db.perform (.silent σ) action } :=
  h.does (.act action hpermitted htells)

/-- Every step is a deed. -/
theorem step_iff : m.Step m' ↔ ∃ deed, m.Does deed m' := by
  constructor
  · intro h
    cases h with
    | act action hpermitted htells => exact ⟨_, .act action hpermitted htells⟩
    | write hedit hwrite => exact ⟨_, .write hedit hwrite⟩
    | tell observer change => exact ⟨_, .tell observer change⟩
    | takeIn hready htask hstage hrun => exact ⟨_, .takeIn hready htask hstage hrun⟩
    | retire htelling htask => exact ⟨_, .retire htelling htask⟩
    | touch client => exact ⟨_, .touch client⟩
  · rintro ⟨deed, h⟩
    exact h.step

/-- The refresh of a task and what it would take in. -/
def taken? (m : Moment σ) (task : Nat) : Option (Refresh × Outcome) :=
  match m.db.refreshes[task]? with
  | none => none
  | some refresh =>
    match refresh.stage with
    | .awaiting run => m.db.runs[run]?.map fun submitted => (refresh, submitted.answer)
    | _ => none

/-- The calls of listeners of a live query in the course of a deed. -/
def calls (m : Moment σ) (id : Nat) : Deed σ → List (Nat × Refreshed)
  | .takeIn task =>
    match m.taken? task with
    | some (refresh, outcome) =>
      if refresh.live = id then m.db.tellings id refresh.epoch outcome else []
    | none => []
  | _ => []

/-- What a deed makes of the database for a client. -/
def doneBy (c : Client σ) (m : Moment σ) : Deed σ → Database σ
  | .act action => m.db.perform c action
  | .write command =>
    match command.edit? with
    | none => m.db
    | some (id, edit) =>
      match m.db.store.write id edit with
      | .error _ => m.db
      | .ok (store, _) => { m.db with store := store }
  | .tell observer change => m.db.notifyOne c change observer
  | .takeIn task =>
    match m.taken? task with
    | none => m.db
    | some (refresh, outcome) =>
      { m.db with ready := m.db.ready.erase (.refresh task) }.finishLive c refresh.live
        refresh.epoch outcome
  | .retire task =>
    match m.db.refreshes[task]? with
    | none => m.db
    | some refresh =>
      (m.db.updateRefresh task fun refresh => { refresh with stage := .over }).reap c refresh.live
  | .touch client => { m.db with client := client }

theorem Does.db_eq (h : m.Does deed m') : m'.db = m.doneBy (.silent σ) deed := by
  cases h with
  | act action hpermitted htells => rfl
  | write hedit hwrite => simp only [doneBy, hedit, hwrite]
  | tell observer change => rfl
  | takeIn hready htask hstage hrun => simp only [doneBy, taken?, htask, hstage, hrun]; rfl
  | retire htelling htask => simp only [doneBy, htask]
  | touch client => rfl

/-- The calls that are told of are those that are made.  Whatever listeners do, a deed is done as if
there were none, and then they are called in turn, those of one live query; and a refresh that goes
on to its end takes its outcome in with these calls before it is over. -/
structure CallsMade (m : Moment σ) (deed : Deed σ) (m' : Moment σ) : Prop where
  made : ∀ hear : Nat → Refreshed → Database σ → Database σ, ∃ id,
    m.doneBy (.listening hear) deed = m'.db.callAll (.listening hear) (m.calls id deed) ∧
      ∀ other, other ≠ id → m.calls other deed = []
  ends : ∀ task refresh outcome, deed = .takeIn task → m.taken? task = some (refresh, outcome) →
    ∀ c : Client σ, m.db.perform c (.go (.refresh task)) =
      ((m.doneBy c deed).updateRefresh task fun refresh => { refresh with stage := .over }).reap c
        refresh.live

theorem Does.callsMade (h : m.Does deed m') : m.CallsMade deed m' := by
  constructor
  · intro hear
    rw [h.db_eq]
    cases h with
    | act action hpermitted htells =>
      exact ⟨0, Database.perform_listening hear htells, fun _ _ => rfl⟩
    | write hedit hwrite => exact ⟨0, rfl, fun _ _ => rfl⟩
    | tell observer change =>
      refine ⟨0, ?_, fun _ _ => rfl⟩
      cases observer <;> rfl
    | @takeIn _ task run refresh submitted hready htask hstage hrun =>
      refine ⟨refresh.live, ?_, fun other hother => ?_⟩
      · simp only [doneBy, calls, taken?, htask, hstage, hrun, Option.map_some, if_true]
        exact Database.finishLive_eq _ _ _ _ _
      · simp only [calls, taken?, htask, hstage, hrun, Option.map_some, if_neg (Ne.symm hother)]
    | retire htelling htask => exact ⟨0, rfl, fun _ _ => rfl⟩
    | touch client => exact ⟨0, rfl, fun _ _ => rfl⟩
  · rintro task refresh outcome rfl htaken c
    cases h with
    | @takeIn _ _ run refresh' submitted hready htask hstage hrun =>
      simp only [taken?, htask, hstage, hrun, Option.map_some, Option.some.injEq,
        Prod.mk.injEq] at htaken
      obtain ⟨rfl, rfl⟩ := htaken
      simp only [Database.perform, Database.go, List.contains_iff_mem.2 hready, if_true,
        Database.poll, Database.pollRefresh, htask, hstage, hrun, doneBy, taken?, Option.map_some]

end Moment

end Viewbase
