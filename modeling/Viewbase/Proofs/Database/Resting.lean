import Viewbase.Proofs.Database.Course
import Viewbase.Proofs.Database.Deed

/-!
What deeds do to live queries.

A live query goes to another epoch by a start or a stop only; whatever else is done, it stays in its
epoch with its subscription, and if it is stopped it shows what it showed (`Calm`).  So only a start
ends the rest of a stopped live query (`spares_does`), and nobody is called meanwhile
(`calls_of_stopped`).  A scan begins only for a run that was not cancelled (`scanning_does`).
-/

namespace Viewbase

namespace Action

/-- It may concern subscriptions, live queries, refreshes or scans under way. -/
def stirs : Action → Bool
  | subscribe _ _ => true
  | unsubscribe _ => true
  | makeLive _ => true
  | startLive _ => true
  | stopLive _ => true
  | disposeLive _ => true
  | dropLive _ => true
  | addListener _ _ => true
  | removeListener _ _ => true
  | go _ => true
  | scanRun _ => true
  | fire => true
  | _ => false

end Action

namespace Database

variable {σ : Type} {db db' db'' : Database σ} {id : Nat}

/-! ## Runs -/

theorem aside_updateRun (id : Nat) (change : Run → Run) (db : Database σ) :
    Aside db (db.updateRun id change) :=
  ⟨rfl, rfl, rfl, rfl⟩

theorem aside_submit (id : Nat) (recipient : Recipient) (db : Database σ) :
    Aside db (db.submit id recipient).1 := by
  obtain ⟨noted, hbeside, -, -, heq⟩ := Stance.exists_submit id recipient db
  rw [heq]
  exact ⟨hbeside.lives, hbeside.refreshes, hbeside.scanning, hbeside.store.subscriptions⟩

theorem aside_deliver (id : Nat) (recipient : Recipient) (outcome : Outcome) (db : Database σ) :
    Aside db (db.deliver (.silent σ) id recipient outcome) := by
  cases recipient <;> exact ⟨rfl, rfl, rfl, rfl⟩

theorem aside_abandon (id : Nat) (recipient : Recipient) (db : Database σ) :
    Aside db (db.abandon id recipient) :=
  (aside_updateRun id _ db).trans (aside_wakeRecipient recipient _)

theorem aside_conclude (id : Nat) (run : Run) {outcome : Database σ → Database σ × Outcome}
    (h : ∀ db, Aside db (outcome db).1) (db : Database σ) :
    Aside db (db.conclude (.silent σ) id run outcome) := by
  rw [conclude]
  split
  · exact (aside_updateRun id _ db).trans ((h _).trans (aside_deliver id run.recipient _ _))
  · exact (beside_countCancelled db _).aside.trans (aside_deliver id run.recipient _ _)

theorem aside_complete (query : Nat) (target : Target) (result : Except IndexError Answer)
    (db : Database σ) : Aside db (db.complete query target result).1 := by
  cases result <;> exact ⟨rfl, rfl, rfl, rfl⟩

theorem aside_finishRun (id : Nat) (result : Except IndexError Answer) (db : Database σ) :
    Aside db (db.finishRun (.silent σ) id result) := by
  rw [finishRun]
  split
  · exact .refl db
  next run _ =>
    exact (aside_givePermit db).trans
      (aside_conclude id run (aside_complete run.query run.request.target result) _)

/-- No live query or subscription changed, and if a scan began its run was not cancelled before. -/
structure Begins (db db' : Database σ) : Prop where
  lives : db'.lives = db.lives
  subscriptions : db'.store.subscriptions = db.store.subscriptions
  scanning : ∀ id ∈ db'.scanning, id ∈ db.scanning ∨
    ∃ run, db.runs[id]? = some run ∧ run.control = .pending

theorem Aside.begins (h : Aside db db') : Begins db db' :=
  ⟨h.lives, h.subscriptions, fun _ hid => .inl (h.scanning ▸ hid)⟩

theorem begins_startRun (id : Nat) (db : Database σ) :
    Begins db (db.startRun (.silent σ) id) := by
  cases hrun : db.runs[id]? with
  | none =>
    rw [startRun, hrun]
    exact (Aside.refl db).begins
  | some run =>
    cases hcontrol : run.control with
    | pending =>
      cases hregistration : run.registration with
      | error error =>
        simp only [startRun, hrun, hcontrol, Control.start, hregistration]
        have hcounted : Aside db ((db.updateRun id fun run => { run with control := .running }).count
            fun m => { m with failed := m.failed + 1 }) := ⟨rfl, rfl, rfl, rfl⟩
        exact ((hcounted.trans (aside_givePermit _)).trans
          (aside_conclude id _ (fun db => .refl db) _)).begins
      | ok temporary =>
        simp only [startRun, hrun, hcontrol, Control.start, hregistration]
        refine ⟨rfl, rfl, fun other hother => ?_⟩
        rcases List.mem_append.1 hother with hold | hnew
        · exact .inl hold
        · cases List.mem_singleton.1 hnew
          exact .inr ⟨run, hrun, hcontrol⟩
    | _ =>
      have hgiven := (beside_countCancelled db "before_start").aside.trans (aside_givePermit _)
      cases hregistration : run.registration with
      | error error =>
        simp only [startRun, hrun, hcontrol, Control.start, hregistration]
        exact (hgiven.trans (aside_abandon id run.recipient _)).begins
      | ok temporary =>
        simp only [startRun, hrun, hcontrol, Control.start, hregistration]
        exact ((hgiven.trans (beside_endRegistration temporary _).aside).trans
          (aside_abandon id run.recipient _)).begins

theorem begins_pollRun (id : Nat) (db : Database σ) : Begins db (db.pollRun (.silent σ) id) := by
  rw [pollRun]
  split
  · split
    next hpermits =>
      have hstarted := begins_startRun id (db.takePermit id)
      have haside := aside_takePermit id db
      refine ⟨hstarted.lives.trans haside.lives,
        hstarted.subscriptions.trans haside.subscriptions, fun other hother => ?_⟩
      rcases hstarted.scanning other hother with hold | ⟨run, hrun, hcontrol⟩
      · exact .inl (haside.scanning ▸ hold)
      -- A permit does not change the control of a run.
      · simp only [takePermit, if_pos hpermits, updateRun, List.getElem?_modify] at hrun
        cases hold : db.runs[other]? with
        | none => simp [hold] at hrun
        | some before =>
          simp only [hold, Option.map_eq_map, Option.map_some, Option.some.injEq] at hrun
          subst hrun
          refine .inr ⟨before, rfl, ?_⟩
          split at hcontrol <;> exact hcontrol
    · exact (aside_takePermit id db).begins
  · exact begins_startRun id db
  · exact (aside_finishRun id _ db).begins
  · exact (Aside.refl db).begins

/-- To carry out the scan of a run takes it from those under way, and changes nothing else beside
the store, the temporary indexes and the run. -/
theorem aside_scanRun {id : Nat} {run : Run} (hrun : db.runs[id]? = some run) :
    Aside { db with scanning := db.scanning.filter (· != id) } (db.scanRun (.silent σ) id) := by
  simp only [scanRun, hrun]
  have hscanned := (beside_scan run.request
    { db with scanning := db.scanning.filter (· != id) }).aside.trans
      (beside_endRegistration run.registered? _).aside
  exact ⟨hscanned.lives, hscanned.refreshes, hscanned.scanning, hscanned.subscriptions⟩

theorem begins_scanRun (id : Nat) (db : Database σ) : Begins db (db.scanRun (.silent σ) id) := by
  cases hrun : db.runs[id]? with
  | none =>
    rw [scanRun, hrun]
    exact (Aside.refl db).begins
  | some run =>
    have hscanned := aside_scanRun hrun
    refine ⟨hscanned.lives, hscanned.subscriptions, fun other hother => .inl ?_⟩
    have hold := hscanned.scanning ▸ hother
    exact (List.mem_filter.1 hold).1

/-! ## Requests beside live queries and scans -/

theorem aside_perform {action : Action} (hpermitted : db.Permits action)
    (htells : db.TellsNobody action) (h : action.stirs = false) :
    Aside db (db.perform (.silent σ) action) := by
  cases action with
  | put | delete | addConflict | resolveConflicts => exact htells.elim
  | subscribe | unsubscribe | makeLive | startLive | stopLive | disposeLive | dropLive => cases h
  | addListener | removeListener | go | scanRun | fire => cases h
  | defineView name map reduce =>
    exact (beside_store db (Store.later_defineView db.store name map reduce)).aside
  | deleteIndex index => exact (beside_deleteIndex index db).aside
  | scan request => exact (beside_scan request db).aside
  | queryMap map => exact (beside_queryMap map db).aside
  | copyQuery query => exact (beside_copyQuery query db).aside
  | disposeQuery query => exact (beside_dispose hpermitted).aside
  | dropQuery query => exact (beside_dropQuery hpermitted).aside
  | runQuery query => exact (beside_runQuery hpermitted).aside
  | submit query recipient => exact aside_submit query recipient db
  | cancel run => exact aside_cancel run db
  | acquireOwner temporary => exact (beside_acquireOwner temporary db).aside
  | releaseOwner temporary => exact (beside_releaseOwner temporary db).aside
  | releaseDeferred temporary => exact (beside_releaseDeferred temporary db).aside
  | deleteTemporary temporary => exact (beside_deleteTemporary temporary db).aside
  | beginScan temporary => exact (beside_beginScan temporary db).aside
  | endScan temporary => exact (beside_endScan temporary db).aside
  | _ => exact ⟨rfl, rfl, rfl, rfl⟩

/-! ## Live queries in their epochs -/

end Database

/-- A live query stays in its epoch, and if it is stopped it shows what it showed. -/
structure LiveQuery.Stays (live live' : LiveQuery) : Prop where
  index : live'.index = live.index
  query : live'.query = live.query
  epoch : live'.epoch = live.epoch
  token : live'.token = live.token
  stopped : live'.phase = .stopped ↔ live.phase = .stopped
  shown : live.phase = .stopped → live'.rows = live.rows ∧ live'.lastError = live.lastError

theorem LiveQuery.Stays.refl (live : LiveQuery) : live.Stays live :=
  ⟨rfl, rfl, rfl, rfl, .rfl, fun _ => ⟨rfl, rfl⟩⟩

theorem LiveQuery.Stays.trans {a b c : LiveQuery} (h : a.Stays b) (h' : b.Stays c) : a.Stays c where
  index := h'.index.trans h.index
  query := h'.query.trans h.query
  epoch := h'.epoch.trans h.epoch
  token := h'.token.trans h.token
  stopped := h'.stopped.trans h.stopped
  shown := by
    intro hstopped
    obtain ⟨hrows, herror⟩ := h.shown hstopped
    obtain ⟨hrows', herror'⟩ := h'.shown (h.stopped.2 hstopped)
    exact ⟨hrows'.trans hrows, herror'.trans herror⟩

namespace Database

variable {σ : Type} {db db' db'' : Database σ} {id : Nat}

/-- All live queries stay in their epochs and keep their subscriptions, and no scan begins. -/
structure Calm (db db' : Database σ) : Prop where
  lives : Follows LiveQuery.Stays db.lives db'.lives
  subscriptions : db'.store.subscriptions = db.store.subscriptions
  scanning : ∀ run ∈ db'.scanning, run ∈ db.scanning

theorem Calm.trans (h : Calm db db') (h' : Calm db' db'') : Calm db db'' where
  lives := h.lives.trans LiveQuery.Stays.trans h'.lives
  subscriptions := h'.subscriptions.trans h.subscriptions
  scanning := fun run hrun => h.scanning run (h'.scanning run hrun)

theorem calm_of_eq (hlives : db'.lives = db.lives)
    (hsubscriptions : db'.store.subscriptions = db.store.subscriptions)
    (hscanning : db'.scanning = db.scanning) : Calm db db' :=
  ⟨.of_eq LiveQuery.Stays.refl hlives, hsubscriptions, fun _ hrun => hscanning ▸ hrun⟩

theorem Aside.calm (h : Aside db db') : Calm db db' :=
  calm_of_eq h.lives h.subscriptions h.scanning

theorem calm_updateLive (id : Nat) {change : LiveQuery → LiveQuery} (db : Database σ)
    (h : ∀ live, db.lives[id]? = some live → live.Stays (change live)) :
    Calm db (db.updateLive id change) :=
  ⟨.modify LiveQuery.Stays.refl h, rfl, fun _ hrun => hrun⟩

/-- What a live query that is started shows may change. -/
theorem calm_updateStarted {live : LiveQuery} (hlive : db.lives[id]? = some live)
    (hstarted : live.phase ≠ .stopped) {change : LiveQuery → LiveQuery}
    (hindex : (change live).index = live.index) (hquery : (change live).query = live.query)
    (hepoch : (change live).epoch = live.epoch) (htoken : (change live).token = live.token)
    (hphase : (change live).phase ≠ .stopped) : Calm db (db.updateLive id change) := by
  refine calm_updateLive id db fun live' hlive' => ?_
  rw [hlive] at hlive'
  cases hlive'
  exact ⟨hindex, hquery, hepoch, htoken, ⟨fun h => absurd h hphase, fun h => absurd h hstarted⟩,
    fun h => absurd h hstarted⟩

theorem calm_listen (id : Nat) (change : LiveQuery → List Nat) (db : Database σ) :
    Calm db (db.updateLive id fun live => { live with listeners := change live }) :=
  calm_updateLive id db fun _ _ => ⟨rfl, rfl, rfl, rfl, .rfl, fun _ => ⟨rfl, rfl⟩⟩

theorem aside_release (query : Nat) (db : Database σ) :
    Aside db (db.release (.silent σ) query) := by
  obtain ⟨released, hbeside, heq⟩ := exists_release query db
  rw [heq]
  exact ⟨hbeside.lives, hbeside.refreshes, hbeside.scanning, hbeside.store.subscriptions⟩

theorem aside_reap (id : Nat) (db : Database σ) : Aside db (db.reap (.silent σ) id) := by
  rw [reap]
  split
  · exact .refl db
  next live hlive =>
    split
    · exact .refl db
    · obtain ⟨released, hbeside, heq⟩ := exists_dropQuery live.query db
      rw [heq]
      exact ⟨hbeside.lives, hbeside.refreshes, hbeside.scanning, hbeside.store.subscriptions⟩

theorem calm_makeLive (query : Nat) (db : Database σ) : Calm db (db.makeLive query).1 := by
  have hcopied := beside_copyQuery query db
  rw [makeLive]
  split
  · exact (Aside.refl db).calm
  split
  next heq =>
    rw [heq] at hcopied
    exact hcopied.aside.calm
  next heq =>
    rw [heq] at hcopied
    exact hcopied.aside.calm.trans ⟨.push LiveQuery.Stays.refl _ _, rfl, fun _ hrun => hrun⟩

/-! ## Refreshes and changes -/

theorem calm_executeLive (task id epoch : Nat) (db : Database σ) :
    Calm db (db.executeLive task id epoch) := by
  rw [executeLive]
  split
  · exact (Aside.refl db).calm
  next live hlive =>
    split
    · exact calm_of_eq rfl rfl rfl
    next hcurrent =>
      have hstarted := (LiveQuery.isCurrent_iff.1 (by simpa using hcurrent)).2
      have hsubmitted := aside_submit live.query (.refresh task) db
      cases hsubmit : db.submit live.query (.refresh task) with
      | mk submitted run =>
        rw [hsubmit] at hsubmitted
        have hlive' : submitted.lives[id]? = some live := hsubmitted.lives ▸ hlive
        have hrunning : Calm submitted
            (submitted.updateLive id fun live => { live with running := some run }) :=
          calm_updateStarted hlive' hstarted rfl rfl rfl rfl hstarted
        exact hsubmitted.calm.trans (hrunning.trans (calm_of_eq rfl rfl rfl))

theorem calm_pollRefresh (task : Nat) (db : Database σ)
    (hawaits : ∀ refresh, db.refreshes[task]? = some refresh →
      ∀ run, refresh.stage ≠ .awaiting run) : Calm db (db.pollRefresh (.silent σ) task) := by
  rw [pollRefresh]
  split
  · exact (Aside.refl db).calm
  next refresh hrefresh =>
    have hexecuted := (calm_executeLive task refresh.live refresh.epoch db).trans
      (aside_reap refresh.live _).calm
    split
    · exact hexecuted
    · exact calm_of_eq rfl rfl rfl
    · exact hexecuted
    next run hstage => exact absurd hstage (hawaits refresh hrefresh run)
    · exact (Aside.refl db).calm
    · exact (Aside.refl db).calm

/-- What live query and epoch a refresh is of does not depend on how far it has come. -/
theorem map_refreshes_updateRefresh (task : Nat) (stage : RefreshStage) (db : Database σ) :
    ((db.updateRefresh task fun refresh => { refresh with stage := stage }).refreshes.map
      fun refresh => (refresh.live, refresh.epoch)) =
        db.refreshes.map fun refresh => (refresh.live, refresh.epoch) := by
  refine List.ext_getElem? fun i => ?_
  simp only [updateRefresh, List.getElem?_map, List.getElem?_modify]
  cases db.refreshes[i]? with
  | none => rfl
  | some refresh => by_cases hi : task = i <;> simp [hi]

/-- A timer only wakes refreshes. -/
theorem exists_fireNext (db : Database σ) : ∃ clock timers refreshes ready,
    db.fireNext = { db with
      clock := clock, timers := timers, refreshes := refreshes, ready := ready } ∧
    (refreshes.map fun refresh => (refresh.live, refresh.epoch)) =
      db.refreshes.map fun refresh => (refresh.live, refresh.epoch) := by
  have hwoken : ∀ (tasks : List Nat) (db : Database σ), ∃ refreshes ready,
      tasks.foldl (fun db task => (db.updateRefresh task fun refresh =>
        { refresh with stage := .due }).wake (.refresh task)) db =
          { db with refreshes := refreshes, ready := ready } ∧
      (refreshes.map fun refresh => (refresh.live, refresh.epoch)) =
        db.refreshes.map fun refresh => (refresh.live, refresh.epoch) := by
    intro tasks
    induction tasks with
    | nil => exact fun db => ⟨db.refreshes, db.ready, rfl, rfl⟩
    | cons task tasks ih =>
      intro db
      obtain ⟨refreshes, ready, heq, hmap⟩ := ih ((db.updateRefresh task fun refresh =>
        { refresh with stage := .due }).wake (.refresh task))
      exact ⟨refreshes, ready, heq, hmap.trans (map_refreshes_updateRefresh task .due db)⟩
  rw [fireNext]
  split
  next due _ =>
    obtain ⟨refreshes, ready, heq, hmap⟩ := hwoken
      ((db.timers.filter fun timer => decide (timer.due ≤ due)).map Timer.refresh)
      { db with clock := due, timers := db.timers.filter fun timer => decide (due < timer.due) }
    exact ⟨due, _, refreshes, ready, heq, hmap⟩
  · exact ⟨db.clock, db.timers, db.refreshes, db.ready, rfl, rfl⟩

theorem calm_fireNext (db : Database σ) : Calm db db.fireNext ∧ db.fireNext.lives = db.lives := by
  obtain ⟨clock, timers, refreshes, ready, heq, -⟩ := exists_fireNext db
  rw [heq]
  exact ⟨calm_of_eq rfl rfl rfl, rfl⟩

theorem calm_settleLive {live settled : LiveQuery} (hlive : db.lives[id]? = some settled)
    (hstarted : settled.phase ≠ .stopped) : Calm db (db.settleLive id live) := by
  rw [settleLive]
  split
  · have hrequerying : Calm db (db.updateLive id fun live =>
        { live with phase := .requerying false }) :=
      calm_updateStarted hlive hstarted rfl rfl rfl rfl (by simp)
    exact hrequerying.trans (calm_of_eq rfl rfl rfl)
  · exact calm_updateStarted hlive hstarted rfl rfl rfl rfl (by simp)

/-- Taking a result in changes what a live query shows, and no more. -/
theorem absorb_eq (live : LiveQuery) (verdict : LiveQuery.Verdict) :
    (live.absorb verdict).index = live.index ∧ (live.absorb verdict).query = live.query ∧
      (live.absorb verdict).epoch = live.epoch ∧ (live.absorb verdict).token = live.token ∧
        (live.absorb verdict).phase = live.phase := by
  cases verdict <;> exact ⟨rfl, rfl, rfl, rfl, rfl⟩

theorem calm_finishLive (id epoch : Nat) (outcome : Outcome) (db : Database σ) :
    Calm db (db.finishLive (.silent σ) id epoch outcome) := by
  cases hlive : db.lives[id]? with
  | none =>
    simp only [finishLive, hlive]
    exact (Aside.refl db).calm
  | some live =>
    cases hcurrent : live.isCurrent epoch with
    | false =>
      simp only [finishLive, hlive, hcurrent, Bool.not_false, if_true]
      exact (Aside.refl db).calm
    | true =>
      have hstarted := (LiveQuery.isCurrent_iff.1 hcurrent).2
      obtain ⟨hindex, hquery, hepoch, htoken, hphase⟩ := absorb_eq live (live.judge outcome)
      have hrecorded := (Stance.beside_recordVerdict live (live.judge outcome) db).aside
      obtain ⟨recorded, hrecordedEq⟩ : ∃ recorded, recorded =
        db.recordVerdict live (live.judge outcome) := ⟨_, rfl⟩
      rw [← hrecordedEq] at hrecorded
      have hlive' : recorded.lives[id]? = some live := hrecorded.lives ▸ hlive
      obtain ⟨taken, htaken⟩ : ∃ taken, taken = recorded.updateLive id fun live' =>
        { live'.absorb (live.judge outcome) with running := none } := ⟨_, rfl⟩
      have hlive'' : taken.lives[id]? =
          some { live.absorb (live.judge outcome) with running := none } := by
        rw [htaken, updateLive, getElem?_modify_of_some hlive', if_pos rfl]
      have hstarted' : (live.absorb (live.judge outcome)).phase ≠ .stopped := hphase ▸ hstarted
      have htook : Calm recorded taken := by
        rw [htaken]
        exact calm_updateStarted hlive' hstarted hindex hquery hepoch htoken hstarted'
      have hsettled : Calm db (taken.settleLive id live) :=
        (hrecorded.calm.trans htook).trans (calm_settleLive hlive'' hstarted')
      simp only [finishLive, hlive, hcurrent, Bool.not_true, Bool.false_eq_true, if_false,
        Stance.tellListeners_silent, ← hrecordedEq, ← htaken]
      split <;> exact hsettled

theorem calm_notifyOne (change : Change) (observer : Observer) (db : Database σ) :
    Calm db (db.notifyOne (.silent σ) change observer) := by
  cases observer with
  | client callback => exact (Aside.refl db).calm
  | live id epoch =>
    rw [notifyOne, changeLive]
    split
    · exact (Aside.refl db).calm
    next live hlive =>
      have hstarted : LiveQuery.react live.phase (db.lastGeneration live.query) change.generation ≠
          .ignore → live.phase ≠ .stopped := by
        intro hreact hstopped
        rw [hstopped] at hreact
        exact hreact rfl
      split
      · exact (Aside.refl db).calm
      split
      · exact (Aside.refl db).calm
      next hreact =>
        have hrequerying : Calm db (db.updateLive id fun live =>
            { live with phase := .requerying false }) :=
          calm_updateStarted hlive (hstarted (by simp [hreact])) rfl rfl rfl rfl (by simp)
        exact hrequerying.trans (calm_of_eq rfl rfl rfl)
      next hreact =>
        have hphase := hstarted (by simp [hreact])
        refine calm_updateStarted hlive hphase rfl rfl rfl rfl ?_
        cases hlast : live.phase <;> simp_all [LiveQuery.remembering]
      · exact calm_of_eq rfl rfl rfl

/-! ## Rest -/

/-- A stopped live query is stopped still and shows what it showed; no scan began. -/
structure Rests (id : Nat) (db db' : Database σ) : Prop where
  shown : ∀ live, db.lives[id]? = some live → live.phase = .stopped →
    ∃ live', db'.lives[id]? = some live' ∧ live'.phase = .stopped ∧ live'.query = live.query ∧
      live'.rows = live.rows ∧ live'.lastError = live.lastError
  scanning : ∀ run ∈ db'.scanning, run ∈ db.scanning

theorem Rests.trans (h : Rests id db db') (h' : Rests id db' db'') : Rests id db db'' where
  shown := by
    intro live hlive hstopped
    obtain ⟨live', hlive', hstopped', hquery, hrows, herror⟩ := h.shown live hlive hstopped
    obtain ⟨live'', hlive'', hstopped'', hquery', hrows', herror'⟩ :=
      h'.shown live' hlive' hstopped'
    exact ⟨live'', hlive'', hstopped'', hquery'.trans hquery, hrows'.trans hrows,
      herror'.trans herror⟩
  scanning := fun run hrun => h.scanning run (h'.scanning run hrun)

theorem Calm.rests (h : Calm db db') : Rests id db db' where
  shown := by
    intro live hlive hstopped
    obtain ⟨live', hlive', hstays⟩ := h.lives id live hlive
    exact ⟨live', hlive', hstays.stopped.2 hstopped, hstays.query, hstays.shown hstopped⟩
  scanning := h.scanning

/-- A change of a live query that leaves a stopped one what it shows. -/
theorem rests_updateLive (id other : Nat) {change : LiveQuery → LiveQuery} (db : Database σ)
    (h : ∀ live, db.lives[other]? = some live → other = id → live.phase = .stopped →
      (change live).phase = .stopped ∧ (change live).query = live.query ∧
        (change live).rows = live.rows ∧ (change live).lastError = live.lastError) :
    Rests id db (db.updateLive other change) where
  shown := by
    intro live hlive hstopped
    rw [updateLive, List.getElem?_modify]
    by_cases hother : other = id
    · subst hother
      simp only [hlive, if_true, Option.map_eq_map, Option.map_some]
      exact ⟨_, rfl, h live hlive rfl hstopped⟩
    · simp only [hlive, if_neg hother, Option.map_eq_map, Option.map_some]
      exact ⟨live, rfl, hstopped, rfl, rfl, rfl⟩
  scanning := fun _ hrun => hrun

theorem rests_stopLive (id other : Nat) (db : Database σ) : Rests id db (db.stopLive other) := by
  have hended : ∀ (token : Option Token) (db : Database σ), Rests id db (db.endSubscription token)
      := by
    intro token db
    cases token <;>
      exact ⟨fun live hlive hstopped => ⟨live, hlive, hstopped, rfl, rfl, rfl⟩, fun _ hrun => hrun⟩
  rw [stopLive]
  split
  · exact (Aside.refl db).calm.rests
  next live hlive =>
    split
    · exact (Aside.refl db).calm.rests
    · have hstopped : Rests id db (db.updateLive other fun live =>
          { live with epoch := live.epoch + 1, phase := .stopped, running := none, token := none }) :=
        rests_updateLive id other db fun _ _ _ _ => ⟨rfl, rfl, rfl, rfl⟩
      exact hstopped.trans ((aside_cancelRunning live.running _).calm.rests.trans
        ((hended live.token _).trans (beside_note _ _ _).aside.calm.rests))

theorem rests_disposeLive (id other : Nat) (db : Database σ) :
    Rests id db (db.disposeLive (.silent σ) other) := by
  rw [disposeLive]
  split
  · exact (Aside.refl db).calm.rests
  next live hlive =>
    split
    · exact (Aside.refl db).calm.rests
    · have hmarked : Rests id db (db.updateLive other fun live => { live with disposed := true }) :=
        rests_updateLive id other db fun _ _ _ h => ⟨h, rfl, rfl, rfl⟩
      exact hmarked.trans
        ((rests_stopLive id other _).trans (aside_release live.query _).calm.rests)

theorem rests_dropLive (id other : Nat) (db : Database σ) :
    Rests id db (db.dropLive (.silent σ) other) := by
  rw [dropLive]
  refine (rests_stopLive id other db).trans (Rests.trans ?_ (aside_reap other _).calm.rests)
  exact rests_updateLive id other _ fun _ _ _ h => ⟨h, rfl, rfl, rfl⟩

theorem scanning_startLive (id : Nat) (db : Database σ) :
    (db.startLive id).1.scanning = db.scanning := by
  rw [startLive]
  split
  · rfl
  split
  · rfl
  split
  · rfl
  · dsimp only
    split <;> rfl

/-- Only a start that succeeds ends the rest. -/
theorem rests_startLive (id other : Nat) (db : Database σ)
    (h : other = id → (db.startLive other).2 ≠ .ok ()) : Rests id db (db.startLive other).1 := by
  cases hlive : db.lives[other]? with
  | none =>
    simp only [startLive, hlive]
    exact (Aside.refl db).calm.rests
  | some live =>
    simp only [startLive, hlive] at h ⊢
    split
    · exact (Aside.refl db).calm.rests
    split
    · exact (Aside.refl db).calm.rests
    next hdisposed hrunning =>
      rw [if_neg hdisposed, if_neg hrunning] at h
      obtain ⟨opened, hopenedEq⟩ : ∃ opened, opened =
        db.updateLive other fun other => { other with epoch := live.epoch + 1 } := ⟨_, rfl⟩
      have hopened : Rests id db opened := by
        rw [hopenedEq]
        exact rests_updateLive id other db fun _ _ _ h => ⟨h, rfl, rfl, rfl⟩
      rw [← hopenedEq] at h ⊢
      split
      next hsubscribe => exact hopened
      next token store hsubscribe =>
        simp only [hsubscribe] at h
        have hstarted : Rests id { opened with store := store }
            ({ opened with store := store }.updateLive other fun live =>
              { live with token := some token, phase := .awaitingInitial false }) :=
          rests_updateLive id other _ fun _ _ hid _ => absurd rfl (h hid)
        exact Rests.trans ⟨hopened.shown, hopened.scanning⟩ ⟨hstarted.shown, hstarted.scanning⟩

/-! ## Steps -/

/-- A stopped live query is stopped still and shows what it showed; if a scan began its run was not
cancelled before. -/
structure Spares (id : Nat) (db db' : Database σ) : Prop where
  shown : ∀ live, db.lives[id]? = some live → live.phase = .stopped →
    ∃ live', db'.lives[id]? = some live' ∧ live'.phase = .stopped ∧ live'.query = live.query ∧
      live'.rows = live.rows ∧ live'.lastError = live.lastError
  scanning : ∀ run ∈ db'.scanning, run ∈ db.scanning ∨
    ∃ submitted, db.runs[run]? = some submitted ∧ submitted.control = .pending

theorem Rests.spares (h : Rests id db db') : Spares id db db' :=
  ⟨h.shown, fun run hrun => .inl (h.scanning run hrun)⟩

theorem Begins.spares (h : Begins db db') : Spares id db db' :=
  ⟨fun live hlive hstopped => ⟨live, h.lives ▸ hlive, hstopped, rfl, rfl, rfl⟩, h.scanning⟩

/-- A run in its turn. -/
theorem begins_go (run : Nat) (db : Database σ) : Begins db (db.go (.silent σ) (.run run)) := by
  rw [go]
  split
  · have hbegins := begins_pollRun run { db with ready := db.ready.erase (.run run) }
    exact ⟨hbegins.lives, hbegins.subscriptions, hbegins.scanning⟩
  · exact (Aside.refl db).begins

/-- A refresh in its turn. -/
theorem calm_go {task : Nat} (htells : db.TellsNobody (.go (.refresh task))) :
    Calm db (db.go (.silent σ) (.refresh task)) := by
  rw [go]
  split
  · have hcalm := calm_pollRefresh task { db with ready := db.ready.erase (.refresh task) } htells
    exact ⟨hcalm.lives, hcalm.subscriptions, hcalm.scanning⟩
  · exact (Aside.refl db).calm

theorem begins_endRunScan (run : Nat) (db : Database σ) :
    Begins db (db.endRunScan (.silent σ) run) := by
  rw [endRunScan]
  split
  · exact begins_scanRun run db
  · exact (Aside.refl db).begins

theorem spares_perform {action : Action} (hpermitted : db.Permits action)
    (htells : db.TellsNobody action)
    (hstart : action = .startLive id → (db.startLive id).2 ≠ .ok ()) :
    Spares id db (db.perform (.silent σ) action) := by
  cases hstirs : action.stirs with
  | false => exact (aside_perform hpermitted htells hstirs).calm.rests.spares
  | true =>
    cases action with
    | subscribe index callback =>
      exact ⟨fun live hlive h => ⟨live, hlive, h, rfl, rfl, rfl⟩, fun _ hrun => .inl hrun⟩
    | unsubscribe token =>
      exact ⟨fun live hlive h => ⟨live, hlive, h, rfl, rfl, rfl⟩, fun _ hrun => .inl hrun⟩
    | makeLive query => exact (calm_makeLive query db).rests.spares
    | startLive other =>
      exact (rests_startLive id other db fun heq => heq ▸ hstart (by rw [heq])).spares
    | stopLive other => exact (rests_stopLive id other db).spares
    | disposeLive other => exact (rests_disposeLive id other db).spares
    | dropLive other => exact (rests_dropLive id other db).spares
    | addListener other callback =>
      exact (calm_listen other (fun live => live.listeners ++ [callback]) db).rests.spares
    | removeListener other callback =>
      simp only [perform, removeListener]
      split
      · exact (Aside.refl db).calm.rests.spares
      · exact (calm_listen other (fun live => live.listeners.filter (· != callback)) db).rests.spares
    | go job =>
      cases job with
      | run run => exact (begins_go run db).spares
      | refresh task => exact (calm_go htells).rests.spares
    | scanRun run => exact (begins_endRunScan run db).spares
    | fire => exact (calm_fireNext db).1.rests.spares
    | _ => cases hstirs

end Database

namespace Moment

variable {σ : Type} {m m' : Moment σ} {id : Nat} {deed : Deed σ}

/-- A start of a live query that succeeds. -/
def Starts (m : Moment σ) (id : Nat) (deed : Deed σ) : Prop :=
  deed = .act (.startLive id) ∧ (m.db.startLive id).2 = .ok ()

theorem calm_takeIn {task : Nat} (h : m.Does (.takeIn task) m') : Database.Calm m.db m'.db := by
  cases h with
  | @takeIn _ task run refresh submitted =>
    have hcalm := Database.calm_finishLive refresh.live refresh.epoch submitted.answer
      { m.db with ready := m.db.ready.erase (.refresh task) }
    exact ⟨hcalm.lives, hcalm.subscriptions, hcalm.scanning⟩

theorem calm_retire {task : Nat} (h : m.Does (.retire task) m') : Database.Calm m.db m'.db := by
  cases h with
  | @retire _ task refresh =>
    have haside := Database.aside_reap refresh.live
      (m.db.updateRefresh task fun refresh => { refresh with stage := .over })
    exact Database.calm_of_eq haside.lives haside.subscriptions haside.scanning

/-- Whatever is done short of a start spares a stopped live query. -/
theorem spares_does (h : m.Does deed m') (hstart : ¬m.Starts id deed) :
    Database.Spares id m.db m'.db := by
  cases h with
  | act action hpermitted htells =>
    refine Database.spares_perform hpermitted htells fun haction hsucceeds => hstart ?_
    rw [haction]
    exact ⟨rfl, hsucceeds⟩
  | write hedit hwrite =>
    exact ⟨fun live hlive h => ⟨live, hlive, h, rfl, rfl, rfl⟩, fun _ hrun => .inl hrun⟩
  | tell observer change => exact (Database.calm_notifyOne change observer _).rests.spares
  | takeIn hready htask hstage hrun =>
    exact (calm_takeIn (.takeIn hready htask hstage hrun)).rests.spares
  | retire htelling htask => exact (calm_retire (.retire htelling htask)).rests.spares
  | touch client =>
    exact ⟨fun live hlive h => ⟨live, hlive, h, rfl, rfl, rfl⟩, fun _ hrun => .inl hrun⟩

/-- A scan begins only for a run that was not cancelled. -/
theorem scanning_does (h : m.Does deed m') (run : Nat) (hrun : run ∈ m'.db.scanning) :
    run ∈ m.db.scanning ∨ ∃ submitted, m.db.runs[run]? = some submitted ∧
      submitted.control = .pending := by
  by_cases hstart : ∃ id, m.Starts id deed
  · obtain ⟨id, rfl, -⟩ := hstart
    cases h with
    | act action hpermitted htells => exact .inl (Database.scanning_startLive id m.db ▸ hrun)
  · exact (spares_does h (fun hstarts => hstart ⟨0, hstarts⟩)).scanning run hrun

/-- A stopped live query calls no listener. -/
theorem calls_of_stopped {live : LiveQuery} (hlive : m.db.lives[id]? = some live)
    (hstopped : live.phase = .stopped) (deed : Deed σ) : m.calls id deed = [] := by
  cases deed with
  | takeIn task =>
    rw [calls]
    split
    · split
      · exact Database.tellings_of_lapsed hlive (LiveQuery.isCurrent_of_stopped hstopped _) _
      · rfl
    · rfl
  | _ => rfl

end Moment

end Viewbase
