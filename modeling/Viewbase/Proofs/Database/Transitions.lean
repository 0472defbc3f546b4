import Viewbase.Proofs.Database.Resting

/-!
The transitions of a live query.

A live query goes to another phase when it is started or stopped, when it is told of a change in its
epoch, and when it takes in the outcome of a refresh of its epoch; and only then refreshes are
launched for it (`Moment.undergoes_does`).  Whatever else is done leaves all live queries on a level
(`Database.Level`).  Changes are coalesced only where they are told (`Database.coalesces`).
-/

namespace Viewbase

namespace Database

variable {σ : Type} {db db' db'' : Database σ} {id : Nat}

/-- For which live queries and which epochs refreshes were launched, in order. -/
def schedule (db : Database σ) : List (Nat × Nat) :=
  db.refreshes.map fun refresh => (refresh.live, refresh.epoch)

theorem getElem?_schedule {epoch : Nat} (task : Nat) :
    db.schedule[task]? = some (id, epoch) ↔ ∃ refresh : Refresh,
      db.refreshes[task]? = some refresh ∧ refresh.live = id ∧ refresh.epoch = epoch := by
  simp [schedule]

theorem mem_schedule {epoch : Nat} : (id, epoch) ∈ db.schedule ↔ ∃ (task : Nat) (refresh : Refresh),
    db.refreshes[task]? = some refresh ∧ refresh.live = id ∧ refresh.epoch = epoch := by
  simp only [List.mem_iff_getElem?, getElem?_schedule]

/-- All live queries stay in their phases and epochs, no refresh is launched for them, and no change
is coalesced. -/
structure Level (db db' : Database σ) : Prop where
  lives : Follows (fun live live' : LiveQuery =>
    live'.phase = live.phase ∧ live'.epoch = live.epoch) db.lives db'.lives
  schedule : db'.schedule = db.schedule
  coalesced : db'.metrics.liveCoalesced = db.metrics.liveCoalesced

theorem level_of_eq (hlives : db'.lives = db.lives) (hrefreshes : db'.refreshes = db.refreshes)
    (hcoalesced : db'.metrics.liveCoalesced = db.metrics.liveCoalesced) : Level db db' where
  lives := .of_eq (fun _ => ⟨rfl, rfl⟩) hlives
  schedule := by rw [schedule, schedule, hrefreshes]
  coalesced := hcoalesced

theorem Level.refl (db : Database σ) : Level db db :=
  level_of_eq rfl rfl rfl

theorem Level.trans (h : Level db db') (h' : Level db' db'') : Level db db'' where
  lives := h.lives.trans (fun hab hbc => ⟨hbc.1.trans hab.1, hbc.2.trans hab.2⟩) h'.lives
  schedule := h'.schedule.trans h.schedule
  coalesced := h'.coalesced.trans h.coalesced

theorem Beside.level (h : Beside db db') : Level db db' :=
  level_of_eq h.lives h.refreshes h.coalesced

theorem level_updateLive (id : Nat) {change : LiveQuery → LiveQuery}
    (h : ∀ live, (change live).phase = live.phase ∧ (change live).epoch = live.epoch)
    (db : Database σ) : Level db (db.updateLive id change) :=
  ⟨.modify (fun _ => ⟨rfl, rfl⟩) fun live _ => h live, rfl, rfl⟩

theorem level_updateRefresh (task : Nat) (stage : RefreshStage) (db : Database σ) :
    Level db (db.updateRefresh task fun refresh => { refresh with stage := stage }) :=
  ⟨.of_eq (fun _ => ⟨rfl, rfl⟩) rfl, map_refreshes_updateRefresh task stage db, rfl⟩

/-! ## Runs -/

theorem level_updateRun (id : Nat) (change : Run → Run) (db : Database σ) :
    Level db (db.updateRun id change) :=
  level_of_eq rfl rfl rfl

theorem level_cancel (id : Nat) (db : Database σ) : Level db (db.cancel id).1 := by
  rw [cancel]
  split <;> exact level_of_eq rfl rfl rfl

theorem level_takePermit (id : Nat) (db : Database σ) : Level db (db.takePermit id) := by
  rw [takePermit]
  split <;> exact level_of_eq rfl rfl rfl

theorem level_givePermit (db : Database σ) : Level db db.givePermit := by
  rw [givePermit]
  split <;> exact level_of_eq rfl rfl rfl

theorem level_deliver (id : Nat) (recipient : Recipient) (outcome : Outcome) (db : Database σ) :
    Level db (db.deliver (.silent σ) id recipient outcome) := by
  cases recipient <;> exact level_of_eq rfl rfl rfl

theorem level_abandon (id : Nat) (recipient : Recipient) (db : Database σ) :
    Level db (db.abandon id recipient) := by
  cases recipient <;> exact level_of_eq rfl rfl rfl

theorem level_conclude (id : Nat) (run : Run) {outcome : Database σ → Database σ × Outcome}
    (h : ∀ db, Level db (outcome db).1) (db : Database σ) :
    Level db (db.conclude (.silent σ) id run outcome) := by
  rw [conclude]
  split
  · exact (level_updateRun id _ db).trans ((h _).trans (level_deliver id run.recipient _ _))
  · exact (beside_countCancelled db _).level.trans (level_deliver id run.recipient _ _)

theorem level_complete (query : Nat) (target : Target) (result : Except IndexError Answer)
    (db : Database σ) : Level db (db.complete query target result).1 := by
  cases result <;> exact level_of_eq rfl rfl rfl

theorem level_finishRun (id : Nat) (result : Except IndexError Answer) (db : Database σ) :
    Level db (db.finishRun (.silent σ) id result) := by
  rw [finishRun]
  split
  · exact .refl db
  next run _ =>
    exact (level_givePermit db).trans
      (level_conclude id run (level_complete run.query run.request.target result) _)

theorem level_startRun (id : Nat) (db : Database σ) : Level db (db.startRun (.silent σ) id) := by
  cases hrun : db.runs[id]? with
  | none =>
    rw [startRun, hrun]
    exact .refl db
  | some run =>
    have hgiven := (beside_countCancelled db "before_start").level.trans (level_givePermit _)
    cases hstart : run.control.start with
    | mk control started =>
      cases started with
      | false =>
        cases hregistration : run.registration with
        | error error =>
          simp only [startRun, hrun, hstart, hregistration]
          exact hgiven.trans (level_abandon id run.recipient _)
        | ok temporary =>
          simp only [startRun, hrun, hstart, hregistration]
          exact (hgiven.trans (beside_endRegistration temporary _).level).trans
            (level_abandon id run.recipient _)
      | true =>
        cases hregistration : run.registration with
        | error error =>
          simp only [startRun, hrun, hstart, hregistration]
          have hcounted : Level db ((db.updateRun id fun run =>
              { run with control := control }).count fun m => { m with failed := m.failed + 1 }) :=
            level_of_eq rfl rfl rfl
          exact (hcounted.trans (level_givePermit _)).trans
            (level_conclude id _ (fun db => .refl db) _)
        | ok temporary =>
          simp only [startRun, hrun, hstart, hregistration]
          exact level_of_eq rfl rfl rfl

theorem level_pollRun (id : Nat) (db : Database σ) : Level db (db.pollRun (.silent σ) id) := by
  rw [pollRun]
  split
  · split
    · exact (level_takePermit id db).trans (level_startRun id _)
    · exact level_takePermit id db
  · exact level_startRun id db
  · exact level_finishRun id _ db
  · exact .refl db

theorem level_scanRun (id : Nat) (db : Database σ) : Level db (db.scanRun (.silent σ) id) := by
  rw [scanRun]
  split
  · exact .refl db
  next run _ =>
    have hcleared : Level db { db with scanning := db.scanning.filter (· != id) } :=
      level_of_eq rfl rfl rfl
    refine (hcleared.trans ((beside_scan run.request _).level.trans
      (beside_endRegistration run.registered? _).level)).trans ?_
    exact level_of_eq rfl rfl rfl

theorem level_submit (id : Nat) (recipient : Recipient) (db : Database σ) :
    Level db (db.submit id recipient).1 := by
  obtain ⟨noted, hbeside, -, -, heq⟩ := Stance.exists_submit id recipient db
  rw [heq]
  exact hbeside.level.trans (level_of_eq rfl rfl rfl)

/-! ## Queries of live queries -/

theorem level_release (query : Nat) (db : Database σ) :
    Level db (db.release (.silent σ) query) := by
  obtain ⟨released, hbeside, heq⟩ := exists_release query db
  rw [heq]
  exact hbeside.level.trans (level_of_eq rfl rfl rfl)

theorem level_reap (id : Nat) (db : Database σ) : Level db (db.reap (.silent σ) id) := by
  rw [reap]
  split
  · exact .refl db
  next live _ =>
    split
    · exact .refl db
    · obtain ⟨released, hbeside, heq⟩ := exists_dropQuery live.query db
      rw [heq]
      exact hbeside.level.trans (level_of_eq rfl rfl rfl)

theorem level_makeLive (query : Nat) (db : Database σ) : Level db (db.makeLive query).1 := by
  have hcopied := beside_copyQuery query db
  rw [makeLive]
  split
  · exact .refl db
  split
  next heq =>
    rw [heq] at hcopied
    exact hcopied.level
  next heq =>
    rw [heq] at hcopied
    exact hcopied.level.trans ⟨.push (fun _ => ⟨rfl, rfl⟩) _ _, rfl, rfl⟩

/-! ## Refreshes -/

theorem level_executeLive (task id epoch : Nat) (db : Database σ) :
    Level db (db.executeLive task id epoch) := by
  rw [executeLive]
  split
  · exact .refl db
  next live _ =>
    split
    · exact level_updateRefresh task .over db
    · have hsubmitted := level_submit live.query (.refresh task) db
      cases hsubmit : db.submit live.query (.refresh task) with
      | mk submitted run =>
        rw [hsubmit] at hsubmitted
        have hrunning : Level submitted
            (submitted.updateLive id fun live => { live with running := some run }) := by
          refine level_updateLive id ?_ submitted
          exact fun _ => ⟨rfl, rfl⟩
        exact hsubmitted.trans (hrunning.trans (level_updateRefresh task (.awaiting run) _))

theorem level_pollRefresh {task : Nat} (hawaits : ∀ refresh, db.refreshes[task]? = some refresh →
    ∀ run, refresh.stage ≠ .awaiting run) : Level db (db.pollRefresh (.silent σ) task) := by
  rw [pollRefresh]
  split
  · exact .refl db
  next refresh hrefresh =>
    have hexecuted := (level_executeLive task refresh.live refresh.epoch db).trans
      (level_reap refresh.live _)
    split
    · exact hexecuted
    next delay _ _ =>
      have htimed : Level db { db with timers := db.timers ++ [⟨db.clock + delay, task⟩] } :=
        level_of_eq rfl rfl rfl
      exact htimed.trans (level_updateRefresh task .sleeping _)
    · exact hexecuted
    next run hstage => exact absurd hstage (hawaits refresh hrefresh run)
    · exact .refl db
    · exact .refl db

theorem level_fireNext (db : Database σ) : Level db db.fireNext := by
  obtain ⟨clock, timers, refreshes, ready, heq, hmap⟩ := exists_fireNext db
  rw [heq]
  exact ⟨.of_eq (fun _ => ⟨rfl, rfl⟩) rfl, hmap, rfl⟩

/-! ## Requests of the client -/

/-- Requests that start or stop no live query leave all on a level. -/
theorem level_perform {action : Action} (hpermitted : db.Permits action)
    (htells : db.TellsNobody action) (hstart : ∀ id, action ≠ .startLive id)
    (hstop : ∀ id, action ≠ .stopLive id) (hdispose : ∀ id, action ≠ .disposeLive id)
    (hdrop : ∀ id, action ≠ .dropLive id) : Level db (db.perform (.silent σ) action) := by
  cases action with
  | put | delete | addConflict | resolveConflicts => exact htells.elim
  | startLive id => exact absurd rfl (hstart id)
  | stopLive id => exact absurd rfl (hstop id)
  | disposeLive id => exact absurd rfl (hdispose id)
  | dropLive id => exact absurd rfl (hdrop id)
  | deleteIndex index => exact (beside_deleteIndex index db).level
  | queryMap map => exact (beside_queryMap map db).level
  | copyQuery query => exact (beside_copyQuery query db).level
  | disposeQuery query => exact (beside_dispose hpermitted).level
  | dropQuery query => exact (beside_dropQuery hpermitted).level
  | runQuery query => exact (beside_runQuery hpermitted).level
  | submit query recipient => exact level_submit query recipient db
  | cancel run => exact level_cancel run db
  | acquireOwner temporary => exact (beside_acquireOwner temporary db).level
  | releaseOwner temporary => exact (beside_releaseOwner temporary db).level
  | releaseDeferred temporary => exact (beside_releaseDeferred temporary db).level
  | deleteTemporary temporary => exact (beside_deleteTemporary temporary db).level
  | beginScan temporary => exact (beside_beginScan temporary db).level
  | endScan temporary => exact (beside_endScan temporary db).level
  | makeLive query => exact level_makeLive query db
  | addListener id callback =>
    refine level_updateLive id ?_ db
    exact fun _ => ⟨rfl, rfl⟩
  | removeListener id callback =>
    simp only [perform, removeListener]
    split
    · exact .refl db
    · refine level_updateLive id ?_ db
      exact fun _ => ⟨rfl, rfl⟩
  | go job =>
    simp only [perform, go]
    split
    · have htaken : Level db { db with ready := db.ready.erase job } := level_of_eq rfl rfl rfl
      cases job with
      | run run => exact htaken.trans (level_pollRun run _)
      | refresh task => exact htaken.trans (level_pollRefresh htells)
    · exact .refl db
  | scanRun run =>
    simp only [perform, endRunScan]
    split
    · exact level_scanRun run db
    · exact .refl db
  | fire => exact level_fireNext db
  | _ => exact level_of_eq rfl rfl rfl

/-! ## What becomes of a live query -/

/-- A live query is in a phase and an epoch, and so many changes were coalesced and those refreshes
launched on the way. -/
structure Comes (db db' : Database σ) (id : Nat) (phase : Phase) (epoch : Nat)
    (launched : List (Nat × Nat)) (coalesced : Nat) : Prop where
  live : ∃ live, db'.lives[id]? = some live ∧ live.phase = phase ∧ live.epoch = epoch
  schedule : db'.schedule = db.schedule ++ launched
  coalesced : db'.metrics.liveCoalesced = db.metrics.liveCoalesced + coalesced

variable {live : LiveQuery} {phase : Phase} {epoch coalesced : Nat} {launched : List (Nat × Nat)}

theorem Level.comes (h : Level db db') (hlive : db.lives[id]? = some live) :
    Comes db db' id live.phase live.epoch [] 0 := by
  obtain ⟨live', hlive', hphase, hepoch⟩ := h.lives id live hlive
  exact ⟨⟨live', hlive', hphase, hepoch⟩, by rw [h.schedule, List.append_nil], h.coalesced⟩

theorem Comes.level (h : Comes db db' id phase epoch launched coalesced) (hlevel : Level db' db'') :
    Comes db db'' id phase epoch launched coalesced := by
  obtain ⟨⟨live, hlive, hphase, hepoch⟩, hschedule, hcoalesced⟩ := h
  obtain ⟨live', hlive', hphase', hepoch'⟩ := hlevel.lives id live hlive
  exact ⟨⟨live', hlive', hphase'.trans hphase, hepoch'.trans hepoch⟩,
    hlevel.schedule.trans hschedule, hlevel.coalesced.trans hcoalesced⟩

theorem Comes.trans {phase' : Phase} {epoch' : Nat} (h : Comes db db' id phase epoch [] 0)
    (h' : Comes db' db'' id phase' epoch' launched coalesced) :
    Comes db db'' id phase' epoch' launched coalesced :=
  ⟨h'.live, by rw [h'.schedule, h.schedule, List.append_nil],
    by rw [h'.coalesced, h.coalesced, Nat.add_zero]⟩

/-- A change of one live query. -/
theorem comes_updateLive (hlive : db.lives[id]? = some live) (other : Nat)
    (change : LiveQuery → LiveQuery) :
    Comes db (db.updateLive other change) id
      (if other = id then (change live).phase else live.phase)
      (if other = id then (change live).epoch else live.epoch) [] 0 := by
  refine ⟨?_, (List.append_nil _).symm, rfl⟩
  by_cases hother : other = id
  · exact ⟨change live, by simp [updateLive, hother, hlive], by simp [hother], by simp [hother]⟩
  · exact ⟨live, by simp [updateLive, hother, hlive], by simp [hother], by simp [hother]⟩

/-- A change is coalesced. -/
theorem comes_coalesce (hlive : db.lives[id]? = some live) :
    Comes db (db.count fun m => { m with liveCoalesced := m.liveCoalesced + 1 }) id live.phase
      live.epoch [] 1 :=
  ⟨⟨live, hlive, rfl, rfl⟩, (List.append_nil _).symm, rfl⟩

theorem schedule_launch (id epoch delay : Nat) (db : Database σ) :
    (db.launch id epoch delay).schedule = db.schedule ++ [(id, epoch)] := by
  simp [schedule, launch, wake]

/-- A refresh is launched. -/
theorem Comes.launch (h : Comes db db' id phase epoch [] coalesced) (other opened delay : Nat) :
    Comes db (db'.launch other opened delay) id phase epoch [(other, opened)] coalesced :=
  ⟨h.live, by rw [schedule_launch, h.schedule, List.append_nil], h.coalesced⟩

/-- A stop is nothing to other live queries and to those that are stopped. -/
theorem comes_stopLive (hlive : db.lives[id]? = some live) (other : Nat) :
    Comes db (db.stopLive other) id live.phase live.epoch [] 0 ∨
      Comes db (db.stopLive other) id .stopped (live.epoch + 1) [] 0 := by
  have hended : ∀ (token : Option Token) (db : Database σ),
      Level db (db.endSubscription token) := by
    intro token db
    cases token <;> exact level_of_eq rfl rfl rfl
  have hcancelled : ∀ (running : Option Nat) (db : Database σ), Level db (db.cancelRunning running)
      := by
    intro running db
    cases running with
    | none => exact .refl db
    | some run => exact level_cancel run db
  rw [stopLive]
  split
  · exact .inl ((Level.refl db).comes hlive)
  next stopped _ =>
    split
    · exact .inl ((Level.refl db).comes hlive)
    · have hstopped := comes_updateLive hlive other fun live =>
        { live with epoch := live.epoch + 1, phase := .stopped, running := none, token := none }
      have hafter := (hstopped.level (hcancelled stopped.running _)).level
        ((hended stopped.token _).trans (beside_note _ .liveStopped
          [("index", stopped.index.label)]).level)
      by_cases hother : other = id
      · rw [if_pos hother, if_pos hother] at hafter
        exact .inr hafter
      · rw [if_neg hother, if_neg hother] at hafter
        exact .inl hafter

theorem comes_disposeLive (hlive : db.lives[id]? = some live) (other : Nat) :
    Comes db (db.disposeLive (.silent σ) other) id live.phase live.epoch [] 0 ∨
      Comes db (db.disposeLive (.silent σ) other) id .stopped (live.epoch + 1) [] 0 := by
  rw [disposeLive]
  split
  · exact .inl ((Level.refl db).comes hlive)
  split
  · exact .inl ((Level.refl db).comes hlive)
  next disposed _ _ =>
    have hmarked : Level db (db.updateLive other fun live => { live with disposed := true }) := by
      refine level_updateLive other ?_ db
      exact fun _ => ⟨rfl, rfl⟩
    obtain ⟨live', hlive', hphase, hepoch⟩ := hmarked.lives id live hlive
    have hreleased := level_release disposed.query
      ((db.updateLive other fun live => { live with disposed := true }).stopLive other)
    have hstopped := comes_stopLive hlive' other
    rw [hphase, hepoch] at hstopped
    exact hstopped.imp (fun h => (hmarked.comes hlive).trans (h.level hreleased))
      (fun h => (hmarked.comes hlive).trans (h.level hreleased))

theorem comes_dropLive (hlive : db.lives[id]? = some live) (other : Nat) :
    Comes db (db.dropLive (.silent σ) other) id live.phase live.epoch [] 0 ∨
      Comes db (db.dropLive (.silent σ) other) id .stopped (live.epoch + 1) [] 0 := by
  have hgiven : Level (db.stopLive other) (db.dropLive (.silent σ) other) := by
    refine Level.trans (level_updateLive other ?_ _) (level_reap other _)
    exact fun _ => ⟨rfl, rfl⟩
  exact (comes_stopLive hlive other).imp (·.level hgiven) (·.level hgiven)

/-- Refreshes are launched for other live queries only. -/
def Elsewhere (db : Database σ) (id : Nat) (launched : List (Nat × Nat)) : Prop :=
  ∀ entry ∈ launched, entry.1 ≠ id ∧ ∃ live, db.lives[entry.1]? = some live

theorem elsewhere_nil : db.Elsewhere id [] :=
  fun _ hentry => absurd hentry List.not_mem_nil

theorem elsewhere_singleton {other : Nat} (hother : other ≠ id)
    (hlive : db.lives[other]? = some live) (epoch : Nat) : db.Elsewhere id [(other, epoch)] := by
  intro entry hentry
  rw [List.mem_singleton.1 hentry]
  exact ⟨hother, live, hlive⟩

/-- A start opens a new epoch, also if it fails. -/
theorem comes_startLive (hlive : db.lives[id]? = some live) (other : Nat) :
    (∃ launched, db.Elsewhere id launched ∧
      Comes db (db.startLive other).1 id live.phase live.epoch launched 0) ∨
    Comes db (db.startLive other).1 id .stopped (live.epoch + 1) [] 0 ∨
    live.phase = .stopped ∧ Comes db (db.startLive other).1 id (.awaitingInitial false)
      (live.epoch + 1) [(id, live.epoch + 1)] 0 := by
  have hrest : Comes db db id live.phase live.epoch [] 0 := (Level.refl db).comes hlive
  rw [startLive]
  split
  · exact .inl ⟨[], elsewhere_nil, hrest⟩
  next started hstarted =>
    split
    · exact .inl ⟨[], elsewhere_nil, hrest⟩
    split
    · exact .inl ⟨[], elsewhere_nil, hrest⟩
    next hrunning =>
      have hphase : started.phase = .stopped := by
        simpa [LiveQuery.isRunning] using hrunning
      have hopens := comes_updateLive hlive other fun live =>
        { live with epoch := started.epoch + 1 }
      obtain ⟨opened, hopened⟩ : ∃ opened, opened =
        db.updateLive other fun live => { live with epoch := started.epoch + 1 } := ⟨_, rfl⟩
      dsimp only
      rw [← hopened] at hopens ⊢
      split
      · by_cases hother : other = id
        · subst hother
          obtain rfl : started = live := Option.some.inj (hstarted.symm.trans hlive)
          rw [if_pos rfl, if_pos rfl, hphase] at hopens
          exact .inr (.inl hopens)
        · rw [if_neg hother, if_neg hother] at hopens
          exact .inl ⟨[], elsewhere_nil, hopens⟩
      next token store _ =>
        have hstore : Level opened { opened with store := store } := level_of_eq rfl rfl rfl
        have hsubscribes := hopens.level hstore
        obtain ⟨live', hlive', hphase', hepoch'⟩ := hsubscribes.live
        have hstarts := hsubscribes.trans (comes_updateLive hlive' other fun live =>
          { live with token := some token, phase := .awaitingInitial false })
        have hlaunches := (hstarts.launch other (started.epoch + 1) 0).level
          (beside_note _ .liveStarted [("index", started.index.label)]).level
        by_cases hother : other = id
        · subst hother
          obtain rfl : started = live := Option.some.inj (hstarted.symm.trans hlive)
          rw [if_pos rfl] at hepoch'
          rw [if_pos rfl, if_pos rfl, hepoch'] at hlaunches
          exact .inr (.inr ⟨hphase, hlaunches⟩)
        · rw [if_neg hother] at hphase' hepoch'
          rw [if_neg hother, if_neg hother, hphase', hepoch'] at hlaunches
          exact .inl ⟨_, elsewhere_singleton hother hstarted _, hlaunches⟩

/-! ## Transitions -/

/-- Somebody is told of a change in an epoch, and a further run that was to follow anyway will see
it. -/
def coalesces (db : Database σ) : Deed σ → Bool
  | .tell (.live id epoch) change =>
    match db.lives[id]? with
    | some live => decide (live.epoch = epoch ∧
        LiveQuery.react live.phase (db.lastGeneration live.query) change.generation = .coalesce)
    | none => false
  | _ => false

theorem coalesces_tell (hlive : db.lives[id]? = some live) (change : Change) :
    db.coalesces (.tell (.live id live.epoch) change) =
      decide (LiveQuery.react live.phase (db.lastGeneration live.query) change.generation =
        .coalesce) := by
  simp [coalesces, hlive]

/-- The phase and the epoch that a deed takes a live query to, and the refreshes that it
launches. -/
inductive Transition (db : Database σ) (id : Nat) (live : LiveQuery) (deed : Deed σ) :
    Phase → Nat → List (Nat × Nat) → Prop where
  /-- It may go on with other live queries, and tell this one of a change that calls for nothing or
  is coalesced. -/
  | rest {launched : List (Nat × Nat)} (hlaunched : db.Elsewhere id launched)
      (hears : ∀ change, deed = .tell (.live id live.epoch) change →
        LiveQuery.react live.phase (db.lastGeneration live.query) change.generation = .ignore ∨
        LiveQuery.react live.phase (db.lastGeneration live.query) change.generation = .coalesce)
      (settles : ∀ task refresh, deed = .takeIn task → db.refreshes[task]? = some refresh →
        refresh.live = id → live.isCurrent refresh.epoch = false) :
      Transition db id live deed live.phase live.epoch launched
  /-- It is stopped, or could not be started. -/
  | halt {action : Action} (hdeed : deed = .act action) :
      Transition db id live deed .stopped (live.epoch + 1) []
  | start {action : Action} (hdeed : deed = .act action) (hstopped : live.phase = .stopped) :
      Transition db id live deed (.awaitingInitial false) (live.epoch + 1) [(id, live.epoch + 1)]
  | remember {change : Change} (hdeed : deed = .tell (.live id live.epoch) change)
      (hreact : LiveQuery.react live.phase (db.lastGeneration live.query) change.generation =
        .remember) :
      Transition db id live deed (LiveQuery.remembering live.phase) live.epoch []
  | launch {change : Change} (hdeed : deed = .tell (.live id live.epoch) change)
      (hreact : LiveQuery.react live.phase (db.lastGeneration live.query) change.generation =
        .launch) :
      Transition db id live deed (.requerying false) live.epoch [(id, live.epoch)]
  /-- A further run follows the one that it takes in. -/
  | again {task : Nat} {refresh : Refresh} (hdeed : deed = .takeIn task)
      (htask : db.refreshes[task]? = some refresh) (hlive : refresh.live = id)
      (hcurrent : live.isCurrent refresh.epoch = true)
      (hagain : LiveQuery.wantsAgain live.phase = true) :
      Transition db id live deed (.requerying false) live.epoch [(id, live.epoch)]
  | settle {task : Nat} {refresh : Refresh} (hdeed : deed = .takeIn task)
      (htask : db.refreshes[task]? = some refresh) (hlive : refresh.live = id)
      (hcurrent : live.isCurrent refresh.epoch = true)
      (hagain : LiveQuery.wantsAgain live.phase = false) :
      Transition db id live deed .idle live.epoch []

/-- What a deed with that result does to a live query. -/
def Undergoes (db db' : Database σ) (id : Nat) (live : LiveQuery) (deed : Deed σ) : Prop :=
  ∃ phase epoch launched, Transition db id live deed phase epoch launched ∧
    Comes db db' id phase epoch launched (db.coalesces deed).toNat

/-- A request of the client, or a step of background work, tells of no change and takes nothing
in. -/
theorem Transition.rest_act {action : Action} {launched : List (Nat × Nat)}
    (hlaunched : db.Elsewhere id launched) :
    Transition db id live (.act action) live.phase live.epoch launched :=
  .rest hlaunched nofun nofun

theorem undergoes_perform (hlive : db.lives[id]? = some live) {action : Action}
    (hpermitted : db.Permits action) (htells : db.TellsNobody action) :
    Undergoes db (db.perform (.silent σ) action) id live (.act action) := by
  have hstops : ∀ {db' : Database σ}, Comes db db' id live.phase live.epoch [] 0 ∨
      Comes db db' id .stopped (live.epoch + 1) [] 0 → Undergoes db db' id live (.act action) := by
    rintro db' (hrest | hhalt)
    · exact ⟨_, _, [], .rest_act elsewhere_nil, hrest⟩
    · exact ⟨_, _, [], .halt rfl, hhalt⟩
  cases action with
  | startLive other =>
    rcases comes_startLive hlive other with ⟨launched, hothers, hrest⟩ | hhalt | ⟨hphase, hstarts⟩
    · exact ⟨_, _, _, .rest_act hothers, hrest⟩
    · exact ⟨_, _, _, .halt rfl, hhalt⟩
    · exact ⟨_, _, _, .start rfl hphase, hstarts⟩
  | stopLive other => exact hstops (comes_stopLive hlive other)
  | disposeLive other => exact hstops (comes_disposeLive hlive other)
  | dropLive other => exact hstops (comes_dropLive hlive other)
  | _ =>
    have hlevel := level_perform hpermitted htells (by simp) (by simp) (by simp) (by simp)
    exact ⟨_, _, [], .rest_act elsewhere_nil, hlevel.comes hlive⟩

/-- A change that is told to another live query. -/
theorem Transition.rest_tell {other epoch : Nat} {change : Change} (hother : other ≠ id)
    {launched : List (Nat × Nat)} (hlaunched : db.Elsewhere id launched) :
    Transition db id live (.tell (.live other epoch) change) live.phase live.epoch launched :=
  .rest hlaunched (fun _ heq => absurd (Observer.live.inj (Deed.tell.inj heq).1).1 hother) nofun

/-- Another live query is told of a change. -/
theorem undergoes_tell_other (hlive : db.lives[id]? = some live) {other : Nat} (hother : other ≠ id)
    (epoch : Nat) (change : Change) :
    Undergoes db (db.changeLive other epoch change) id live (.tell (.live other epoch) change) := by
  have hrest : Comes db db id live.phase live.epoch [] 0 := (Level.refl db).comes hlive
  cases htold : db.lives[other]? with
  | none =>
    exact ⟨_, _, [], .rest_tell hother elsewhere_nil, by
      simpa [changeLive, coalesces, htold] using hrest⟩
  | some told =>
    by_cases hepoch : told.epoch = epoch
    · have hremembers := comes_updateLive hlive other fun live =>
        { live with phase := LiveQuery.remembering live.phase }
      have hlaunches := (comes_updateLive hlive other fun live =>
        { live with phase := .requerying false }).launch other told.epoch db.config.updateInterval
      rw [if_neg hother, if_neg hother] at hremembers hlaunches
      cases hreact : LiveQuery.react told.phase (db.lastGeneration told.query)
        change.generation with
      | ignore =>
        exact ⟨_, _, [], .rest_tell hother elsewhere_nil, by
          simpa [changeLive, coalesces, htold, hepoch, hreact] using hrest⟩
      | launch =>
        exact ⟨_, _, _, .rest_tell hother (elsewhere_singleton hother htold told.epoch), by
          simpa [changeLive, coalesces, htold, hepoch, hreact] using hlaunches⟩
      | remember =>
        exact ⟨_, _, [], .rest_tell hother elsewhere_nil, by
          simpa [changeLive, coalesces, htold, hepoch, hreact] using hremembers⟩
      | coalesce =>
        exact ⟨_, _, [], .rest_tell hother elsewhere_nil, by
          simpa [changeLive, coalesces, htold, hepoch, hreact] using comes_coalesce hlive⟩
    · exact ⟨_, _, [], .rest_tell hother elsewhere_nil, by
        simpa [changeLive, coalesces, htold, hepoch] using hrest⟩

/-- A live query is told of a change in its epoch. -/
theorem undergoes_tell (hlive : db.lives[id]? = some live) (change : Change) :
    Undergoes db (db.changeLive id live.epoch change) id live
      (.tell (.live id live.epoch) change) := by
  have hremembers := comes_updateLive hlive id fun live =>
    { live with phase := LiveQuery.remembering live.phase }
  have hlaunches := (comes_updateLive hlive id fun live =>
    { live with phase := .requerying false }).launch id live.epoch db.config.updateInterval
  rw [if_pos rfl, if_pos rfl] at hremembers hlaunches
  -- A change that is ignored or coalesced changes no phase.
  have hrests : ∀ (reaction : LiveQuery.Reaction), reaction = .ignore ∨ reaction = .coalesce →
      LiveQuery.react live.phase (db.lastGeneration live.query) change.generation = reaction →
        Transition db id live (.tell (.live id live.epoch) change) live.phase live.epoch [] := by
    rintro reaction hreaction rfl
    refine .rest elsewhere_nil (fun change' heq => ?_) nofun
    cases heq
    exact hreaction
  cases hreact : LiveQuery.react live.phase (db.lastGeneration live.query) change.generation with
  | ignore =>
    exact ⟨_, _, [], hrests .ignore (.inl rfl) hreact, by
      simpa [changeLive, coalesces, hlive, hreact] using (Level.refl db).comes hlive⟩
  | launch =>
    exact ⟨_, _, _, .launch rfl hreact, by
      simpa [changeLive, coalesces, hlive, hreact] using hlaunches⟩
  | remember =>
    exact ⟨_, _, _, .remember rfl hreact, by
      simpa [changeLive, coalesces, hlive, hreact] using hremembers⟩
  | coalesce =>
    exact ⟨_, _, [], hrests .coalesce (.inr rfl) hreact, by
      simpa [changeLive, coalesces, hlive, hreact] using comes_coalesce hlive⟩

/-- A live query is told of a change, or another is. -/
theorem undergoes_changeLive (hlive : db.lives[id]? = some live) (other epoch : Nat)
    (change : Change) :
    Undergoes db (db.changeLive other epoch change) id live (.tell (.live other epoch) change) := by
  by_cases hother : other = id
  · subst hother
    by_cases hepoch : live.epoch = epoch
    · subst hepoch
      exact undergoes_tell hlive change
    · -- The news is of another epoch.
      refine ⟨_, _, [], .rest elsewhere_nil (fun change' heq => ?_) nofun, ?_⟩
      · cases heq
        exact absurd rfl hepoch
      · simpa [changeLive, coalesces, hlive, hepoch] using (Level.refl db).comes hlive
  · exact undergoes_tell_other hlive hother epoch change

/-- An outcome that is not of the current epoch of this live query is taken in. -/
theorem Transition.rest_takeIn {task : Nat} {refresh : Refresh}
    (htask : db.refreshes[task]? = some refresh)
    (hlapsed : refresh.live = id → live.isCurrent refresh.epoch = false)
    {launched : List (Nat × Nat)} (hlaunched : db.Elsewhere id launched) :
    Transition db id live (.takeIn task) live.phase live.epoch launched := by
  refine .rest hlaunched nofun fun task' refresh' heq hrefresh' => ?_
  cases heq
  obtain rfl : refresh = refresh' := Option.some.inj (htask.symm.trans hrefresh')
  exact hlapsed

/-- The live query goes idle, or another run is scheduled for it. -/
theorem comes_settleLive (h : Comes db db' id live.phase live.epoch [] 0) (other : Nat)
    (settled : LiveQuery) :
    Comes db (db'.settleLive other settled) id
      (if other = id then
        if LiveQuery.wantsAgain settled.phase then .requerying false else .idle
      else live.phase)
      live.epoch (if LiveQuery.wantsAgain settled.phase then [(other, settled.epoch)] else []) 0 := by
  obtain ⟨live', hlive', hphase, hepoch⟩ := h.live
  rw [settleLive]
  cases LiveQuery.wantsAgain settled.phase with
  | true =>
    have hrequeries := (h.trans (comes_updateLive hlive' other fun live =>
      { live with phase := .requerying false })).launch other settled.epoch
        db'.config.updateInterval
    by_cases hother : other = id <;> simpa [hother, hphase, hepoch] using hrequeries
  | false =>
    have hidles := h.trans (comes_updateLive hlive' other fun live => { live with phase := .idle })
    by_cases hother : other = id <;> simpa [hother, hphase, hepoch] using hidles

/-- An outcome is taken in. -/
theorem undergoes_finishLive {taken : Database σ} (hlive : db.lives[id]? = some live)
    (hlevel : Level db taken) (hlives : taken.lives = db.lives) {task : Nat} {refresh : Refresh}
    (htask : db.refreshes[task]? = some refresh) (outcome : Outcome) :
    Undergoes db (taken.finishLive (.silent σ) refresh.live refresh.epoch outcome) id live
      (.takeIn task) := by
  have hrest : Comes db taken id live.phase live.epoch [] 0 := hlevel.comes hlive
  cases hother : taken.lives[refresh.live]? with
  | none =>
    have hne : refresh.live ≠ id := by
      intro heq
      rw [heq, hlives, hlive] at hother
      cases hother
    refine ⟨_, _, [], .rest_takeIn htask (fun h => absurd h hne) elsewhere_nil, ?_⟩
    simp only [finishLive, hother]
    exact hrest
  | some other =>
    cases hcurrent : other.isCurrent refresh.epoch with
    | false =>
      refine ⟨_, _, [], .rest_takeIn htask (fun heq => ?_) elsewhere_nil, ?_⟩
      · rw [heq, hlives, hlive] at hother
        exact Option.some.inj hother ▸ hcurrent
      · simp only [finishLive, hother, hcurrent, Bool.not_false, if_true]
        exact hrest
    | true =>
      -- The result is recorded and taken in, which changes no phase.
      obtain ⟨recorded, hrecordedEq⟩ : ∃ recorded, recorded =
        taken.recordVerdict other (other.judge outcome) := ⟨_, rfl⟩
      have hrecorded : Level taken recorded :=
        hrecordedEq ▸ (Stance.beside_recordVerdict other (other.judge outcome) taken).level
      have habsorbed : Level recorded (recorded.updateLive refresh.live fun live =>
          { live.absorb (other.judge outcome) with running := none }) := by
        refine level_updateLive refresh.live (fun live => ?_) recorded
        obtain ⟨-, -, hepoch, -, hphase⟩ := absorb_eq live (other.judge outcome)
        exact ⟨hphase, hepoch⟩
      have hsettles := comes_settleLive (hrest.level (hrecorded.trans habsorbed)) refresh.live other
      have hfinished : taken.finishLive (.silent σ) refresh.live refresh.epoch outcome =
          (recorded.updateLive refresh.live fun live =>
            { live.absorb (other.judge outcome) with running := none }).settleLive
              refresh.live other := by
        simp only [finishLive, hother, hcurrent, Bool.not_true, Bool.false_eq_true, if_false,
          Stance.tellListeners_silent, ← hrecordedEq]
        split <;> rfl
      rw [hfinished]
      by_cases hself : refresh.live = id
      · obtain rfl : other = live := by
          rw [hself, hlives, hlive] at hother
          exact (Option.some.inj hother).symm
        rw [if_pos hself] at hsettles
        cases hagain : LiveQuery.wantsAgain other.phase with
        | true =>
          simp only [hagain, if_true, hself] at hsettles
          exact ⟨_, _, _, .again rfl htask hself hcurrent hagain, hself ▸ hsettles⟩
        | false =>
          simp only [hagain, Bool.false_eq_true, if_false] at hsettles
          exact ⟨_, _, _, .settle rfl htask hself hcurrent hagain, hsettles⟩
      · rw [if_neg hself] at hsettles
        refine ⟨_, _, _, .rest_takeIn htask (fun h => absurd h hself) ?_, hsettles⟩
        split
        · exact elsewhere_singleton hself (hlives ▸ hother) other.epoch
        · exact elsewhere_nil

/-- Refreshes are launched for live queries that there are. -/
theorem Transition.known {deed : Deed σ} (h : Transition db id live deed phase epoch launched)
    (hlive : db.lives[id]? = some live) : ∀ entry ∈ launched, ∃ live, db.lives[entry.1]? = some live
    := by
  have hself : ∀ epoch : Nat, ∀ entry ∈ [(id, epoch)], ∃ live, db.lives[entry.1]? = some live := by
    intro epoch entry hentry
    rw [List.mem_singleton.1 hentry]
    exact ⟨live, hlive⟩
  cases h with
  | rest hlaunched => exact fun entry hentry => (hlaunched entry hentry).2
  | halt | remember | settle => exact nofun
  | start | launch | again => exact hself _

/-- Without live queries there is nothing to start, to stop or to tell. -/
theorem level_perform_of_nil (hnone : db.lives = []) {action : Action}
    (hpermitted : db.Permits action) (htells : db.TellsNobody action) :
    Level db (db.perform (.silent σ) action) := by
  cases action with
  | startLive id => simpa [perform, startLive, hnone] using Level.refl db
  | stopLive id => simpa [perform, stopLive, hnone] using Level.refl db
  | disposeLive id => simpa [perform, disposeLive, hnone] using Level.refl db
  | dropLive id =>
    have hstopped : db.stopLive id = db := by simp [stopLive, hnone]
    have hgiven : Level db (db.updateLive id fun live => { live with held := false }) := by
      refine level_updateLive id ?_ db
      exact fun _ => ⟨rfl, rfl⟩
    simp only [perform, dropLive, hstopped]
    exact hgiven.trans (level_reap id _)
  | _ => exact level_perform hpermitted htells (by simp) (by simp) (by simp) (by simp)

end Database

namespace Moment

variable {σ : Type} {m m' : Moment σ} {id : Nat} {live : LiveQuery} {deed : Deed σ}

/-- What is done, whatever it is, does to a live query what its deed says. -/
theorem undergoes_does (hdoes : m.Does deed m') (hlive : m.db.lives[id]? = some live) :
    Database.Undergoes m.db m'.db id live deed := by
  cases hdoes with
  | act action hpermitted htells => exact Database.undergoes_perform hlive hpermitted htells
  | @write _ _ _ _ store _ hedit hwrite =>
    have hlevel : Database.Level m.db { m.db with store := store } :=
      Database.level_of_eq rfl rfl rfl
    exact ⟨_, _, [], .rest Database.elsewhere_nil nofun nofun, hlevel.comes hlive⟩
  | tell observer change =>
    cases observer with
    | client callback =>
      exact ⟨_, _, [], .rest Database.elsewhere_nil nofun nofun,
        (Database.Level.refl _).comes hlive⟩
    | live other epoch => exact Database.undergoes_changeLive hlive other epoch change
  | @takeIn _ task run refresh submitted hready htask hstage hrun =>
    have hlevel : Database.Level m.db { m.db with ready := m.db.ready.erase (.refresh task) } :=
      Database.level_of_eq rfl rfl rfl
    exact Database.undergoes_finishLive hlive hlevel rfl htask submitted.answer
  | @retire _ task refresh htelling htask =>
    have hover := Database.level_updateRefresh task .over m.db
    exact ⟨_, _, [], .rest Database.elsewhere_nil nofun nofun,
      (hover.trans (Database.level_reap refresh.live _)).comes hlive⟩
  | touch client =>
    exact ⟨_, _, [], .rest Database.elsewhere_nil nofun nofun,
      (Database.beside_client m.db client).level.comes hlive⟩

/-- Refreshes are launched in deeds only, for live queries that there are. -/
theorem launched_does (hdoes : m.Does deed m') :
    ∃ launched, m'.db.schedule = m.db.schedule ++ launched ∧
      ∀ entry ∈ launched, ∃ live, m.db.lives[entry.1]? = some live := by
  have hlevel : ∀ {db : Database σ}, m.db.Level db → ∃ launched,
      db.schedule = m.db.schedule ++ launched ∧
        ∀ entry ∈ launched, ∃ live, m.db.lives[entry.1]? = some live :=
    fun h => ⟨[], by rw [h.schedule, List.append_nil], nofun⟩
  cases hfirst : m.db.lives[0]? with
  | some live =>
    obtain ⟨phase, epoch, launched, htransition, hcomes⟩ := undergoes_does hdoes hfirst
    exact ⟨launched, hcomes.schedule, htransition.known hfirst⟩
  | none =>
    have hlives : m.db.lives = [] := by simpa using hfirst
    have hnone : ∀ id : Nat, m.db.lives[id]? = none := by simp [hlives]
    cases hdoes with
    | act action hpermitted htells =>
      exact hlevel (Database.level_perform_of_nil hlives hpermitted htells)
    | write hedit hwrite => exact hlevel (Database.level_of_eq rfl rfl rfl)
    | @tell db _ _ _ observer change =>
      cases observer with
      | client callback => exact hlevel (.refl _)
      | live other epoch =>
        have hsame : db.changeLive other epoch change = db := by
          rw [Database.changeLive, hnone other]
        refine hlevel ?_
        rw [Database.notifyOne, hsame]
        exact .refl _
    | @takeIn _ task run refresh submitted hready htask hstage hrun =>
      have hsame := hnone refresh.live
      refine hlevel ?_
      simp only [Database.finishLive, hsame]
      exact Database.level_of_eq rfl rfl rfl
    | @retire _ task refresh htelling htask =>
      exact hlevel ((Database.level_updateRefresh task .over m.db).trans
        (Database.level_reap refresh.live _))
    | touch client => exact hlevel (Database.beside_client m.db client).level

end Moment

end Viewbase
