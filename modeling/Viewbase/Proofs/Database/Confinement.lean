import Viewbase.Database.Action
import Viewbase.Proofs.Store.Succession

/-!
Clients that use the store through its commands.

Callbacks may use the database in turn.  Whatever they do with it, what becomes of the store is the
doing of commands (`Client.Confined`), and so is what any operation of the database makes of it
(`leads_perform_of_quiet`).
-/

namespace Viewbase

/-- All that the client does to the store, it does by commands of a kind.  The kind has all commands
that are no writes. -/
structure Client.Confined {σ : Type} (c : Client σ) (allowed : Command → Prop) : Prop where
  quiet : ∀ command : Command, command.edit? = none → allowed command
  notify : ∀ callback notice db, Store.Leads allowed db.store (c.notify callback notice db).store
  beforeScan : ∀ target db, Store.Leads allowed db.store (c.beforeScan target db).1.store
  beforeDelete : ∀ index db, Store.Leads allowed db.store (c.beforeDelete index db).1.store
  beforeCreate : ∀ db, Store.Leads allowed db.store (c.beforeCreate db).1.store

theorem Client.confined_silent {σ : Type} {allowed : Command → Prop}
    (hquiet : ∀ command : Command, command.edit? = none → allowed command) :
    (Client.silent σ).Confined allowed where
  quiet := hquiet
  notify _ _ db := .refl allowed db.store
  beforeScan _ db := .refl allowed db.store
  beforeDelete _ db := .refl allowed db.store
  beforeCreate db := .refl allowed db.store

theorem Client.Confined.mono {σ : Type} {c : Client σ} {allowed wider : Command → Prop}
    (hc : c.Confined allowed) (hwider : ∀ command, allowed command → wider command) :
    c.Confined wider where
  quiet := fun command hquiet => hwider command (hc.quiet command hquiet)
  notify := fun callback notice db => (hc.notify callback notice db).mono hwider
  beforeScan := fun target db => (hc.beforeScan target db).mono hwider
  beforeDelete := fun index db => (hc.beforeDelete index db).mono hwider
  beforeCreate := fun db => (hc.beforeCreate db).mono hwider

namespace Database

variable {σ : Type} {c : Client σ} {allowed : Command → Prop}

/-! ## Requests to the store -/

theorem leads_command {command : Command} (h : allowed command) (db : Database σ) :
    Store.Leads allowed db.store (db.command command).store :=
  Store.leads_perform h db.store

theorem leads_scan (hc : c.Confined allowed) (request : Request) (db : Database σ) :
    Store.Leads allowed db.store (db.scan c request).1.store := by
  have hpassed := hc.beforeScan request.target db
  rw [scan]
  split
  next heq => rwa [heq] at hpassed
  next heq =>
    rw [heq] at hpassed
    exact hpassed.trans (Store.leads_perform (hc.quiet (.scan request) rfl) _)

theorem leads_deleteIndex (hc : c.Confined allowed) (index : Descriptor) (db : Database σ) :
    Store.Leads allowed db.store (db.deleteIndex c index).1.store := by
  have hpassed := hc.beforeDelete index.id db
  rw [deleteIndex]
  split
  next heq => rwa [heq] at hpassed
  next passed heq =>
    rw [heq] at hpassed
    have hdeleted := Store.leads_perform (hc.quiet (.deleteIndex index) rfl) passed.store
    rw [Store.perform] at hdeleted
    split
    next heq =>
      rw [heq] at hdeleted
      exact hpassed.trans hdeleted
    next => exact hpassed

theorem leads_createEphemeral (hc : c.Confined allowed) (map : MapFunction) (db : Database σ) :
    Store.Leads allowed db.store (db.createEphemeral c map).1.store := by
  have hpassed := hc.beforeCreate db
  rw [createEphemeral]
  split
  next heq => rwa [heq] at hpassed
  next heq =>
    rw [heq] at hpassed
    exact hpassed.trans (Store.leads_perform (hc.quiet (.createEphemeral map) rfl) _)

/-! ## Temporary indexes -/

theorem store_tellAll (index : Descriptor) (notes : List Temporary.Note) (db : Database σ) :
    (notes.foldl (tell index) db).store = db.store := by
  induction notes generalizing db with
  | nil => rfl
  | cons note notes ih =>
    rw [List.foldl_cons, ih]
    cases note with
    | _ => rfl

theorem leads_onTemporary (id : Nat)
    {operation : Temporary → Database σ → Temporary.Step (Database σ)}
    (h : ∀ record db, Store.Leads allowed db.store (operation record db).world.store)
    (db : Database σ) : Store.Leads allowed db.store (onTemporary id operation db).1.store := by
  rw [onTemporary]
  split
  · exact .refl allowed db.store
  next record _ =>
    dsimp only
    rw [store_tellAll]
    exact h record db

theorem leads_deleteNow (hc : c.Confined allowed) (t : Temporary) (db : Database σ) :
    Store.Leads allowed db.store (t.deleteNow (deleteIndex c) db).world.store := by
  have hdeleted := leads_deleteIndex hc t.index db
  rw [Temporary.deleteNow]
  split
  next heq => rwa [heq] at hdeleted
  next heq => rwa [heq] at hdeleted

theorem leads_deleteQuietly (hc : c.Confined allowed) (t : Temporary) (db : Database σ) :
    Store.Leads allowed db.store (t.deleteQuietly (deleteIndex c) db).world.store := by
  have hdeleted := leads_deleteNow hc t db
  rw [Temporary.deleteQuietly]
  split
  · exact hdeleted
  · exact hdeleted

theorem leads_acquireOwner (id : Nat) (db : Database σ) :
    Store.Leads allowed db.store (db.acquireOwner id).1.store := by
  refine leads_onTemporary id (fun t db => ?_) db
  rw [Temporary.acquireOwner]
  split
  · exact .refl allowed db.store
  · exact .refl allowed db.store

theorem leads_releaseOwner (hc : c.Confined allowed) (id : Nat) (db : Database σ) :
    Store.Leads allowed db.store (db.releaseOwner c id).1.store := by
  refine leads_onTemporary id (fun t db => ?_) db
  have hdeleted := leads_deleteNow hc { t with owners := 0 } db
  rw [Temporary.releaseOwner]
  split
  · exact .refl allowed db.store
  split
  · exact .refl allowed db.store
  split
  · dsimp only
    split
    · exact hdeleted
    · exact hdeleted
  · exact .refl allowed db.store

theorem leads_releaseDeferred (hc : c.Confined allowed) (id : Nat) (db : Database σ) :
    Store.Leads allowed db.store (db.releaseDeferred c id).store := by
  refine leads_onTemporary id (fun t db => ?_) db
  have hdeleted := leads_deleteQuietly hc { t with owners := t.owners - 1 } db
  rw [Temporary.releaseDeferred]
  split
  · exact .refl allowed db.store
  dsimp only
  split
  · exact .refl allowed db.store
  split
  · exact .refl allowed db.store
  · exact hdeleted

theorem leads_deleteTemporary (hc : c.Confined allowed) (id : Nat) (db : Database σ) :
    Store.Leads allowed db.store (db.deleteTemporary c id).1.store := by
  refine leads_onTemporary id (fun t db => ?_) db
  have hdeleted := leads_deleteNow hc t db
  rw [Temporary.deleteIndex]
  split
  · exact .refl allowed db.store
  split
  · exact .refl allowed db.store
  · dsimp only
    split
    · exact hdeleted
    · exact hdeleted

theorem leads_beginScan (id : Nat) (db : Database σ) :
    Store.Leads allowed db.store (db.beginScan id).1.store := by
  refine leads_onTemporary id (fun t db => ?_) db
  rw [Temporary.beginScan]
  split
  · exact .refl allowed db.store
  · exact .refl allowed db.store

theorem leads_endScan (hc : c.Confined allowed) (id : Nat) (db : Database σ) :
    Store.Leads allowed db.store (db.endScan c id).store := by
  refine leads_onTemporary id (fun t db => ?_) db
  have hdeleted := leads_deleteQuietly hc
    { t with inFlight := t.inFlight - 1, deleteWhenIdle := false } db
  rw [Temporary.endScan]
  dsimp only
  split
  · exact hdeleted
  · exact .refl allowed db.store

theorem leads_endRegistration (hc : c.Confined allowed) (temporary : Option Nat)
    (db : Database σ) : Store.Leads allowed db.store (db.endRegistration c temporary).store := by
  cases temporary with
  | none => exact .refl allowed db.store
  | some id => exact leads_endScan hc id db

theorem leads_createTemporary (hc : c.Confined allowed) (map : MapFunction) (db : Database σ) :
    Store.Leads allowed db.store (db.createTemporary c map).1.store := by
  have hcreated := leads_createEphemeral hc map db
  rw [createTemporary]
  split
  next heq => rwa [heq] at hcreated
  next heq => rwa [heq] at hcreated

/-! ## Queries -/

theorem leads_queryMap (hc : c.Confined allowed) (map : MapFunction) (db : Database σ) :
    Store.Leads allowed db.store (db.queryMap c map).1.store := by
  have hcreated := leads_createTemporary hc map db
  rw [queryMap]
  split
  next heq => rwa [heq] at hcreated
  next heq => rwa [heq] at hcreated

theorem leads_copyQuery (id : Nat) (db : Database σ) :
    Store.Leads allowed db.store (db.copyQuery id).1.store := by
  rw [copyQuery]
  split
  · exact .refl allowed db.store
  next query _ =>
    split
    · exact .refl allowed db.store
    · have hshared : Store.Leads allowed db.store (db.shareTemporary query).1.store := by
        rw [shareTemporary]
        split
        · exact leads_acquireOwner _ db
        · exact .refl allowed db.store
      split
      next heq => rwa [heq] at hshared
      next heq => rwa [heq] at hshared

theorem leads_dispose (hc : c.Confined allowed) (id : Nat) (db : Database σ) :
    Store.Leads allowed db.store (db.dispose c id).1.store := by
  rw [dispose]
  split
  · exact .refl allowed db.store
  split
  · exact .refl allowed db.store
  split
  · exact .refl allowed db.store
  next temporary _ =>
    have hreleased := leads_releaseOwner hc temporary db
    split
    next heq => rwa [heq] at hreleased
    next heq => rwa [heq] at hreleased

theorem leads_release (hc : c.Confined allowed) (id : Nat) (db : Database σ) :
    Store.Leads allowed db.store (db.release c id).store := by
  rw [release]
  split
  · exact .refl allowed db.store
  next temporary _ => exact leads_releaseDeferred hc temporary db

theorem leads_dropQuery (hc : c.Confined allowed) (id : Nat) (db : Database σ) :
    Store.Leads allowed db.store (db.dropQuery c id).store := by
  rw [dropQuery]
  split
  · exact leads_release hc id (db.note _ _)
  · exact leads_release hc id db

/-! ## Scans of queries -/

theorem leads_register (id : Nat) (db : Database σ) :
    Store.Leads allowed db.store (db.register id).1.store := by
  obtain ⟨temporaries, heq⟩ := exists_register id db
  rw [heq]
  exact .refl allowed db.store

theorem store_completed (query : Nat) (target : Target) (result : Except IndexError Answer)
    (db : Database σ) : (db.complete query target result).1.store = db.store := by
  cases result with
  | ok answer => rfl
  | error error => rfl

theorem leads_runQuery (hc : c.Confined allowed) (id : Nat) (db : Database σ) :
    Store.Leads allowed db.store (db.runQuery c id).1.store := by
  rw [runQuery]
  split
  · exact .refl allowed db.store
  next query _ =>
    have hregistered : Store.Leads allowed db.store (db.register id).1.store :=
      leads_register id db
    split
    next heq => rwa [heq] at hregistered
    next registered temporary heq =>
      rw [heq] at hregistered
      dsimp only
      rw [store_completed]
      exact (hregistered.trans (leads_scan hc query.request registered)).trans
        (leads_endRegistration hc temporary _)

/-! ## Background runs -/

theorem leads_submit (id : Nat) (recipient : Recipient) (db : Database σ) :
    Store.Leads allowed db.store (db.submit id recipient).1.store :=
  leads_register id db

theorem store_cancel (id : Nat) (db : Database σ) : (db.cancel id).1.store = db.store := by
  rw [cancel]
  split
  · rfl
  · rfl

theorem store_takePermit (id : Nat) (db : Database σ) : (db.takePermit id).store = db.store := by
  rw [takePermit]
  split
  · rfl
  · rfl

theorem store_givePermit (db : Database σ) : db.givePermit.store = db.store := by
  rw [givePermit]
  split
  · rfl
  · rfl

theorem store_wakeRecipient (recipient : Recipient) (db : Database σ) :
    (db.wakeRecipient recipient).store = db.store := by
  cases recipient with
  | _ => rfl

theorem leads_deliver (hc : c.Confined allowed) (id : Nat) (recipient : Recipient)
    (outcome : Outcome) (db : Database σ) :
    Store.Leads allowed db.store (db.deliver c id recipient outcome).store := by
  cases recipient with
  | callback callback =>
    exact hc.notify callback (.completed outcome)
      (db.updateRun id fun run => { run with stage := .ended, outcome := some outcome })
  | _ => exact .refl allowed db.store

theorem leads_conclude (hc : c.Confined allowed) (id : Nat) (run : Run)
    (outcome : Database σ → Database σ × Outcome)
    (houtcome : ∀ db, (outcome db).1.store = db.store) (db : Database σ) :
    Store.Leads allowed db.store (db.conclude c id run outcome).store := by
  rw [conclude]
  split
  next control _ =>
    have hdelivered := leads_deliver hc id run.recipient
      (outcome (db.updateRun id fun run => { run with control := control })).2
      (outcome (db.updateRun id fun run => { run with control := control })).1
    rw [houtcome] at hdelivered
    exact hdelivered
  · exact leads_deliver hc id run.recipient (.error .cancelled) (db.countCancelled "after_start")

theorem leads_startRun (hc : c.Confined allowed) (id : Nat) (db : Database σ) :
    Store.Leads allowed db.store (db.startRun c id).store := by
  rw [startRun]
  split
  · exact .refl allowed db.store
  next run _ =>
    dsimp only
    split
    · have hgiven : (db.countCancelled "before_start").givePermit.store = db.store :=
        store_givePermit _
      rw [abandon, store_wakeRecipient, ← hgiven]
      cases run.registration with
      | ok temporary => exact leads_endRegistration hc temporary _
      | error error => exact .refl allowed _
    next control error _ _ =>
      have hconcluded := leads_conclude hc id { run with control := control }
        (fun db => (db, .error error)) (fun _ => rfl)
        (((db.updateRun id fun run => { run with control := control }).count fun m =>
          { m with failed := m.failed + 1 }).givePermit)
      rw [store_givePermit] at hconcluded
      exact hconcluded
    · exact .refl allowed db.store

theorem leads_scanRun (hc : c.Confined allowed) (id : Nat) (db : Database σ) :
    Store.Leads allowed db.store (db.scanRun c id).store := by
  rw [scanRun]
  split
  · exact .refl allowed db.store
  next run _ =>
    exact (leads_scan hc run.request
      { db with scanning := db.scanning.filter (· != id) }).trans
        (leads_endRegistration hc run.registered? _)

theorem leads_finishRun (hc : c.Confined allowed) (id : Nat) (result : Except IndexError Answer)
    (db : Database σ) : Store.Leads allowed db.store (db.finishRun c id result).store := by
  rw [finishRun]
  split
  · exact .refl allowed db.store
  next run _ =>
    have hconcluded := leads_conclude hc id run (complete run.query run.request.target result)
      (fun db => store_completed run.query run.request.target result db) db.givePermit
    rw [store_givePermit] at hconcluded
    exact hconcluded

theorem leads_pollRun (hc : c.Confined allowed) (id : Nat) (db : Database σ) :
    Store.Leads allowed db.store (db.pollRun c id).store := by
  rw [pollRun]
  split
  · split
    · have hstarted := leads_startRun hc id (db.takePermit id)
      rwa [store_takePermit] at hstarted
    · rw [store_takePermit]
      exact .refl allowed db.store
  · exact leads_startRun hc id db
  next result _ => exact leads_finishRun hc id result db
  · exact .refl allowed db.store

/-! ## Live queries -/

theorem leads_makeLive (query : Nat) (db : Database σ) :
    Store.Leads allowed db.store (db.makeLive query).1.store := by
  have hcopied : Store.Leads allowed db.store (db.copyQuery query).1.store :=
    leads_copyQuery query db
  rw [makeLive]
  split
  · exact .refl allowed db.store
  split
  next heq => rwa [heq] at hcopied
  next heq => rwa [heq] at hcopied

theorem leads_startLive (hc : c.Confined allowed) (id : Nat) (db : Database σ) :
    Store.Leads allowed db.store (db.startLive id).1.store := by
  rw [startLive]
  split
  · exact .refl allowed db.store
  next live _ =>
    split
    · exact .refl allowed db.store
    split
    · exact .refl allowed db.store
    · have hsubscribed := Store.leads_perform
        (hc.quiet (.subscribe live.index (.live id (live.epoch + 1))) rfl) db.store
      rw [Store.perform] at hsubscribed
      dsimp only
      split
      next => exact .refl allowed db.store
      next token store heq =>
        have heq' : db.store.subscribe live.index (.live id (live.epoch + 1)) =
          .ok (token, store) := heq
        rw [heq'] at hsubscribed
        exact hsubscribed

theorem leads_stopLive (hc : c.Confined allowed) (id : Nat) (db : Database σ) :
    Store.Leads allowed db.store (db.stopLive id).store := by
  rw [stopLive]
  split
  · exact .refl allowed db.store
  next live _ =>
    split
    · exact .refl allowed db.store
    · have hcancelled : ∀ db : Database σ, (db.cancelRunning live.running).store = db.store := by
        intro db
        cases live.running with
        | none => rfl
        | some run => exact store_cancel run db
      cases live.token with
      | none =>
        show Store.Leads allowed db.store (cancelRunning live.running _).store
        rw [hcancelled]
        exact .refl allowed db.store
      | some token =>
        show Store.Leads allowed db.store ((cancelRunning live.running _).store.unsubscribe token)
        rw [hcancelled]
        exact Store.leads_perform (hc.quiet (.unsubscribe token) rfl) db.store

theorem leads_disposeLive (hc : c.Confined allowed) (id : Nat) (db : Database σ) :
    Store.Leads allowed db.store (db.disposeLive c id).store := by
  rw [disposeLive]
  split
  · exact .refl allowed db.store
  next live _ =>
    split
    · exact .refl allowed db.store
    · exact (leads_stopLive hc id
        (db.updateLive id fun live => { live with disposed := true })).trans
          (leads_release hc live.query _)

theorem leads_reap (hc : c.Confined allowed) (id : Nat) (db : Database σ) :
    Store.Leads allowed db.store (db.reap c id).store := by
  rw [reap]
  split
  · exact .refl allowed db.store
  split
  · exact .refl allowed db.store
  next live _ _ => exact leads_dropQuery hc live.query db

theorem leads_dropLive (hc : c.Confined allowed) (id : Nat) (db : Database σ) :
    Store.Leads allowed db.store (db.dropLive c id).store :=
  (leads_stopLive hc id db).trans
    (leads_reap hc id ((db.stopLive id).updateLive id fun live => { live with held := false }))

theorem store_removeListener (id callback : Nat) (db : Database σ) :
    (db.removeListener id callback).1.store = db.store := by
  rw [removeListener]
  split
  · rfl
  · rfl

theorem store_changeLive (id epoch : Nat) (change : Change) (db : Database σ) :
    (db.changeLive id epoch change).store = db.store := by
  rw [changeLive]
  split
  · rfl
  split
  · rfl
  split
  · rfl
  · rfl
  · rfl
  · rfl

theorem leads_notifyOne (hc : c.Confined allowed) (change : Change) (observer : Observer)
    (db : Database σ) : Store.Leads allowed db.store (db.notifyOne c change observer).store := by
  cases observer with
  | client callback => exact hc.notify callback (.change change) db
  | live id epoch =>
    rw [notifyOne, store_changeLive]
    exact .refl allowed db.store

/-! ## Refreshes -/

theorem leads_tellListeners (hc : c.Confined allowed) (change : Refreshed) (listeners : List Nat)
    (db : Database σ) :
    Store.Leads allowed db.store (db.tellListeners c change listeners).store := by
  induction listeners generalizing db with
  | nil => exact .refl allowed db.store
  | cons listener listeners ih =>
    exact (hc.notify listener (.refreshed change) db).trans
      (ih (c.notify listener (.refreshed change) db))

theorem store_recordVerdict (live : LiveQuery) (verdict : LiveQuery.Verdict) (db : Database σ) :
    (db.recordVerdict live verdict).store = db.store := by
  cases verdict with
  | _ => rfl

theorem store_settleLive (id : Nat) (live : LiveQuery) (db : Database σ) :
    (db.settleLive id live).store = db.store := by
  rw [settleLive]
  split
  · rfl
  · rfl

theorem leads_finishLive (hc : c.Confined allowed) (id epoch : Nat) (outcome : Outcome)
    (db : Database σ) : Store.Leads allowed db.store (db.finishLive c id epoch outcome).store := by
  rw [finishLive]
  split
  · exact .refl allowed db.store
  next live _ =>
    split
    · exact .refl allowed db.store
    · have hsettled : ((((db.recordVerdict live (live.judge outcome)).updateLive id fun other =>
          { other.absorb (live.judge outcome) with running := none }).settleLive id live)).store =
          db.store :=
        (store_settleLive id live _).trans (store_recordVerdict live (live.judge outcome) db)
      dsimp only
      split
      · rw [hsettled]
        exact .refl allowed db.store
      next change _ =>
        have htold := leads_tellListeners hc change live.listeners
          (((db.recordVerdict live (live.judge outcome)).updateLive id fun other =>
            { other.absorb (live.judge outcome) with running := none }).settleLive id live)
        rwa [hsettled] at htold

theorem leads_executeLive (task id epoch : Nat) (db : Database σ) :
    Store.Leads allowed db.store (db.executeLive task id epoch).store := by
  rw [executeLive]
  split
  · exact .refl allowed db.store
  next live _ =>
    split
    · exact .refl allowed db.store
    · exact leads_submit live.query (.refresh task) db

theorem leads_pollRefresh (hc : c.Confined allowed) (task : Nat) (db : Database σ) :
    Store.Leads allowed db.store (db.pollRefresh c task).store := by
  rw [pollRefresh]
  split
  · exact .refl allowed db.store
  next refresh _ =>
    have hexecuted : Store.Leads allowed db.store
        ((db.executeLive task refresh.live refresh.epoch).reap c refresh.live).store :=
      (leads_executeLive task refresh.live refresh.epoch db).trans (leads_reap hc refresh.live _)
    dsimp only
    split
    · exact hexecuted
    · exact .refl allowed db.store
    · exact hexecuted
    next run _ =>
      split
      · exact .refl allowed db.store
      next submitted _ =>
        have hfinished := leads_finishLive hc refresh.live refresh.epoch submitted.answer db
        exact hfinished.trans (leads_reap hc refresh.live
          ((db.finishLive c refresh.live refresh.epoch submitted.answer).updateRefresh task
            fun refresh => { refresh with stage := .over }))
    · exact .refl allowed db.store
    · exact .refl allowed db.store

theorem store_fire (now : Nat) (db : Database σ) : (db.fire now).store = db.store := by
  rw [fire]
  generalize (db.timers.filter fun timer => decide (timer.due ≤ now)).map Timer.refresh = fired
  have hrung : ∀ db : Database σ, (fired.foldl
      (fun db task => (db.updateRefresh task fun refresh =>
        { refresh with stage := .due }).wake (.refresh task)) db).store = db.store := by
    intro db
    induction fired generalizing db with
    | nil => rfl
    | cons task fired ih => exact ih _
  exact hrung _

end Database

/-! ## Actions -/

/-- How an action edits a document, if it is a write. -/
def Action.edit? : Action → Option (String × Store.Edit)
  | put id body => some (id, Store.putEdit id body)
  | delete id => some (id, Store.deleteEdit id)
  | addConflict id rev => some (id, Store.conflictEdit id rev)
  | resolveConflicts id => some (id, Store.resolveEdit id)
  | _ => none

namespace Database

variable {σ : Type} {c : Client σ} {allowed : Command → Prop}

/-- An action that is no write leads on by commands that the client may use. -/
theorem leads_perform_of_quiet (hc : c.Confined allowed) {action : Action}
    (hquiet : action.edit? = none) (db : Database σ) :
    Store.Leads allowed db.store (db.perform c action).store := by
  cases action with
  | put id body => cases hquiet
  | delete id => cases hquiet
  | addConflict id rev => cases hquiet
  | resolveConflicts id => cases hquiet
  | defineView name map reduce => exact leads_command (hc.quiet _ rfl) db
  | deleteIndex index => exact leads_deleteIndex hc index db
  | subscribe index callback => exact leads_command (hc.quiet _ rfl) db
  | unsubscribe token => exact leads_command (hc.quiet _ rfl) db
  | scan request => exact leads_scan hc request db
  | queryMap map => exact leads_queryMap hc map db
  | copyQuery query => exact leads_copyQuery query db
  | disposeQuery query => exact leads_dispose hc query db
  | dropQuery query => exact leads_dropQuery hc query db
  | runQuery query => exact leads_runQuery hc query db
  | submit query recipient => exact leads_submit query recipient db
  | cancel run =>
    rw [perform, store_cancel]
    exact .refl allowed db.store
  | acquireOwner temporary => exact leads_acquireOwner temporary db
  | releaseOwner temporary => exact leads_releaseOwner hc temporary db
  | releaseDeferred temporary => exact leads_releaseDeferred hc temporary db
  | deleteTemporary temporary => exact leads_deleteTemporary hc temporary db
  | beginScan temporary => exact leads_beginScan temporary db
  | endScan temporary => exact leads_endScan hc temporary db
  | makeLive query => exact leads_makeLive query db
  | startLive live => exact leads_startLive hc live db
  | stopLive live => exact leads_stopLive hc live db
  | disposeLive live => exact leads_disposeLive hc live db
  | dropLive live => exact leads_dropLive hc live db
  | removeListener live callback =>
    rw [perform, store_removeListener]
    exact .refl allowed db.store
  | go job =>
    rw [perform, go]
    split
    · cases job with
      | run id => exact leads_pollRun hc id { db with ready := db.ready.erase (.run id) }
      | refresh task =>
        exact leads_pollRefresh hc task { db with ready := db.ready.erase (.refresh task) }
    · exact .refl allowed db.store
  | scanRun run =>
    rw [perform, endRunScan]
    split
    · exact leads_scanRun hc run db
    · exact .refl allowed db.store
  | fire =>
    rw [perform, fireNext]
    split
    · rw [store_fire]
      exact .refl allowed db.store
    · exact .refl allowed db.store
  | queryIndex index => exact .refl allowed db.store
  | queryDocuments => exact .refl allowed db.store
  | configure query change => exact .refl allowed db.store
  | addListener live callback => exact .refl allowed db.store

end Database

end Viewbase
