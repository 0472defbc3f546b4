import Viewbase.Proofs.Database.Dwindling
import Viewbase.Proofs.Database.Resting

/-!
Temporary indexes are in custody whatever happens.

Every action keeps the custody of temporary indexes, with a store that may refuse any request; only a
deletion that somebody asks of the store takes an index away from under its record (`Kept.perform`).
So in every history an index is there as long as its record is not marked as deleted and nobody has
taken it away (`Custody.Reached.kept`).
-/

namespace Viewbase

namespace Database

variable {σ : Type} {c : Client σ} {db db' : Database σ} {taken : List IndexId}

/-! ## Temporary indexes -/

theorem Kept.leaves (h : db.Kept taken) {store : Store} (hleaves : db.store.Leaves [] store) :
    Kept taken { db with store := store } :=
  Custody.leaves h hleaves

theorem Kept.acquireOwner (h : db.Kept taken) (id : Nat) : (db.acquireOwner id).1.Kept taken :=
  h.onTemporary fun record => minded_acquireOwner record db

theorem Kept.releaseOwner (hc : c.Passive) (h : db.Kept taken) (id : Nat) :
    (db.releaseOwner c id).1.Kept taken :=
  h.onTemporary fun record => minded_releaseOwner hc record db

theorem Kept.releaseDeferred (hc : c.Passive) (h : db.Kept taken) (id : Nat) :
    (db.releaseDeferred c id).Kept taken :=
  h.onTemporary fun record => minded_releaseDeferred hc record db

theorem Kept.deleteTemporary (hc : c.Passive) (h : db.Kept taken) (id : Nat) :
    (db.deleteTemporary c id).1.Kept taken :=
  h.onTemporary fun record => minded_deleteTemporary hc record db

theorem Kept.beginScan (h : db.Kept taken) (id : Nat) : (db.beginScan id).1.Kept taken :=
  h.onTemporary fun record => minded_beginScan record db

theorem Kept.createTemporary (hc : c.Passive) (h : db.Kept taken) (map : MapFunction) :
    (db.createTemporary c map).1.Kept taken := by
  have hpassed := hc.beforeCreate db
  rw [Database.createTemporary, createEphemeral]
  rcases hbefore : c.beforeCreate db with ⟨passed, refusal⟩
  rw [hbefore] at hpassed
  subst hpassed
  cases refusal with
  | some error => exact h
  | none => exact Custody.push h map

/-! ## Queries -/

theorem Kept.queryMap (hc : c.Passive) (h : db.Kept taken) (map : MapFunction) :
    (db.queryMap c map).1.Kept taken := by
  have hcreated := h.createTemporary hc map
  rw [Database.queryMap]
  split
  next heq => rwa [heq] at hcreated
  next heq =>
    rw [heq] at hcreated
    exact hcreated

theorem Kept.copyQuery (h : db.Kept taken) (id : Nat) : (db.copyQuery id).1.Kept taken := by
  have hshared : ∀ query : Query, (db.shareTemporary query).1.Kept taken := by
    intro query
    rw [shareTemporary]
    split
    · exact h.acquireOwner _
    · exact h
  rw [Database.copyQuery]
  split
  · exact h
  next query _ =>
    have hquery := hshared query
    split
    · exact h
    split
    next heq => rwa [heq] at hquery
    next heq =>
      rw [heq] at hquery
      exact hquery

theorem Kept.dispose (hc : c.Passive) (h : db.Kept taken) (id : Nat) :
    (db.dispose c id).1.Kept taken := by
  rw [Database.dispose]
  split
  · exact h
  split
  · exact h
  split
  · exact h
  next temporary _ =>
    have hreleased := h.releaseOwner hc temporary
    split
    next heq => rwa [heq] at hreleased
    next heq =>
      rw [heq] at hreleased
      exact hreleased

theorem Kept.release (hc : c.Passive) (h : db.Kept taken) (id : Nat) :
    (db.release c id).Kept taken := by
  rw [Database.release]
  split
  · exact h
  next temporary _ => exact h.releaseDeferred hc temporary

theorem Kept.dropQuery (hc : c.Passive) (h : db.Kept taken) (id : Nat) :
    (db.dropQuery c id).Kept taken := by
  rw [Database.dropQuery]
  refine Kept.release hc ?_ id
  split
  · exact h
  · exact h

theorem Kept.register (h : db.Kept taken) (id : Nat) : (db.register id).1.Kept taken := by
  rcases Database.fst_register id db with heq | ⟨temporary, heq⟩
  · rwa [heq]
  · rw [heq]
    exact h.beginScan temporary

theorem Kept.runQuery (hc : c.Passive) (h : db.Kept taken) (id : Nat) :
    (db.runQuery c id).1.Kept taken := by
  have hregistered := h.register id
  rw [Database.runQuery]
  split
  · exact h
  next query _ =>
    split
    next heq => rwa [heq] at hregistered
    next registered temporary heq =>
      rw [heq] at hregistered
      refine hregistered.dwindles ?_
      exact ((dwindles_scan hc query.request registered).trans
        (dwindles_endRegistration hc temporary _)).trans (dwindles_complete id _ _ _)

theorem Kept.submit (h : db.Kept taken) (id : Nat) (recipient : Recipient) :
    (db.submit id recipient).1.Kept taken :=
  h.register id

/-! ## Live queries -/

theorem Kept.makeLive (h : db.Kept taken) (query : Nat) : (db.makeLive query).1.Kept taken := by
  have hcopied := h.copyQuery query
  rw [Database.makeLive]
  split
  · exact h
  split
  next heq => rwa [heq] at hcopied
  next heq =>
    rw [heq] at hcopied
    exact hcopied

theorem Kept.startLive (h : db.Kept taken) (id : Nat) : (db.startLive id).1.Kept taken := by
  rw [Database.startLive]
  split
  · exact h
  split
  · exact h
  split
  · exact h
  dsimp only
  split
  · exact h
  next hsubscribe => exact h.leaves (Store.leaves_subscribe hsubscribe)

theorem Kept.stopLive (h : db.Kept taken) (id : Nat) : (db.stopLive id).Kept taken := by
  have hcancelled : ∀ {db : Database σ} (running : Option Nat), db.Kept taken →
      (db.cancelRunning running).Kept taken := by
    rintro db (_ | run) h
    · exact h
    · exact h.dwindles (dwindles_cancel run db)
  have hended : ∀ {db : Database σ} (token : Option Token), db.Kept taken →
      (db.endSubscription token).Kept taken := by
    rintro db (_ | token) h
    · exact h
    · exact ⟨h.known, h.distinct, h.unnamed, h.there, h.idle⟩
  rw [Database.stopLive]
  split
  · exact h
  split
  · exact h
  · refine hended _ (hcancelled _ ?_)
    exact h

theorem Kept.disposeLive (hc : c.Passive) (h : db.Kept taken) (id : Nat) :
    (db.disposeLive c id).Kept taken := by
  rw [Database.disposeLive]
  split
  · exact h
  split
  · exact h
  · refine Kept.release hc (Kept.stopLive ?_ id) _
    exact h

theorem Kept.reap (hc : c.Passive) (h : db.Kept taken) (id : Nat) : (db.reap c id).Kept taken := by
  rw [Database.reap]
  split
  · exact h
  split
  · exact h
  · exact h.dropQuery hc _

theorem Kept.dropLive (hc : c.Passive) (h : db.Kept taken) (id : Nat) :
    (db.dropLive c id).Kept taken := by
  refine Kept.reap hc ?_ id
  exact h.stopLive id

theorem Kept.changeLive (h : db.Kept taken) (id epoch : Nat) (change : Change) :
    (db.changeLive id epoch change).Kept taken := by
  rw [Database.changeLive]
  split
  · exact h
  split
  · exact h
  split <;> exact h

theorem Kept.notifyOne (hc : c.Passive) (h : db.Kept taken) (change : Change)
    (observer : Observer) : (db.notifyOne c change observer).Kept taken := by
  cases observer with
  | client callback =>
    rw [Database.notifyOne, hc.notify]
    exact h
  | live id epoch => exact h.changeLive id epoch change

theorem Kept.write (hc : c.Passive) (h : db.Kept taken) (id : String) (edit : Store.Edit) :
    (db.write c id edit).1.Kept taken := by
  have htold : ∀ (change : Change) (audience : List Observer) {db : Database σ}, db.Kept taken →
      (audience.foldl (Database.notifyOne c change) db).Kept taken := by
    intro change audience
    induction audience with
    | nil => exact fun h => h
    | cons observer audience ih => exact fun h => ih (h.notifyOne hc change observer)
  rw [Database.write]
  split
  · exact h
  next hwrite => exact htold _ _ (h.leaves (Store.same_write hwrite).leaves)

theorem Kept.finishLive (hc : c.Passive) (h : db.Kept taken) (id epoch : Nat) (outcome : Outcome) :
    (db.finishLive c id epoch outcome).Kept taken := by
  have hverdict : ∀ (live : LiveQuery) (verdict : LiveQuery.Verdict) {db : Database σ},
      db.Kept taken → (db.recordVerdict live verdict).Kept taken := by
    intro live verdict db h
    cases verdict <;> exact h
  have hsettled : ∀ (live : LiveQuery) {db : Database σ}, db.Kept taken →
      (db.settleLive id live).Kept taken := by
    intro live db h
    rw [settleLive]
    split <;> exact h
  rw [Database.finishLive]
  split
  · exact h
  next live _ =>
    split
    · exact h
    · have htaken := hsettled live (show Kept taken (updateLive _ id fun other =>
        { other.absorb (live.judge outcome) with running := none }) from
          hverdict live (live.judge outcome) h)
      dsimp only
      split
      · exact htaken
      · rw [tellListeners_passive hc]
        exact htaken

theorem Kept.executeLive (h : db.Kept taken) (task id epoch : Nat) :
    (db.executeLive task id epoch).Kept taken := by
  rw [Database.executeLive]
  split
  · exact h
  next live _ =>
    split
    · exact h
    · exact h.submit live.query (.refresh task)

theorem Kept.pollRefresh (hc : c.Passive) (h : db.Kept taken) (task : Nat) :
    (db.pollRefresh c task).Kept taken := by
  rw [Database.pollRefresh]
  split
  · exact h
  next refresh _ =>
    dsimp only
    split
    · exact (h.executeLive task _ _).reap hc _
    · exact h
    · exact (h.executeLive task _ _).reap hc _
    · split
      · exact h
      next submitted _ =>
        refine Kept.reap hc ?_ refresh.live
        exact h.finishLive hc refresh.live refresh.epoch submitted.answer
    · exact h
    · exact h

/-! ## Actions -/

theorem Kept.go (hc : c.Passive) (h : db.Kept taken) (job : Job) : (db.go c job).Kept taken := by
  rw [Database.go]
  split
  · have htaken : Kept taken { db with ready := db.ready.erase job } := h
    cases job with
    | run id => exact htaken.dwindles (dwindles_pollRun hc id _)
    | refresh task => exact htaken.pollRefresh hc task
  · exact h

/-- The index that the action takes away past its record, if any. -/
def takes (c : Client σ) (db : Database σ) : Action → List IndexId
  | .deleteIndex index =>
    match (db.deleteIndex c index).2 with
    | .ok () => [index.id]
    | .error _ => []
  | _ => []

theorem Kept.deleteIndex (hc : c.Passive) (h : db.Kept taken) (index : Descriptor) :
    (db.deleteIndex c index).1.Kept (db.takes c (.deleteIndex index) ++ taken) := by
  rw [takes]
  rcases deleteIndex_passive hc index db with ⟨error, heq⟩ | ⟨store, hstore, heq⟩
  · rw [heq]
    exact h
  · rw [heq]
    exact Custody.leaves h (Store.leaves_deleteIndex hstore).1

theorem Kept.perform (hc : c.Passive) (h : db.Kept taken) (action : Action) :
    (db.perform c action).Kept (db.takes c action ++ taken) := by
  cases action with
  | put id body => exact h.write hc id _
  | delete id => exact h.write hc id _
  | addConflict id rev => exact h.write hc id _
  | resolveConflicts id => exact h.write hc id _
  | defineView name map reduce => exact h.leaves (Store.leaves_defineView db.store name map reduce)
  | deleteIndex index => exact h.deleteIndex hc index
  | subscribe index callback =>
    refine h.leaves ?_
    rw [Store.perform]
    split
    next hsubscribe => exact Store.leaves_subscribe hsubscribe
    next => exact (Store.Same.refl _).leaves
  | unsubscribe token => exact ⟨h.known, h.distinct, h.unnamed, h.there, h.idle⟩
  | scan request => exact h.dwindles (dwindles_scan hc request db)
  | queryMap map => exact h.queryMap hc map
  | copyQuery query => exact h.copyQuery query
  | disposeQuery query => exact h.dispose hc query
  | dropQuery query => exact h.dropQuery hc query
  | runQuery query => exact h.runQuery hc query
  | submit query recipient => exact h.submit query recipient
  | cancel run => exact h.dwindles (dwindles_cancel run db)
  | acquireOwner temporary => exact h.acquireOwner temporary
  | releaseOwner temporary => exact h.releaseOwner hc temporary
  | releaseDeferred temporary => exact h.releaseDeferred hc temporary
  | deleteTemporary temporary => exact h.deleteTemporary hc temporary
  | beginScan temporary => exact h.beginScan temporary
  | endScan temporary => exact h.endScan hc temporary
  | makeLive query => exact h.makeLive query
  | startLive live => exact h.startLive live
  | stopLive live => exact h.stopLive live
  | disposeLive live => exact h.disposeLive hc live
  | dropLive live => exact h.dropLive hc live
  | removeListener live callback =>
    show (db.removeListener live callback).1.Kept taken
    rw [removeListener]
    split <;> exact h
  | go job => exact h.go hc job
  | scanRun run =>
    show (db.endRunScan c run).Kept taken
    rw [endRunScan]
    split
    · exact h.dwindles (dwindles_scanRun hc run db)
    · exact h
  | fire =>
    show db.fireNext.Kept taken
    obtain ⟨clock, timers, refreshes, ready, heq, -⟩ := exists_fireNext db
    rw [heq]
    exact h
  | queryIndex | queryDocuments | configure | addListener => exact h

end Database

/-! ## Histories -/

namespace Custody

open Database Moment

variable {σ : Type} {taken : List IndexId} {m m' : Moment σ}

/-- What can happen next.  Any action may be taken while the store refuses what it likes, and what is
told to whom may come in steps of its own.  A query that is run at once registers its scan, and comes
back later. -/
inductive Step : Moment σ → List IndexId → Moment σ → Prop where
  | act {m : Moment σ} {c : Client σ} (hc : c.Passive) (action : Action) :
      Step m (m.db.takes c action) { m with db := m.db.perform c action }
  | deed {m m' : Moment σ} {deed : Deed σ} (hdeed : ∀ action, deed ≠ .act action)
      (hdoes : m.Does deed m') : Step m [] m'
  | call {m : Moment σ} (query : Nat) : Step m [] { m with db := (m.db.register query).1 }
  | comeBack {m : Moment σ} {c : Client σ} (hc : c.Passive) (temporary : Option Nat) (query : Nat)
      (target : Target) (result : Except IndexError Answer) :
      Step m []
        { m with
          db := ((m.db.endRegistration c temporary).complete query target result).1 }

/-- The moments that steps lead to from a new database, and the indexes that were taken away past
their records on the way. -/
inductive Reached : List IndexId → Moment σ → Prop where
  | create {config : Config} {least : Severity} {numbered : Nat} {client : σ} {db : Database σ}
      (hcreate : Database.create config least numbered client = .ok db) : Reached [] ⟨db, [], []⟩
  | step {taken more : List IndexId} {m m' : Moment σ} (hreached : Reached taken m)
      (hstep : Step m more m') : Reached (more ++ taken) m'

theorem kept_does {deed : Deed σ} (h : m.db.Kept taken) (hdeed : ∀ action, deed ≠ .act action)
    (hdoes : m.Does deed m') : m'.db.Kept taken := by
  have hsilent := Client.passive_silent σ
  cases hdoes with
  | act action hpermitted htells => exact absurd rfl (hdeed action)
  | write hedit hwrite => exact h.leaves (Store.same_write hwrite).leaves
  | tell observer change => exact h.notifyOne hsilent change observer
  | takeIn hready htask hstage hrun =>
    refine Kept.finishLive hsilent ?_ _ _ _
    exact h
  | retire htelling htask =>
    refine Kept.reap hsilent ?_ _
    exact h
  | touch client => exact h

theorem kept_step {more : List IndexId} (h : m.db.Kept taken) (hstep : Step m more m') :
    m'.db.Kept (more ++ taken) := by
  cases hstep with
  | act hc action => exact h.perform hc action
  | deed hdeed hdoes => exact kept_does h hdeed hdoes
  | call query => exact h.register query
  | comeBack hc temporary query target result =>
    exact h.dwindles ((dwindles_endRegistration hc temporary _).trans
      (dwindles_complete query target result _))

theorem Reached.kept (h : Reached taken m) : m.db.Kept taken := by
  induction h with
  | @create config least numbered client db hcreate =>
    rw [Database.create] at hcreate
    split at hcreate
    · cases hcreate
    · cases hcreate
      exact ⟨List.forall_mem_nil _, .nil, List.forall_mem_nil _, List.forall_mem_nil _,
        List.forall_mem_nil _⟩
  | step _ hstep ih => exact kept_step ih hstep

end Custody

end Viewbase
