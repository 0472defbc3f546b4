import Viewbase.Proofs.Database.Custody

/-!
Scans that come to their end.

While runs and calls go on to their ends and nothing else happens, scans are answered and their
registrations end (`Dwindles`).  That deletes no index whose record still counts a share
(`Dwindles.owned`).
-/

namespace Viewbase

open Relation

namespace Query

/-- A query but for what it has seen. -/
def unseen (query : Query) : Query :=
  { query with lastGeneration := none }

@[simp] theorem unseen_disposed (query : Query) : query.unseen.disposed = query.disposed := rfl

@[simp] theorem unseen_temporary (query : Query) : query.unseen.temporary = query.temporary := rfl

end Query

namespace Database

variable {σ : Type} {c : Client σ} {db db' : Database σ} {taken : List IndexId}
  {record : Temporary} {id : Nat}

/-! ## Registrations that end -/

theorem Kept.endScan (hc : c.Passive) (h : db.Kept taken) (id : Nat) :
    (db.endScan c id).Kept taken :=
  h.onTemporary fun record => minded_endScan hc record db

/-- A record that is not to be deleted late is left with one registered scan less, if it is its own
that ends. -/
theorem owned_endScan (hc : c.Passive) (hrecord : db.temporaries[id]? = some record)
    (hidle : record.deleteWhenIdle = false) (other : Nat) :
    ∃ inFlight, (db.endScan c other).temporaries[id]? =
      some { record with inFlight := inFlight } := by
  rw [endScan]
  by_cases hother : other = id
  · subst hother
    have hended : record.endScan (deleteIndex c) db =
        ⟨{ record with inFlight := record.inFlight - 1 }, db, [], .ok ()⟩ := by
      simp [Temporary.endScan, hidle]
    obtain ⟨-, htemporaries, -⟩ := onTemporary_eq hrecord (minded_endScan hc record db)
    rw [htemporaries, hended, getElem?_set_of_some hrecord, if_pos rfl]
    exact ⟨_, rfl⟩
  · refine ⟨record.inFlight, ?_⟩
    cases hfound : db.temporaries[other]? with
    | none =>
      simp only [onTemporary, hfound]
      exact hrecord
    | some found =>
      obtain ⟨-, htemporaries, -⟩ := onTemporary_eq hfound (minded_endScan hc found db)
      rw [htemporaries, getElem?_set_of_some hfound, if_neg (Ne.symm hother)]
      exact hrecord

/-- The end of a registration may delete an index; queries and subscriptions stay. -/
theorem queries_endScan (hc : c.Passive) (id : Nat) (db : Database σ) :
    (db.endScan c id).queries = db.queries ∧
      (db.endScan c id).store.subscriptions = db.store.subscriptions := by
  rw [endScan]
  cases hrecord : db.temporaries[id]? with
  | none => simp only [onTemporary, hrecord, and_self]
  | some record =>
    have hminded := minded_endScan hc record db
    obtain ⟨hstore, -, hqueries⟩ := onTemporary_eq hrecord hminded
    refine ⟨hqueries, ?_⟩
    rw [hstore]
    rcases hminded.world with ⟨heq, -⟩ | ⟨store, heq, -, hgone⟩
    · rw [heq]
    · rw [heq]
      exact (Store.leaves_deleteIndex hgone).2.2

/-! ## Scans that come to their end -/

/-- A scan is answered, or its registration ends.  What temporary indexes do not depend on may change
beside. -/
inductive Dwindle : Database σ → Database σ → Prop where
  | aside {db db' : Database σ} (hstore : db.store.Same db'.store)
      (htemporaries : db'.temporaries = db.temporaries)
      (hqueries : db'.queries.map Query.unseen = db.queries.map Query.unseen) : Dwindle db db'
  | endScan {c : Client σ} (hc : c.Passive) (id : Nat) (db : Database σ) :
      Dwindle db (db.endScan c id)

abbrev Dwindles : Database σ → Database σ → Prop :=
  ReflTransGen Dwindle

theorem Kept.dwindles (h : db.Kept taken) (hdwindles : Dwindles db db') : db'.Kept taken := by
  induction hdwindles with
  | refl => exact h
  | tail _ hlast ih =>
    cases hlast with
    | aside hstore htemporaries hqueries =>
      rw [Kept, htemporaries]
      exact Custody.leaves ih hstore.leaves
    | endScan hc id => exact ih.endScan hc id

/-- While shares are held, only the count of registered scans changes. -/
theorem Dwindles.owned (h : Dwindles db db') (hrecord : db.temporaries[id]? = some record)
    (hidle : record.deleteWhenIdle = false) :
    ∃ inFlight, db'.temporaries[id]? = some { record with inFlight := inFlight } := by
  induction h with
  | refl => exact ⟨record.inFlight, hrecord⟩
  | tail _ hlast ih =>
    obtain ⟨inFlight, hbefore⟩ := ih
    cases hlast with
    | aside hstore htemporaries hqueries => exact ⟨inFlight, htemporaries ▸ hbefore⟩
    | endScan hc other => exact owned_endScan hc hbefore hidle other

/-- Queries change in what they have seen only, and subscriptions stay. -/
theorem Dwindles.beside (h : Dwindles db db') :
    db'.queries.map Query.unseen = db.queries.map Query.unseen ∧
      db'.store.subscriptions = db.store.subscriptions := by
  induction h with
  | refl => exact ⟨rfl, rfl⟩
  | @tail before _ _ hlast ih =>
    obtain ⟨hqueries, hsubscriptions⟩ := ih
    cases hlast with
    | aside hstore _ hsame =>
      exact ⟨hsame.trans hqueries, hstore.subscriptions.trans hsubscriptions⟩
    | endScan hc id =>
      obtain ⟨hsame, hkept⟩ := queries_endScan hc id before
      exact ⟨(congrArg _ hsame).trans hqueries, hkept.trans hsubscriptions⟩

theorem dwindles_of_eq (hstore : db'.store = db.store)
    (htemporaries : db'.temporaries = db.temporaries) (hqueries : db'.queries = db.queries) :
    Dwindles db db' :=
  .single (.aside (hstore ▸ .refl _) htemporaries (congrArg _ hqueries))

theorem dwindles_updateRun (id : Nat) (change : Run → Run) (db : Database σ) :
    Dwindles db (db.updateRun id change) :=
  dwindles_of_eq rfl rfl rfl

theorem dwindles_countCancelled (stage : String) (db : Database σ) :
    Dwindles db (db.countCancelled stage) :=
  dwindles_of_eq rfl rfl rfl

theorem dwindles_scan (hc : c.Passive) (request : Request) (db : Database σ) :
    Dwindles db (db.scan c request).1 := by
  have hpassed := hc.beforeScan request.target db
  rw [scan]
  split
  next heq =>
    rw [heq] at hpassed
    cases hpassed
    exact .refl
  next heq =>
    rw [heq] at hpassed
    cases hpassed
    exact .single (.aside (Store.same_scan _ request) rfl rfl)

theorem dwindles_endRegistration (hc : c.Passive) (temporary : Option Nat) (db : Database σ) :
    Dwindles db (db.endRegistration c temporary) := by
  cases temporary with
  | none => exact .refl
  | some id => exact .single (.endScan hc id db)

theorem dwindles_complete (query : Nat) (target : Target) (result : Except IndexError Answer)
    (db : Database σ) : Dwindles db (db.complete query target result).1 := by
  cases result with
  | ok answer =>
    refine .single (.aside (.refl _) rfl (List.ext_getElem? fun other => ?_))
    simp only [complete, note, count, updateQuery, List.getElem?_map, List.getElem?_modify]
    split
    · cases db.queries[other]? <;> rfl
    · cases db.queries[other]? <;> rfl
  | error error => exact dwindles_of_eq rfl rfl rfl

theorem dwindles_cancel (id : Nat) (db : Database σ) : Dwindles db (db.cancel id).1 := by
  rw [cancel]
  split
  · exact .refl
  · exact dwindles_of_eq rfl rfl rfl

theorem dwindles_takePermit (id : Nat) (db : Database σ) : Dwindles db (db.takePermit id) := by
  rw [takePermit]
  split <;> exact dwindles_of_eq rfl rfl rfl

theorem dwindles_givePermit (db : Database σ) : Dwindles db db.givePermit := by
  rw [givePermit]
  split <;> exact dwindles_of_eq rfl rfl rfl

theorem dwindles_wakeRecipient (recipient : Recipient) (db : Database σ) :
    Dwindles db (db.wakeRecipient recipient) := by
  cases recipient <;> exact dwindles_of_eq rfl rfl rfl

theorem dwindles_deliver (hc : c.Passive) (id : Nat) (recipient : Recipient) (outcome : Outcome)
    (db : Database σ) : Dwindles db (db.deliver c id recipient outcome) := by
  rw [deliver_passive hc]
  exact (dwindles_updateRun id _ db).trans (dwindles_wakeRecipient recipient _)

theorem dwindles_conclude (hc : c.Passive) (id : Nat) (run : Run)
    {outcome : Database σ → Database σ × Outcome}
    (houtcome : ∀ db, Dwindles db (outcome db).1) (db : Database σ) :
    Dwindles db (db.conclude c id run outcome) := by
  rw [conclude]
  split
  · exact ((dwindles_updateRun id _ db).trans (houtcome _)).trans
      (dwindles_deliver hc id run.recipient _ _)
  · exact (dwindles_countCancelled "after_start" db).trans
      (dwindles_deliver hc id run.recipient _ _)

theorem dwindles_startRun (hc : c.Passive) (id : Nat) (db : Database σ) :
    Dwindles db (db.startRun c id) := by
  rw [startRun]
  split
  · exact .refl
  next run _ =>
    split
    next =>
      have hgiven := (dwindles_countCancelled "before_start" db).trans (dwindles_givePermit _)
      have hended : ∀ db : Database σ, Dwindles db (db.abandon id run.recipient) := fun db =>
        (dwindles_updateRun id _ db).trans (dwindles_wakeRecipient run.recipient _)
      dsimp only
      split
      · exact (hgiven.trans (dwindles_endRegistration hc _ _)).trans (hended _)
      · exact hgiven.trans (hended _)
    next control error _ _ =>
      have hcounted : Dwindles db ((db.updateRun id fun run =>
          { run with control := control }).count fun m => { m with failed := m.failed + 1 }) :=
        dwindles_of_eq rfl rfl rfl
      exact (hcounted.trans (dwindles_givePermit _)).trans
        (dwindles_conclude hc id _ (fun _ => .refl) _)
    next => exact dwindles_of_eq rfl rfl rfl

theorem dwindles_scanRun (hc : c.Passive) (id : Nat) (db : Database σ) :
    Dwindles db (db.scanRun c id) := by
  rw [scanRun]
  split
  · exact .refl
  next run _ =>
    have htaken : Dwindles db { db with scanning := db.scanning.filter (· != id) } :=
      dwindles_of_eq rfl rfl rfl
    have hwoken : ∀ db : Database σ, Dwindles db (db.wake (.run id)) := fun db =>
      dwindles_of_eq rfl rfl rfl
    exact (((htaken.trans (dwindles_scan hc run.request _)).trans
      (dwindles_endRegistration hc run.registered? _)).trans (dwindles_updateRun id _ _)).trans
        (hwoken _)

theorem dwindles_finishRun (hc : c.Passive) (id : Nat) (result : Except IndexError Answer)
    (db : Database σ) : Dwindles db (db.finishRun c id result) := by
  rw [finishRun]
  split
  · exact .refl
  next run _ =>
    exact (dwindles_givePermit db).trans (dwindles_conclude hc id run
      (dwindles_complete run.query run.request.target result) _)

theorem dwindles_pollRun (hc : c.Passive) (id : Nat) (db : Database σ) :
    Dwindles db (db.pollRun c id) := by
  rw [pollRun]
  split
  · split
    · exact (dwindles_takePermit id db).trans (dwindles_startRun hc id _)
    · exact dwindles_takePermit id db
  · exact dwindles_startRun hc id db
  · exact dwindles_finishRun hc id _ db
  · exact .refl

end Database

end Viewbase
