import Viewbase.Proofs.Database.Moment
import Viewbase.Proofs.Store.Later

/-!
What goes on beside the live queries.

Most of what a client does leaves the live queries, their queries and all background work alone; it
changes other queries, temporary indexes, counters, the journal, and the store without writing
documents (`Beside`).
-/

namespace Viewbase.Database

variable {σ : Type}

/-- From `db` to `db'` nothing changed that live queries or background work depend on. -/
structure Beside (db db' : Database σ) : Prop where
  config : db'.config = db.config
  store : db.store.Later db'.store
  runs : db'.runs = db.runs
  lives : db'.lives = db.lives
  refreshes : db'.refreshes = db.refreshes
  permits : db'.permits = db.permits
  waiting : db'.waiting = db.waiting
  scanning : db'.scanning = db.scanning
  ready : db'.ready = db.ready
  timers : db'.timers = db.timers
  length : db.queries.length ≤ db'.queries.length
  queries : ∀ live ∈ db.lives, ∀ query, db.queries[live.query]? = some query →
    db'.queries[live.query]? = some query
  coalesced : db'.metrics.liveCoalesced = db.metrics.liveCoalesced

variable {db db' db'' : Database σ}

theorem Beside.refl (db : Database σ) : Beside db db where
  config := rfl
  store := .refl _
  runs := rfl
  lives := rfl
  refreshes := rfl
  permits := rfl
  waiting := rfl
  scanning := rfl
  ready := rfl
  timers := rfl
  length := Nat.le_refl _
  queries := fun _ _ _ h => h
  coalesced := rfl

theorem Beside.trans (h : Beside db db') (h' : Beside db' db'') : Beside db db'' where
  config := h'.config.trans h.config
  store := h.store.trans h'.store
  runs := h'.runs.trans h.runs
  lives := h'.lives.trans h.lives
  refreshes := h'.refreshes.trans h.refreshes
  permits := h'.permits.trans h.permits
  waiting := h'.waiting.trans h.waiting
  scanning := h'.scanning.trans h.scanning
  ready := h'.ready.trans h.ready
  timers := h'.timers.trans h.timers
  length := Nat.le_trans h.length h'.length
  queries := fun live hlive query hquery =>
    h'.queries live (h.lives ▸ hlive) query (h.queries live hlive query hquery)
  coalesced := h'.coalesced.trans h.coalesced

/-! ## Parts that nothing depends on -/

theorem beside_note (db : Database σ) (event : Event) (fields : List (String × String)) :
    Beside db (db.note event fields) :=
  { Beside.refl db with }

theorem beside_count (db : Database σ) {change : Metrics → Metrics}
    (h : (change db.metrics).liveCoalesced = db.metrics.liveCoalesced) :
    Beside db (db.count change) :=
  { Beside.refl db with coalesced := h }

theorem beside_client (db : Database σ) (client : σ) : Beside db { db with client := client } :=
  { Beside.refl db with }

theorem beside_temporaries (db : Database σ) (temporaries : List Temporary) :
    Beside db { db with temporaries := temporaries } :=
  { Beside.refl db with }

theorem beside_store (db : Database σ) {store : Store} (h : db.store.Later store) :
    Beside db { db with store := store } :=
  { Beside.refl db with store := h }

theorem beside_countCancelled (db : Database σ) (stage : String) :
    Beside db (db.countCancelled stage) :=
  (beside_count db rfl).trans (beside_note _ _ _)

/-! ## Work on either side -/

theorem Beside.updateRun (h : Beside db db') (id : Nat) (change : Run → Run) :
    Beside (db.updateRun id change) (db'.updateRun id change) :=
  { h with runs := by simp only [Database.updateRun, h.runs] }

theorem Beside.wake (h : Beside db db') (job : Job) : Beside (db.wake job) (db'.wake job) :=
  { h with ready := by simp only [Database.wake, h.ready] }

theorem Beside.wakeRecipient (h : Beside db db') (recipient : Recipient) :
    Beside (db.wakeRecipient recipient) (db'.wakeRecipient recipient) := by
  cases recipient with
  | refresh task => exact h.wake (.refresh task)
  | _ => exact h

/-! ## Requests to the store -/

@[simp] theorem scan_silent (request : Request) (db : Database σ) :
    db.scan (.silent σ) request =
      ({ db with store := (db.store.scan request).1 }, (db.store.scan request).2) :=
  rfl

theorem beside_scan (request : Request) (db : Database σ) :
    Beside db (db.scan (.silent σ) request).1 :=
  beside_store db (Store.later_scan db.store request)

theorem beside_deleteIndex (index : Descriptor) (db : Database σ) :
    Beside db (db.deleteIndex (.silent σ) index).1 := by
  simp only [deleteIndex, Client.silent]
  split
  next hdelete => exact beside_store db (Store.later_deleteIndex hdelete)
  next => exact .refl db

theorem beside_createEphemeral (map : MapFunction) (db : Database σ) :
    Beside db (db.createEphemeral (.silent σ) map).1 :=
  beside_store db (Store.later_createEphemeral db.store map)

/-! ## Temporary indexes -/

theorem beside_tell (index : Descriptor) (db : Database σ) (note : Temporary.Note) :
    Beside db (tell index db note) := by
  cases note with
  | created => exact (beside_count db rfl).trans (beside_note _ _ _)
  | deleted => exact (beside_count db rfl).trans (beside_note _ _ _)
  | released => exact beside_note db _ _
  | violation error => exact beside_note db _ _

theorem beside_tellAll (index : Descriptor) (notes : List Temporary.Note) (db : Database σ) :
    Beside db (notes.foldl (tell index) db) := by
  induction notes generalizing db with
  | nil => exact .refl db
  | cons note notes ih => exact (beside_tell index db note).trans (ih (tell index db note))

theorem beside_onTemporary (id : Nat)
    {operation : Temporary → Database σ → Temporary.Step (Database σ)}
    (h : ∀ record db, Beside db (operation record db).world) (db : Database σ) :
    Beside db (onTemporary id operation db).1 := by
  rw [onTemporary]
  split
  · exact .refl db
  · exact ((h _ db).trans (beside_temporaries _ _)).trans (beside_tellAll _ _ _)

theorem beside_deleteNow (t : Temporary) (db : Database σ) :
    Beside db (t.deleteNow (deleteIndex (.silent σ)) db).world := by
  have h := beside_deleteIndex t.index db
  rw [Temporary.deleteNow]
  split
  next heq => rwa [heq] at h
  next heq => rwa [heq] at h

theorem beside_deleteQuietly (t : Temporary) (db : Database σ) :
    Beside db (t.deleteQuietly (deleteIndex (.silent σ)) db).world := by
  have h := beside_deleteNow t db
  rw [Temporary.deleteQuietly]
  split
  · exact h
  · exact h

theorem beside_acquireOwner (id : Nat) (db : Database σ) : Beside db (db.acquireOwner id).1 := by
  refine beside_onTemporary id (fun t db => ?_) db
  rw [Temporary.acquireOwner]
  split
  · exact .refl db
  · exact .refl db

theorem beside_beginScan (id : Nat) (db : Database σ) : Beside db (db.beginScan id).1 := by
  refine beside_onTemporary id (fun t db => ?_) db
  rw [Temporary.beginScan]
  split
  · exact .refl db
  · exact .refl db

theorem beside_releaseOwner (id : Nat) (db : Database σ) :
    Beside db (db.releaseOwner (.silent σ) id).1 := by
  refine beside_onTemporary id (fun t db => ?_) db
  have h := beside_deleteNow { t with owners := 0 } db
  rw [Temporary.releaseOwner]
  split
  · exact .refl db
  split
  · exact .refl db
  split
  · dsimp only
    split
    · exact h
    · exact h
  · exact .refl db

theorem beside_releaseDeferred (id : Nat) (db : Database σ) :
    Beside db (db.releaseDeferred (.silent σ) id) := by
  refine beside_onTemporary id (fun t db => ?_) db
  have h := beside_deleteQuietly { t with owners := t.owners - 1 } db
  rw [Temporary.releaseDeferred]
  split
  · exact .refl db
  dsimp only
  split
  · exact .refl db
  split
  · exact .refl db
  · exact h

theorem beside_deleteTemporary (id : Nat) (db : Database σ) :
    Beside db (db.deleteTemporary (.silent σ) id).1 := by
  refine beside_onTemporary id (fun t db => ?_) db
  have h := beside_deleteNow t db
  rw [Temporary.deleteIndex]
  split
  · exact .refl db
  split
  · exact .refl db
  · dsimp only
    split
    · exact h
    · exact h

theorem beside_endScan (id : Nat) (db : Database σ) : Beside db (db.endScan (.silent σ) id) := by
  refine beside_onTemporary id (fun t db => ?_) db
  have h := beside_deleteQuietly
    { t with inFlight := t.inFlight - 1, deleteWhenIdle := false } db
  rw [Temporary.endScan]
  dsimp only
  split
  · exact h
  · exact .refl db

theorem beside_endRegistration (temporary : Option Nat) (db : Database σ) :
    Beside db (db.endRegistration (.silent σ) temporary) := by
  cases temporary with
  | none => exact .refl db
  | some id => exact beside_endScan id db

theorem beside_createTemporary (map : MapFunction) (db : Database σ) :
    Beside db (db.createTemporary (.silent σ) map).1 := by
  have hcreated := beside_createEphemeral map db
  rw [createTemporary]
  split
  next heq => rwa [heq] at hcreated
  next created index heq =>
    rw [heq] at hcreated
    exact Beside.trans (Beside.trans hcreated (beside_temporaries created _))
      (beside_tell index _ .created)

/-! ## Queries -/

/-- Queries are added behind those that there are. -/
theorem beside_addQuery (query : Query) (db : Database σ) : Beside db (addQuery query db).1 :=
  { Beside.refl db with
    length := by simp [addQuery]
    queries := fun live _ old hold => by
      have hlength := (List.getElem?_eq_some_iff.1 hold).1
      simp only [addQuery]
      rw [List.getElem?_append_left hlength]
      exact hold }

/-- The client changes only queries that no live query runs. -/
theorem beside_updateQuery {id : Nat} (howns : db.OwnsQuery id) (change : Query → Query) :
    Beside db (db.updateQuery id change) :=
  { Beside.refl db with
    length := by simp [updateQuery]
    queries := fun live hlive old hold => by
      have hother : id ≠ live.query := Ne.symm (howns.2 live hlive)
      simp [updateQuery, hother, hold] }

theorem OwnsQuery.beside {id : Nat} (howns : db.OwnsQuery id) (h : Beside db db') :
    db'.OwnsQuery id :=
  ⟨Nat.lt_of_lt_of_le howns.1 h.length, fun live hlive => howns.2 live (h.lives ▸ hlive)⟩

theorem beside_shareTemporary (query : Query) (db : Database σ) :
    Beside db (db.shareTemporary query).1 := by
  rw [shareTemporary]
  split
  · exact beside_acquireOwner _ db
  · exact .refl db

theorem beside_copyQuery (id : Nat) (db : Database σ) : Beside db (db.copyQuery id).1 := by
  rw [copyQuery]
  split
  · exact .refl db
  next query _ =>
    split
    · exact .refl db
    · have hshared := beside_shareTemporary query db
      split
      next heq => rwa [heq] at hshared
      next heq =>
        rw [heq] at hshared
        exact hshared.trans (beside_addQuery query _)

theorem beside_queryMap (map : MapFunction) (db : Database σ) :
    Beside db (db.queryMap (.silent σ) map).1 := by
  have hcreated := beside_createTemporary map db
  rw [queryMap]
  split
  next heq => rwa [heq] at hcreated
  next heq =>
    rw [heq] at hcreated
    exact Beside.trans hcreated (beside_addQuery _ _)

theorem beside_dispose {id : Nat} (howns : db.OwnsQuery id) :
    Beside db (db.dispose (.silent σ) id).1 := by
  rw [dispose]
  split
  · exact .refl db
  split
  · exact .refl db
  split
  · exact beside_updateQuery howns _
  next temporary _ =>
    have hreleased := beside_releaseOwner temporary db
    split
    next heq => rwa [heq] at hreleased
    next heq =>
      rw [heq] at hreleased
      exact hreleased.trans (beside_updateQuery (howns.beside hreleased) _)

/-- What comes before a query that is given up is marked. -/
theorem exists_release (id : Nat) (db : Database σ) :
    ∃ released, Beside db released ∧ db.release (.silent σ) id = released.markDisposed id := by
  rw [release]
  split
  · exact ⟨db, .refl db, rfl⟩
  next temporary _ => exact ⟨_, beside_releaseDeferred temporary db, rfl⟩

theorem exists_dropQuery (id : Nat) (db : Database σ) :
    ∃ released, Beside db released ∧ db.dropQuery (.silent σ) id = released.markDisposed id := by
  rw [dropQuery]
  split
  · obtain ⟨released, hbeside, heq⟩ := exists_release id (db.note _ _)
    exact ⟨released, (beside_note db _ _).trans hbeside, heq⟩
  · exact exists_release id db

theorem beside_dropQuery {id : Nat} (howns : db.OwnsQuery id) :
    Beside db (db.dropQuery (.silent σ) id) := by
  obtain ⟨released, hbeside, heq⟩ := exists_dropQuery id db
  rw [heq]
  exact hbeside.trans (beside_updateQuery (howns.beside hbeside) _)

/-! ## Scans of queries -/

theorem beside_register (id : Nat) (db : Database σ) : Beside db (db.register id).1 := by
  obtain ⟨temporaries, heq⟩ := exists_register id db
  rw [heq]
  exact beside_temporaries db temporaries

/-- What a scan for a query comes to sets the generation of the query, if it is good, and is
otherwise only counted and told of. -/
theorem beside_complete (query : Nat) (target : Target) (result : Except IndexError Answer)
    (db : Database σ) :
    Beside
      (match result with
        | .ok answer => db.updateQuery query fun q =>
            { q with lastGeneration := some answer.generation }
        | .error _ => db)
      (db.complete query target result).1 := by
  cases result with
  | ok answer => exact (beside_count _ rfl).trans (beside_note _ _ _)
  | error error => exact (beside_count _ rfl).trans (beside_note _ _ _)

/-- So nothing else changes if the query is one that the client can name. -/
theorem OwnsQuery.beside_complete {id : Nat} (howns : db.OwnsQuery id) (target : Target)
    (result : Except IndexError Answer) : Beside db (db.complete id target result).1 := by
  refine Beside.trans ?_ (Database.beside_complete id target result db)
  split
  · exact beside_updateQuery howns _
  · exact .refl _

theorem beside_runQuery {id : Nat} (howns : db.OwnsQuery id) :
    Beside db (db.runQuery (.silent σ) id).1 := by
  rw [runQuery]
  split
  · exact .refl db
  next query _ =>
    have hregistered := beside_register id db
    split
    next heq => rwa [heq] at hregistered
    next registered temporary heq =>
      rw [heq] at hregistered
      have hscanned := hregistered.trans (beside_scan query.request registered)
      have hended := hscanned.trans (beside_endRegistration temporary _)
      exact hended.trans ((howns.beside hended).beside_complete _ _)

end Viewbase.Database
