import Viewbase.Proofs.Database.Tally

/-!
What goes on while no run goes on.

Most of what a client does leaves the permits, the places of runs, the registered scans and the
counts of executions alone, whatever the store refuses (`Offstage`).  The registration of a scan and
its end touch the registered scans only (`apart_register`, `apart_endRegistration`).
-/

namespace Viewbase

/-! ## Clients that refuse -/

/-- The callbacks of the client do nothing at once.  A request to the store passes or is refused,
whatever the reason, and leaves the database as it is on its way. -/
structure Client.Passive {σ : Type} (c : Client σ) : Prop where
  notify : ∀ callback notice db, c.notify callback notice db = db
  beforeScan : ∀ target db, (c.beforeScan target db).1 = db
  beforeDelete : ∀ index db, (c.beforeDelete index db).1 = db
  beforeCreate : ∀ db, (c.beforeCreate db).1 = db

theorem Client.passive_silent (σ : Type) : (Client.silent σ).Passive where
  notify _ _ _ := rfl
  beforeScan _ _ := rfl
  beforeDelete _ _ := rfl
  beforeCreate _ := rfl

/-! ## What runs show -/

namespace Run

/-- A run but for its cancellation. -/
def unsteered (run : Run) : Run :=
  { run with control := .pending }

@[simp] theorem unsteered_stage (run : Run) : run.unsteered.stage = run.stage := rfl

@[simp] theorem unsteered_registration (run : Run) :
    run.unsteered.registration = run.registration := rfl

@[simp] theorem unsteered_outcome (run : Run) : run.unsteered.outcome = run.outcome := rfl

@[simp] theorem unsteered_holdsPermit (run : Run) :
    run.unsteered.holdsPermit = run.holdsPermit := rfl

@[simp] theorem unsteered_registered? (run : Run) :
    run.unsteered.registered? = run.registered? := rfl

@[simp] theorem unsteered_isOver (run : Run) : run.unsteered.isOver = run.isOver := rfl

end Run

namespace Database

variable {σ : Type} {db db' db'' : Database σ}

/-- Runs that differ in their cancellation only. -/
def Alike (runs runs' : List Run) : Prop :=
  runs'.map Run.unsteered = runs.map Run.unsteered

namespace Alike

variable {runs runs' : List Run}

theorem getElem? (h : Alike runs runs') (id : Nat) :
    runs'[id]?.map Run.unsteered = runs[id]?.map Run.unsteered := by
  rw [← List.getElem?_map, ← List.getElem?_map, h]

theorem map_eq (h : Alike runs runs') {β : Type} {f : Run → β}
    (hf : ∀ run, f run.unsteered = f run) : runs'.map f = runs.map f := by
  have hcomp : f ∘ Run.unsteered = f := funext hf
  rw [← hcomp, ← List.map_map, h, List.map_map]

theorem countP_eq (h : Alike runs runs') {p : Run → Bool}
    (hp : ∀ run, p run.unsteered = p run) : runs'.countP p = runs.countP p := by
  have hcounted : ∀ runs : List Run, runs.countP p = (runs.map p).countP id :=
    fun runs => by rw [List.countP_map]; rfl
  rw [hcounted, hcounted, h.map_eq hp]

theorem length_eq (h : Alike runs runs') : runs'.length = runs.length := by
  have hlengths := congrArg List.length h
  rwa [List.length_map, List.length_map] at hlengths

theorem exists_of_getElem? (h : Alike runs runs') {id : Nat} {run : Run}
    (hrun : runs[id]? = some run) :
    ∃ run', runs'[id]? = some run' ∧ run'.unsteered = run.unsteered := by
  have hsame := h.getElem? id
  rw [hrun, Option.map_some] at hsame
  exact Option.map_eq_some_iff.1 hsame

theorem guardsOf_eq (h : Alike runs runs') (others : Nat → Nat) :
    guardsOf runs' others = guardsOf runs others := by
  funext id
  rw [guardsOf, registrants, h.countP_eq fun run => by rw [Run.unsteered_registered?]]
  rfl

theorem modify {id : Nat} {change : Run → Run}
    (hchange : ∀ run, (change run).unsteered = run.unsteered) :
    Alike runs (runs.modify id change) := by
  apply List.ext_getElem?
  intro other
  rw [List.getElem?_map, List.getElem?_map, List.getElem?_modify]
  cases runs[other]? with
  | none => rfl
  | some run =>
    by_cases hother : id = other
    · simp [hother, hchange]
    · simp [hother]

end Alike

/-! ## Apart from runs -/

/-- How many executions were submitted, and how many came to what. -/
def executions (db : Database σ) : Nat × Nat × Nat × Nat :=
  (db.metrics.submitted, db.metrics.executed, db.metrics.failed, db.metrics.cancelled)

/-- How many scans are registered with a temporary index. -/
def inFlight (db : Database σ) (id : Nat) : Nat :=
  match db.temporaries[id]? with
  | some record => record.inFlight
  | none => 0

/-- The shares of queries are those of temporary indexes that were made. -/
def Known (db : Database σ) : Prop :=
  ∀ query ∈ db.queries, ∀ id, query.temporary = some id → id < db.temporaries.length

/-- From `db` to `db'` runs were cancelled at most, and none was submitted, started or ended. -/
structure Apart (db db' : Database σ) : Prop where
  runs : Alike db.runs db'.runs
  permits : db'.permits = db.permits
  waiting : db'.waiting = db.waiting
  scanning : db'.scanning = db.scanning
  ready : ∀ id, db'.ready.count (.run id) = db.ready.count (.run id)
  executions : db'.executions = db.executions
  made : db.temporaries.length ≤ db'.temporaries.length
  known : db.Known → db'.Known

/-- And no scan was registered or ended. -/
structure Offstage (db db' : Database σ) : Prop extends Apart db db' where
  inFlight : db'.inFlight = db.inFlight

theorem Apart.refl (db : Database σ) : Apart db db where
  runs := rfl
  permits := rfl
  waiting := rfl
  scanning := rfl
  ready := fun _ => rfl
  executions := rfl
  made := Nat.le_refl _
  known := fun h => h

theorem Apart.trans (h : Apart db db') (h' : Apart db' db'') : Apart db db'' where
  runs := Eq.trans h'.runs h.runs
  permits := h'.permits.trans h.permits
  waiting := h'.waiting.trans h.waiting
  scanning := h'.scanning.trans h.scanning
  ready := fun id => (h'.ready id).trans (h.ready id)
  executions := h'.executions.trans h.executions
  made := Nat.le_trans h.made h'.made
  known := fun hknown => h'.known (h.known hknown)

theorem Offstage.refl (db : Database σ) : Offstage db db :=
  { Apart.refl db with inFlight := rfl }

theorem Offstage.trans (h : Offstage db db') (h' : Offstage db' db'') : Offstage db db'' :=
  { h.toApart.trans h'.toApart with inFlight := h'.inFlight.trans h.inFlight }

/-! ## Parts that runs do not depend on -/

theorem offstage_note (db : Database σ) (event : Event) (fields : List (String × String)) :
    Offstage db (db.note event fields) :=
  { Offstage.refl db with }

theorem offstage_count (db : Database σ) {change : Metrics → Metrics}
    (h : (db.count change).executions = db.executions) : Offstage db (db.count change) :=
  { Offstage.refl db with executions := h }

theorem offstage_store (db : Database σ) (store : Store) : Offstage db { db with store := store } :=
  { Offstage.refl db with }

theorem offstage_lives (db : Database σ) (lives : List LiveQuery) :
    Offstage db { db with lives := lives } :=
  { Offstage.refl db with }

theorem offstage_updateLive (db : Database σ) (id : Nat) (change : LiveQuery → LiveQuery) :
    Offstage db (db.updateLive id change) :=
  offstage_lives db _

theorem offstage_updateRefresh (db : Database σ) (id : Nat) (change : Refresh → Refresh) :
    Offstage db (db.updateRefresh id change) :=
  { Offstage.refl db with }

theorem offstage_updateQuery (db : Database σ) (id : Nat) (change : Query → Query)
    (h : ∀ query temporary, (change query).temporary = some temporary →
      query.temporary = some temporary) :
    Offstage db (db.updateQuery id change) :=
  { Offstage.refl db with
    known := by
      intro hknown query hquery temporary hshare
      rcases exists_of_mem_modify hquery with hold | ⟨old, hold, rfl⟩
      · exact hknown query hold temporary hshare
      · exact hknown old hold temporary (h old temporary hshare) }

theorem offstage_updateRun (db : Database σ) (id : Nat) {change : Run → Run}
    (h : ∀ run, (change run).unsteered = run.unsteered) : Offstage db (db.updateRun id change) :=
  { Offstage.refl db with runs := Alike.modify h }

theorem offstage_wake (db : Database σ) (task : Nat) : Offstage db (db.wake (.refresh task)) :=
  { Offstage.refl db with ready := fun id => by simp [wake, List.count_append] }

theorem offstage_launch (id epoch delay : Nat) (db : Database σ) :
    Offstage db (db.launch id epoch delay) :=
  { Offstage.refl db with ready := fun id => by simp [launch, wake, List.count_append] }

theorem offstage_cancel (id : Nat) (db : Database σ) : Offstage db (db.cancel id).1 := by
  rw [cancel]
  split
  · exact .refl db
  · exact offstage_updateRun db id fun _ => rfl

theorem offstage_wakeRecipient (recipient : Recipient) (db : Database σ) :
    Offstage db (db.wakeRecipient recipient) := by
  cases recipient with
  | refresh task => exact offstage_wake db task
  | _ => exact .refl db

/-! ## Requests to the store -/

variable {c : Client σ}

theorem exists_scan (hc : c.Passive) (request : Request) (db : Database σ) :
    ∃ store, (db.scan c request).1 = { db with store := store } := by
  have hpassed := hc.beforeScan request.target db
  rw [scan]
  split
  next heq =>
    rw [heq] at hpassed
    exact ⟨db.store, hpassed⟩
  next heq =>
    rw [heq] at hpassed
    cases hpassed
    exact ⟨_, rfl⟩

/-- The store deletes an index or refuses to; nothing else changes. -/
theorem deleteIndex_passive (hc : c.Passive) (index : Descriptor) (db : Database σ) :
    (∃ error, db.deleteIndex c index = (db, .error error)) ∨
      ∃ store, db.store.deleteIndex index = .ok store ∧
        db.deleteIndex c index = ({ db with store := store }, .ok ()) := by
  have hpassed := hc.beforeDelete index.id db
  rw [deleteIndex]
  split
  next error heq =>
    rw [heq] at hpassed
    cases hpassed
    exact .inl ⟨error, rfl⟩
  next passed heq =>
    rw [heq] at hpassed
    cases hpassed
    cases hstore : passed.store.deleteIndex index with
    | ok store => exact .inr ⟨store, rfl, rfl⟩
    | error error => exact .inl ⟨error, rfl⟩

theorem exists_deleteIndex (hc : c.Passive) (index : Descriptor) (db : Database σ) :
    ∃ store, (db.deleteIndex c index).1 = { db with store := store } := by
  rcases deleteIndex_passive hc index db with ⟨error, heq⟩ | ⟨store, -, heq⟩
  · rw [heq]
    exact ⟨db.store, rfl⟩
  · rw [heq]
    exact ⟨store, rfl⟩

theorem exists_createEphemeral (hc : c.Passive) (map : MapFunction) (db : Database σ) :
    ∃ store, (db.createEphemeral c map).1 = { db with store := store } := by
  have hpassed := hc.beforeCreate db
  rw [createEphemeral]
  split
  next heq =>
    rw [heq] at hpassed
    exact ⟨db.store, hpassed⟩
  next heq =>
    rw [heq] at hpassed
    cases hpassed
    exact ⟨_, rfl⟩

theorem offstage_scan (hc : c.Passive) (request : Request) (db : Database σ) :
    Offstage db (db.scan c request).1 := by
  obtain ⟨store, heq⟩ := exists_scan hc request db
  rw [heq]
  exact offstage_store db store

theorem offstage_deleteIndex (hc : c.Passive) (index : Descriptor) (db : Database σ) :
    Offstage db (db.deleteIndex c index).1 := by
  obtain ⟨store, heq⟩ := exists_deleteIndex hc index db
  rw [heq]
  exact offstage_store db store

/-! ## Temporary indexes -/

theorem offstage_tell (index : Descriptor) (db : Database σ) (note : Temporary.Note) :
    Offstage db (tell index db note) := by
  cases note with
  | created => exact (offstage_count db rfl).trans (offstage_note _ _ _)
  | deleted => exact (offstage_count db rfl).trans (offstage_note _ _ _)
  | released => exact offstage_note db _ _
  | violation error => exact offstage_note db _ _

theorem offstage_tellAll (index : Descriptor) (notes : List Temporary.Note) (db : Database σ) :
    Offstage db (notes.foldl (tell index) db) := by
  induction notes generalizing db with
  | nil => exact .refl db
  | cons note notes ih => exact (offstage_tell index db note).trans (ih (tell index db note))

/-- An operation on a record changes the store at most, and leaves so many scans registered. -/
structure Minds (db : Database σ) (registered : Nat) (step : Temporary.Step (Database σ)) :
    Prop where
  world : ∃ store, step.world = { db with store := store }
  record : step.record.inFlight = registered

theorem minds_same (db : Database σ) (record : Temporary) (notes : List Temporary.Note)
    (reply : Except QueryError Unit) : Minds db record.inFlight ⟨record, db, notes, reply⟩ :=
  ⟨⟨db.store, rfl⟩, rfl⟩

theorem minds_deleteNow (hc : c.Passive) (record : Temporary) (db : Database σ) :
    Minds db record.inFlight (record.deleteNow (deleteIndex c) db) := by
  have hdeleted := exists_deleteIndex hc record.index db
  rw [Temporary.deleteNow]
  split
  next heq =>
    rw [heq] at hdeleted
    exact ⟨hdeleted, rfl⟩
  next heq =>
    rw [heq] at hdeleted
    exact ⟨hdeleted, rfl⟩

theorem minds_deleteQuietly (hc : c.Passive) (record : Temporary) (db : Database σ) :
    Minds db record.inFlight (record.deleteQuietly (deleteIndex c) db) := by
  have hdeleted := minds_deleteNow hc record db
  rw [Temporary.deleteQuietly]
  split
  · exact hdeleted
  · exact ⟨hdeleted.world, hdeleted.record⟩

theorem minds_acquireOwner (record : Temporary) (db : Database σ) :
    Minds db record.inFlight (record.acquireOwner db) := by
  rw [Temporary.acquireOwner]
  split
  · exact minds_same db record _ _
  · exact ⟨⟨db.store, rfl⟩, rfl⟩

theorem minds_releaseOwner (hc : c.Passive) (record : Temporary) (db : Database σ) :
    Minds db record.inFlight (record.releaseOwner (deleteIndex c) db) := by
  have hdeleted := minds_deleteNow hc { record with owners := 0 } db
  rw [Temporary.releaseOwner]
  split
  · exact minds_same db record _ _
  split
  · exact minds_same db record _ _
  split
  · dsimp only
    split
    · exact ⟨hdeleted.world, hdeleted.record⟩
    · exact ⟨hdeleted.world, hdeleted.record⟩
  · exact ⟨⟨db.store, rfl⟩, rfl⟩

theorem minds_releaseDeferred (hc : c.Passive) (record : Temporary) (db : Database σ) :
    Minds db record.inFlight (record.releaseDeferred (deleteIndex c) db) := by
  have hdeleted := minds_deleteQuietly hc { record with owners := record.owners - 1 } db
  rw [Temporary.releaseDeferred]
  split
  · exact minds_same db record _ _
  dsimp only
  split
  · exact ⟨⟨db.store, rfl⟩, rfl⟩
  split
  · exact ⟨⟨db.store, rfl⟩, rfl⟩
  · exact ⟨hdeleted.world, hdeleted.record⟩

theorem minds_deleteTemporary (hc : c.Passive) (record : Temporary) (db : Database σ) :
    Minds db record.inFlight (record.deleteIndex (deleteIndex c) db) := by
  have hdeleted := minds_deleteNow hc record db
  rw [Temporary.deleteIndex]
  split
  · exact minds_same db record _ _
  split
  · exact minds_same db record _ _
  · dsimp only
    split
    · exact ⟨hdeleted.world, hdeleted.record⟩
    · exact hdeleted

theorem minds_endScan (hc : c.Passive) (record : Temporary) (db : Database σ) :
    Minds db (record.inFlight - 1) (record.endScan (deleteIndex c) db) := by
  have hdeleted := minds_deleteQuietly hc
    { record with inFlight := record.inFlight - 1, deleteWhenIdle := false } db
  rw [Temporary.endScan]
  dsimp only
  split
  · exact ⟨hdeleted.world, hdeleted.record⟩
  · exact ⟨⟨db.store, rfl⟩, rfl⟩

/-- An operation on a record leaves the scans that are registered with others. -/
theorem Minds.onTemporary {id registered : Nat} {record : Temporary}
    (hrecord : db.temporaries[id]? = some record)
    {operation : Temporary → Database σ → Temporary.Step (Database σ)}
    (h : Minds db registered (operation record db)) :
    Apart db (onTemporary id operation db).1 ∧
      ∀ other, (onTemporary id operation db).1.inFlight other =
        if other = id then registered else db.inFlight other := by
  obtain ⟨⟨store, hworld⟩, hregistered⟩ := h
  have hlength := (List.getElem?_eq_some_iff.1 hrecord).1
  simp only [Database.onTemporary, hrecord, hworld]
  obtain ⟨kept, hkept⟩ : ∃ kept, kept =
      { db with
        store := store
        temporaries := db.temporaries.set id (operation record db).record } := ⟨_, rfl⟩
  have htold := offstage_tellAll record.index (operation record db).notes kept
  have hapart : Apart db kept := by
    rw [hkept]
    exact { Apart.refl db with
      made := Nat.le_of_eq List.length_set.symm
      known := fun hknown query hquery id hshare => by
        rw [List.length_set]
        exact hknown query hquery id hshare }
  rw [← hkept]
  refine ⟨hapart.trans htold.toApart, fun other => ?_⟩
  rw [htold.inFlight, hkept, inFlight]
  dsimp only
  by_cases hother : other = id
  · rw [if_pos hother, hother, List.getElem?_set_self hlength]
    exact hregistered
  · rw [if_neg hother, List.getElem?_set_ne (Ne.symm hother)]
    rfl

theorem inFlight_of_getElem? {id : Nat} {record : Temporary}
    (hrecord : db.temporaries[id]? = some record) : db.inFlight id = record.inFlight := by
  rw [inFlight, hrecord]

theorem offstage_onTemporary (id : Nat)
    {operation : Temporary → Database σ → Temporary.Step (Database σ)}
    (h : ∀ record, Minds db record.inFlight (operation record db)) :
    Offstage db (onTemporary id operation db).1 := by
  cases hrecord : db.temporaries[id]? with
  | none =>
    simp only [onTemporary, hrecord]
    exact .refl db
  | some record =>
    obtain ⟨hapart, hinFlight⟩ := (h record).onTemporary hrecord
    refine { hapart with inFlight := funext fun other => ?_ }
    rw [hinFlight]
    split
    next hother => rw [hother, inFlight_of_getElem? hrecord]
    · rfl

theorem offstage_acquireOwner (id : Nat) (db : Database σ) : Offstage db (db.acquireOwner id).1 :=
  offstage_onTemporary id fun record => minds_acquireOwner record db

theorem offstage_releaseOwner (hc : c.Passive) (id : Nat) (db : Database σ) :
    Offstage db (db.releaseOwner c id).1 :=
  offstage_onTemporary id fun record => minds_releaseOwner hc record db

theorem offstage_releaseDeferred (hc : c.Passive) (id : Nat) (db : Database σ) :
    Offstage db (db.releaseDeferred c id) :=
  offstage_onTemporary id fun record => minds_releaseDeferred hc record db

theorem offstage_deleteTemporary (hc : c.Passive) (id : Nat) (db : Database σ) :
    Offstage db (db.deleteTemporary c id).1 :=
  offstage_onTemporary id fun record => minds_deleteTemporary hc record db

theorem offstage_createTemporary (hc : c.Passive) (map : MapFunction) (db : Database σ) :
    Offstage db (db.createTemporary c map).1 := by
  obtain ⟨store, hstore⟩ := exists_createEphemeral hc map db
  rw [createTemporary]
  split
  next heq =>
    rw [heq] at hstore
    cases hstore
    exact offstage_store db store
  next created index heq =>
    rw [heq] at hstore
    cases hstore
    have hpushed : Offstage db
        { db with store := store, temporaries := db.temporaries ++ [Temporary.new index] } :=
      { Offstage.refl db with
        made := by
          rw [List.length_append]
          exact Nat.le_add_right _ _
        known := fun hknown query hquery id hshare => by
          rw [List.length_append]
          exact Nat.lt_add_right _ (hknown query hquery id hshare)
        inFlight := funext fun id => by
          simp only [inFlight, getElem?_push]
          by_cases hid : id = db.temporaries.length
          · rw [if_pos hid, hid, List.getElem?_eq_none (Nat.le_refl _)]
            rfl
          · rw [if_neg hid] }
    exact hpushed.trans (offstage_tell index _ .created)

/-! ## Registered scans -/

theorem apart_beginScan {id : Nat} (hid : id < db.temporaries.length) :
    Apart db (db.beginScan id).1 ∧ (db.beginScan id).1.inFlight =
      match (db.beginScan id).2 with
      | .ok () => bump db.inFlight (some id)
      | .error _ => db.inFlight := by
  obtain ⟨record, hrecord⟩ : ∃ record, db.temporaries[id]? = some record :=
    ⟨_, List.getElem?_eq_getElem hid⟩
  have hreply : (db.beginScan id).2 = (record.beginScan db).reply := by
    simp only [beginScan, onTemporary, hrecord]
  rw [hreply]
  by_cases hgone : record.isGone = true
  · have hbegun : record.beginScan db =
        ⟨record, db, [], .error (.unavailable (.temporary record.index.id))⟩ := if_pos hgone
    have hminds : Minds db record.inFlight (record.beginScan db) := by
      rw [hbegun]
      exact minds_same db record _ _
    obtain ⟨hapart, hinFlight⟩ := hminds.onTemporary hrecord
    refine ⟨hapart, funext fun other => (hinFlight other).trans ?_⟩
    rw [hbegun]
    dsimp only
    split
    next hother => rw [hother, inFlight_of_getElem? hrecord]
    · rfl
  · have hbegun : record.beginScan db =
        ⟨{ record with inFlight := record.inFlight + 1 }, db, [], .ok ()⟩ := if_neg hgone
    have hminds : Minds db (record.inFlight + 1) (record.beginScan db) := by
      rw [hbegun]
      exact ⟨⟨db.store, rfl⟩, rfl⟩
    obtain ⟨hapart, hinFlight⟩ := hminds.onTemporary hrecord
    refine ⟨hapart, funext fun other => (hinFlight other).trans ?_⟩
    rw [hbegun]
    dsimp only
    split
    next hother => rw [hother, bump_self, inFlight_of_getElem? hrecord]
    next hother => rw [bump_of_ne hother]

/-- A scan that is let in is registered with the temporary index of its query, if it has one. -/
theorem apart_register (hknown : db.Known) (id : Nat) :
    Apart db (db.register id).1 ∧
      (db.register id).1.inFlight = bump db.inFlight (registered? (db.register id).2) := by
  have hsame : Apart db db ∧ db.inFlight = bump db.inFlight none := ⟨.refl db, by rw [bump_none]⟩
  rw [register]
  split
  · exact hsame
  next query hquery =>
    split
    · exact hsame
    split
    · exact hsame
    next temporary hshare =>
      have hbegun := apart_beginScan (hknown query (List.mem_of_getElem? hquery) temporary hshare)
      split
      next heq =>
        rw [heq] at hbegun
        exact ⟨hbegun.1, hbegun.2.trans (bump_none _).symm⟩
      next heq =>
        rw [heq] at hbegun
        exact hbegun

theorem apart_endScan (hc : c.Passive) (id : Nat) (db : Database σ) :
    Apart db (db.endScan c id) ∧ ∀ other, (db.endScan c id).inFlight other =
      if other = id then db.inFlight id - 1 else db.inFlight other := by
  cases hrecord : db.temporaries[id]? with
  | none =>
    have hnone : db.inFlight id = 0 := by rw [inFlight, hrecord]
    simp only [endScan, onTemporary, hrecord]
    refine ⟨.refl db, fun other => ?_⟩
    split
    next hother => rw [hother, hnone]
    · rfl
  | some record =>
    rw [inFlight_of_getElem? hrecord]
    exact (minds_endScan hc record db).onTemporary hrecord

theorem apart_endRegistration (hc : c.Passive) (temporary : Option Nat) (db : Database σ) :
    Apart db (db.endRegistration c temporary) := by
  cases temporary with
  | none => exact .refl db
  | some id => exact (apart_endScan hc id db).1

/-- A scan that is registered no more was registered before. -/
theorem inFlight_endRegistration (hc : c.Passive) {temporary : Option Nat}
    (hheld : ∀ id, temporary = some id → 0 < db.inFlight id) :
    bump (db.endRegistration c temporary).inFlight temporary = db.inFlight := by
  cases temporary with
  | none => exact bump_none _
  | some id =>
    have hpos := hheld id rfl
    funext other
    have hended := (apart_endScan hc id db).2 other
    rw [endRegistration]
    by_cases hother : other = id
    · rw [hother, bump_self]
      rw [hother, if_pos rfl] at hended
      omega
    · rw [bump_of_ne hother, hended, if_neg hother]

/-! ## Queries -/

theorem Offstage.addQuery (h : Offstage db db') {query : Query}
    (hshare : db.Known → ∀ id, query.temporary = some id → id < db'.temporaries.length) :
    Offstage db (Database.addQuery query db').1 :=
  { h with
    known := by
      intro hknown added hadded id hid
      rcases List.mem_append.1 hadded with hold | hnew
      · exact h.known hknown added hold id hid
      · rw [List.mem_singleton.1 hnew] at hid
        exact hshare hknown id hid }

theorem offstage_queryIndex (index : Descriptor) (db : Database σ) :
    Offstage db (db.queryIndex index).1 :=
  (Offstage.refl db).addQuery fun _ _ hid => by cases hid

theorem offstage_queryDocuments (db : Database σ) : Offstage db db.queryDocuments.1 :=
  (Offstage.refl db).addQuery fun _ _ hid => by cases hid

theorem createTemporary_known {map : MapFunction} {db' : Database σ} {id : Nat}
    {index : Descriptor} (h : db.createTemporary c map = (db', .ok (id, index))) :
    id < db'.temporaries.length := by
  rw [createTemporary] at h
  split at h
  · cases h
  next created _ _ =>
    cases h
    have hmade := (offstage_tell index
      { created with temporaries := created.temporaries ++ [Temporary.new index] } .created).made
    refine Nat.lt_of_lt_of_le ?_ hmade
    rw [List.length_append, List.length_singleton]
    exact Nat.lt_succ_self _

theorem offstage_queryMap (hc : c.Passive) (map : MapFunction) (db : Database σ) :
    Offstage db (db.queryMap c map).1 := by
  have hcreated := offstage_createTemporary hc map db
  rw [queryMap]
  split
  next heq => rwa [heq] at hcreated
  next created temporary index heq =>
    rw [heq] at hcreated
    refine Offstage.addQuery hcreated fun _ id hid => ?_
    cases hid
    exact createTemporary_known heq

theorem offstage_shareTemporary (query : Query) (db : Database σ) :
    Offstage db (db.shareTemporary query).1 := by
  rw [shareTemporary]
  split
  · exact offstage_acquireOwner _ db
  · exact .refl db

theorem offstage_copyQuery (id : Nat) (db : Database σ) : Offstage db (db.copyQuery id).1 := by
  rw [copyQuery]
  split
  · exact .refl db
  next query hquery =>
    split
    · exact .refl db
    · have hshared := offstage_shareTemporary query db
      split
      next heq => rwa [heq] at hshared
      next heq =>
        rw [heq] at hshared
        refine Offstage.addQuery hshared fun hknown temporary hid => ?_
        exact Nat.lt_of_lt_of_le (hknown query (List.mem_of_getElem? hquery) temporary hid)
          hshared.made

theorem offstage_configure (id : Nat) (change : Settings → Settings) (db : Database σ) :
    Offstage db (db.configure id change) :=
  offstage_updateQuery db id _ fun _ _ h => h

theorem offstage_markDisposed (id : Nat) (db : Database σ) : Offstage db (db.markDisposed id) :=
  offstage_updateQuery db id _ fun _ _ h => by cases h

theorem offstage_dispose (hc : c.Passive) (id : Nat) (db : Database σ) :
    Offstage db (db.dispose c id).1 := by
  rw [dispose]
  split
  · exact .refl db
  split
  · exact .refl db
  split
  · exact offstage_markDisposed id db
  next temporary _ =>
    have hreleased := offstage_releaseOwner hc temporary db
    split
    next heq => rwa [heq] at hreleased
    next heq =>
      rw [heq] at hreleased
      exact hreleased.trans (offstage_markDisposed id _)

theorem offstage_release (hc : c.Passive) (id : Nat) (db : Database σ) :
    Offstage db (db.release c id) := by
  rw [release]
  split
  · exact offstage_markDisposed id db
  · exact (offstage_releaseDeferred hc _ db).trans (offstage_markDisposed id _)

theorem offstage_dropQuery (hc : c.Passive) (id : Nat) (db : Database σ) :
    Offstage db (db.dropQuery c id) := by
  rw [dropQuery]
  split
  · exact (offstage_note db _ _).trans (offstage_release hc id _)
  · exact offstage_release hc id db

/-! ## Live queries -/

theorem offstage_makeLive (query : Nat) (db : Database σ) : Offstage db (db.makeLive query).1 := by
  have hcopied := offstage_copyQuery query db
  rw [makeLive]
  split
  · exact .refl db
  split
  next heq => rwa [heq] at hcopied
  next heq =>
    rw [heq] at hcopied
    exact Offstage.trans hcopied (offstage_lives _ _)

theorem offstage_startLive (id : Nat) (db : Database σ) : Offstage db (db.startLive id).1 := by
  rw [startLive]
  split
  · exact .refl db
  next live _ =>
    split
    · exact .refl db
    split
    · exact .refl db
    · have hopened := offstage_updateLive db id fun other => { other with epoch := live.epoch + 1 }
      dsimp only
      split
      · exact hopened
      next token store _ =>
        have hsubscribed := (hopened.trans (offstage_store _ store)).trans
          (offstage_updateLive _ id fun live =>
            { live with token := some token, phase := .awaitingInitial false })
        exact (hsubscribed.trans (offstage_launch id (live.epoch + 1) 0 _)).trans
          (offstage_note _ _ _)

theorem offstage_cancelRunning (running : Option Nat) (db : Database σ) :
    Offstage db (db.cancelRunning running) := by
  cases running with
  | none => exact .refl db
  | some run => exact offstage_cancel run db

theorem offstage_endSubscription (token : Option Token) (db : Database σ) :
    Offstage db (db.endSubscription token) := by
  cases token with
  | none => exact .refl db
  | some token => exact offstage_store db _

theorem offstage_stopLive (id : Nat) (db : Database σ) : Offstage db (db.stopLive id) := by
  rw [stopLive]
  split
  · exact .refl db
  next live _ =>
    split
    · exact .refl db
    · have hstopped := offstage_updateLive db id fun live =>
        { live with epoch := live.epoch + 1, phase := .stopped, running := none, token := none }
      exact ((hstopped.trans (offstage_cancelRunning live.running _)).trans
        (offstage_endSubscription live.token _)).trans (offstage_note _ _ _)

theorem offstage_disposeLive (hc : c.Passive) (id : Nat) (db : Database σ) :
    Offstage db (db.disposeLive c id) := by
  rw [disposeLive]
  split
  · exact .refl db
  next live _ =>
    split
    · exact .refl db
    · exact ((offstage_updateLive db id _).trans (offstage_stopLive id _)).trans
        (offstage_release hc live.query _)

theorem offstage_reap (hc : c.Passive) (id : Nat) (db : Database σ) :
    Offstage db (db.reap c id) := by
  rw [reap]
  split
  · exact .refl db
  split
  · exact .refl db
  · exact offstage_dropQuery hc _ db

theorem offstage_dropLive (hc : c.Passive) (id : Nat) (db : Database σ) :
    Offstage db (db.dropLive c id) :=
  ((offstage_stopLive id db).trans (offstage_updateLive _ id _)).trans (offstage_reap hc id _)

theorem offstage_removeListener (id callback : Nat) (db : Database σ) :
    Offstage db (db.removeListener id callback).1 := by
  rw [removeListener]
  split
  · exact .refl db
  · exact offstage_updateLive db id _

/-! ## Changes and refreshes -/

theorem offstage_changeLive (id epoch : Nat) (change : Change) (db : Database σ) :
    Offstage db (db.changeLive id epoch change) := by
  rw [changeLive]
  split
  · exact .refl db
  split
  · exact .refl db
  split
  · exact .refl db
  · exact (offstage_updateLive db id _).trans (offstage_launch id epoch _ _)
  · exact offstage_updateLive db id _
  · exact offstage_count db rfl

theorem offstage_notifyOne (hc : c.Passive) (change : Change) (observer : Observer)
    (db : Database σ) : Offstage db (db.notifyOne c change observer) := by
  cases observer with
  | client callback =>
    rw [notifyOne, hc.notify]
    exact .refl db
  | live id epoch => exact offstage_changeLive id epoch change db

theorem offstage_announce (hc : c.Passive) (change : Change) (db : Database σ) :
    Offstage db (db.announce c change) := by
  rw [announce]
  generalize db.store.audience = audience
  induction audience generalizing db with
  | nil => exact .refl db
  | cons observer audience ih => exact (offstage_notifyOne hc change observer db).trans (ih _)

theorem offstage_write (hc : c.Passive) (id : String) (edit : Store.Edit) (db : Database σ) :
    Offstage db (db.write c id edit).1 := by
  rw [write]
  split
  · exact .refl db
  · exact (offstage_store db _).trans (offstage_announce hc _ _)

theorem offstage_recordVerdict (live : LiveQuery) (verdict : LiveQuery.Verdict)
    (db : Database σ) : Offstage db (db.recordVerdict live verdict) := by
  cases verdict with
  | unchanged =>
    exact offstage_count db
      (rfl : (db.count fun m => { m with liveRefreshes := m.liveRefreshes + 1 }).executions = _)
  | refreshed answer => exact (offstage_count db rfl).trans (offstage_note _ _ _)
  | failed error => exact offstage_note db _ _
  | cancelled => exact .refl db

theorem offstage_settleLive (id : Nat) (live : LiveQuery) (db : Database σ) :
    Offstage db (db.settleLive id live) := by
  rw [settleLive]
  split
  · exact (offstage_updateLive db id _).trans (offstage_launch id live.epoch _ _)
  · exact offstage_updateLive db id _

theorem tellListeners_passive (hc : c.Passive) (change : Refreshed) (listeners : List Nat)
    (db : Database σ) : db.tellListeners c change listeners = db := by
  induction listeners with
  | nil => rfl
  | cons listener listeners ih =>
    rw [tellListeners, List.foldl_cons, hc.notify]
    exact ih

theorem offstage_finishLive (hc : c.Passive) (id epoch : Nat) (outcome : Outcome)
    (db : Database σ) : Offstage db (db.finishLive c id epoch outcome) := by
  rw [finishLive]
  split
  · exact .refl db
  next live _ =>
    split
    · exact .refl db
    · have hsettled := ((offstage_recordVerdict live (live.judge outcome) db).trans
        (offstage_updateLive _ id fun other =>
          { other.absorb (live.judge outcome) with running := none })).trans
            (offstage_settleLive id live _)
      dsimp only
      split
      · exact hsettled
      · rw [tellListeners_passive hc]
        exact hsettled

theorem offstage_fire (now : Nat) (db : Database σ) : Offstage db (db.fire now) := by
  rw [fire]
  generalize (db.timers.filter fun timer => decide (timer.due ≤ now)).map Timer.refresh = fired
  have hrung : ∀ db : Database σ, Offstage db (fired.foldl
      (fun db task => (db.updateRefresh task fun refresh =>
        { refresh with stage := .due }).wake (.refresh task)) db) := by
    intro db
    induction fired generalizing db with
    | nil => exact .refl db
    | cons task fired ih =>
      exact ((offstage_updateRefresh db task _).trans (offstage_wake _ task)).trans (ih _)
  refine Offstage.trans ?_ (hrung _)
  exact { Offstage.refl db with }

theorem offstage_fireNext (db : Database σ) : Offstage db db.fireNext := by
  rw [fireNext]
  split
  · exact offstage_fire _ db
  · exact .refl db

end Database

end Viewbase
