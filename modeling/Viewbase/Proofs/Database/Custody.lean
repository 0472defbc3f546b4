import Viewbase.Proofs.Database.Session

/-!
Who takes temporary indexes away.

The record of a temporary index deletes its index and is marked then; besides, the index goes only if
somebody has the store delete it past the record (`Custody`).
-/

namespace Viewbase

namespace Store

/-- The store goes on.  Older indexes that have no name are there as they were, but for those that
were taken away. -/
structure Leaves (taken : List IndexId) (s s' : Store) : Prop where
  numbered : s.numbered ≤ s'.numbered
  names : ∀ entry ∈ s'.names,
    entry ∈ s.names ∨ (s.numbered < entry.2.number ∧ entry.2.number ≤ s'.numbered)
  there : ∀ id : IndexId, id.number ≤ s.numbered → (∀ entry ∈ s.names, entry.2 ≠ id) →
    id ∉ taken → s.hasIndex id = true → s'.hasIndex id = true

variable {s s' : Store}

theorem Same.leaves (h : Same s s') : s.Leaves [] s' where
  numbered := Nat.le_of_eq h.numbered.symm
  names := fun _ hentry => .inl (h.names ▸ hentry)
  there := fun id _ _ _ hthere => (hasIndex_congr h.ids id).trans hthere

theorem Same.refl (s : Store) : Same s s :=
  ⟨rfl, rfl, rfl, rfl⟩

theorem leaves_defineView (s : Store) (name : String) (map : MapFunction)
    (reduce : Option ReduceFunction) : s.Leaves [] (s.defineView name map reduce).2 where
  numbered := by
    rw [defineView]
    split <;> exact Nat.le_succ _
  names := by
    intro entry hentry
    have hnew : ∀ names : List (String × IndexId), (∀ old ∈ names, old ∈ s.names) →
        entry ∈ names ++ [(name, s.nextId)] → entry ∈ s.names ∨
          (s.numbered < entry.2.number ∧ entry.2.number ≤ s.numbered + 1) := by
      intro names hnames hmem
      rcases List.mem_append.1 hmem with hold | hlast
      · exact .inl (hnames entry hold)
      · rw [List.mem_singleton.1 hlast]
        exact .inr ⟨Nat.lt_succ_self _, Nat.le_refl _⟩
    rw [defineView] at hentry ⊢
    split at hentry
    next => exact hnew _ (fun _ hold => (List.mem_filter.1 hold).1) hentry
    next => exact hnew _ (fun _ hold => hold) hentry
  there := by
    intro id hid hunnamed _ hthere
    rw [hasIndex, view?_defineView_of_ne (ne_nextId hid), if_neg]
    · exact hthere
    · intro hname
      obtain ⟨earlier, later, heq, -⟩ := List.lookup_eq_some_iff.1 hname
      exact hunnamed (name, id) (by simp [heq]) rfl

theorem leaves_createEphemeral (s : Store) (map : MapFunction) :
    s.Leaves [] (s.createEphemeral map).2 where
  numbered := Nat.le_succ _
  names := fun _ hentry => .inl hentry
  there := fun _ hid _ _ hthere =>
    (hasIndex_addView_of_ne (show _ ≠ (Descriptor.ephemeral s.nextId).id from ne_nextId hid) map
      none).trans hthere

/-- A deletion takes the index away, and its name; the subscriptions stay. -/
theorem leaves_deleteIndex {index : Descriptor} (h : s.deleteIndex index = .ok s') :
    s.Leaves [index.id] s' ∧ s'.numbered = s.numbered ∧ s'.subscriptions = s.subscriptions := by
  have hremoved : s.Leaves [index.id] (s.removeView index.id) :=
    ⟨Nat.le_refl _, fun _ hentry => .inl hentry, fun _ _ _ hid hthere =>
      (hasIndex_removeView_of_ne fun heq => hid (List.mem_singleton.2 heq)).trans hthere⟩
  have hforgotten : ∀ name, s.Leaves [index.id] ((s.removeView index.id).forgetName name) :=
    fun name => ⟨Nat.le_refl _, fun _ hentry => .inl (List.mem_filter.1 hentry).1, hremoved.there⟩
  obtain ⟨-, -, ⟨name, -, -, rfl⟩ | ⟨-, rfl⟩⟩ := deleteIndex_eq_ok h
  · exact ⟨hforgotten name, rfl, rfl⟩
  · exact ⟨hremoved, rfl, rfl⟩

theorem leaves_subscribe {index : Descriptor} {observer : Observer} {token : Token}
    (h : s.subscribe index observer = .ok (token, s')) : s.Leaves [] s' := by
  obtain ⟨-, -, rfl⟩ := subscribe_eq_ok h
  exact ⟨Nat.le_refl _, fun _ hentry => .inl hentry, fun _ _ _ _ hthere => hthere⟩

end Store

/-- Temporary indexes have identities of their own and no names.  An index is there unless its record
is marked as deleted or it was taken away past the record, and it is deleted late only if no share is
left. -/
structure Custody (taken : List IndexId) (store : Store) (records : List Temporary) : Prop where
  known : ∀ record ∈ records, record.index.id.number ≤ store.numbered
  distinct : (records.map fun record => record.index.id).Nodup
  unnamed : ∀ entry ∈ store.names, entry.2.number ≤ store.numbered ∧
    ∀ record ∈ records, entry.2 ≠ record.index.id
  there : ∀ record ∈ records, record.deleted = false → record.index.id ∉ taken →
    store.hasIndex record.index.id = true
  idle : ∀ record ∈ records, record.deleteWhenIdle = true → record.owners = 0

namespace Custody

variable {taken more : List IndexId} {store store' : Store} {records : List Temporary}
  {record record' : Temporary} {id : Nat}

theorem leaves (h : Custody taken store records) (hleaves : store.Leaves more store') :
    Custody (more ++ taken) store' records where
  known := fun record hrecord => Nat.le_trans (h.known record hrecord) hleaves.numbered
  distinct := h.distinct
  unnamed := by
    intro entry hentry
    rcases hleaves.names entry hentry with hold | ⟨hlower, hupper⟩
    · exact ⟨Nat.le_trans (h.unnamed entry hold).1 hleaves.numbered, (h.unnamed entry hold).2⟩
    · refine ⟨hupper, fun record hrecord heq => ?_⟩
      have hknown := h.known record hrecord
      rw [← heq] at hknown
      exact Nat.not_le_of_lt hlower hknown
  there := by
    intro record hrecord hdeleted hkept
    rw [List.mem_append, not_or] at hkept
    exact hleaves.there _ (h.known record hrecord)
      (fun entry hentry => (h.unnamed entry hentry).2 record hrecord) hkept.1
      (h.there record hrecord hdeleted hkept.2)
  idle := h.idle

theorem mem_set (hrecord : records[id]? = some record) {found : Temporary}
    (hfound : found ∈ records.set id record') :
    found = record' ∨ ∃ other, other ≠ id ∧ records[other]? = some found := by
  obtain ⟨other, hother⟩ := List.mem_iff_getElem?.1 hfound
  rcases eq_or_of_set hrecord hother with ⟨-, heq⟩ | ⟨hne, hold⟩
  · exact .inl heq
  · exact .inr ⟨other, hne, hold⟩

/-- A record changes while the store stays; a mark is not taken back. -/
theorem set (h : Custody taken store records) (hrecord : records[id]? = some record)
    (hindex : record'.index = record.index)
    (hidle : record'.deleteWhenIdle = true → record'.owners = 0)
    (hdeleted : record'.deleted = false → record.deleted = false) :
    Custody taken store (records.set id record') := by
  have hmem := List.mem_of_getElem? hrecord
  have hall : ∀ {p : Temporary → Prop}, (∀ found ∈ records, p found) → p record' →
      ∀ found ∈ records.set id record', p found := by
    intro p hold hnew found hfound
    rcases List.mem_or_eq_of_mem_set hfound with hfound | rfl
    · exact hold found hfound
    · exact hnew
  refine ⟨hall h.known (hindex ▸ h.known record hmem), ?_, fun entry hentry =>
    ⟨(h.unnamed entry hentry).1, hall (h.unnamed entry hentry).2 ?_⟩, hall h.there ?_,
    hall h.idle hidle⟩
  · rw [map_index_set hrecord hindex]
    exact h.distinct
  · rw [hindex]
    exact (h.unnamed entry hentry).2 record hmem
  · intro hkept
    rw [hindex]
    exact h.there record hmem (hdeleted hkept)

/-- A record is marked, and its index goes. -/
theorem delete (h : Custody taken store records) (hrecord : records[id]? = some record)
    (hindex : record'.index = record.index)
    (hidle : record'.deleteWhenIdle = true → record'.owners = 0) (hdeleted : record'.deleted = true)
    (hstore : store.deleteIndex record.index = .ok store') :
    Custody taken store' (records.set id record') := by
  obtain ⟨hleaves, -⟩ := Store.leaves_deleteIndex hstore
  have hmarked := h.set hrecord hindex hidle (fun hkept => by rw [hdeleted] at hkept; cases hkept)
  have htaken := hmarked.leaves hleaves
  refine ⟨htaken.known, htaken.distinct, htaken.unnamed, fun found hfound hkept hgone => ?_,
    htaken.idle⟩
  rcases mem_set hrecord hfound with rfl | ⟨other, hne, hother⟩
  · rw [hdeleted] at hkept
    cases hkept
  · refine htaken.there found hfound hkept fun hmem => ?_
    rcases List.mem_append.1 hmem with hsame | hmem
    · exact hne (eq_of_index_id h.distinct hrecord hother (List.mem_singleton.1 hsame))
    · exact hgone hmem

/-- A temporary index is made. -/
theorem push (h : Custody taken store records) (map : MapFunction) :
    Custody taken (store.createEphemeral map).2
      (records ++ [Temporary.new (store.createEphemeral map).1]) := by
  have hmade := h.leaves (Store.leaves_createEphemeral store map)
  have hall : ∀ {p : Temporary → Prop}, (∀ found ∈ records, p found) →
      p (Temporary.new (store.createEphemeral map).1) →
        ∀ found ∈ records ++ [Temporary.new (store.createEphemeral map).1], p found :=
    fun hold hnew => List.forall_mem_append.2 ⟨hold, List.forall_mem_singleton.2 hnew⟩
  refine ⟨hall hmade.known (Nat.le_refl _), ?_, fun entry hentry =>
    ⟨(hmade.unnamed entry hentry).1, hall (hmade.unnamed entry hentry).2 fun heq => ?_⟩,
    hall hmade.there fun _ _ => ?_, hall hmade.idle nofun⟩
  · rw [List.map_append, List.nodup_append]
    refine ⟨h.distinct, by simp, fun id hid other hother heq => ?_⟩
    obtain ⟨record, hrecord, rfl⟩ := List.mem_map.1 hid
    rw [List.map_singleton, List.mem_singleton] at hother
    exact Store.ne_nextId (h.known record hrecord) (heq.trans hother)
  · exact Store.ne_nextId (h.unnamed entry hentry).1 heq
  · rw [Store.hasIndex_iff, Store.createEphemeral, Store.addView, List.map_append]
    exact List.mem_append_right _ (List.mem_singleton.2 rfl)

end Custody

namespace Database

variable {σ : Type} {c : Client σ} {db : Database σ} {taken : List IndexId}
  {record : Temporary} {id : Nat}

/-! ## Operations on a record -/

/-- The record stays of its index.  If the index goes, the record is marked. -/
structure Minded (db : Database σ) (record : Temporary) (step : Temporary.Step (Database σ)) :
    Prop where
  index : step.record.index = record.index
  idle : (record.deleteWhenIdle = true → record.owners = 0) →
    step.record.deleteWhenIdle = true → step.record.owners = 0
  world : (step.world = db ∧ step.record.deleted = record.deleted) ∨
    ∃ store, step.world = { db with store := store } ∧ step.record.deleted = true ∧
      db.store.deleteIndex record.index = .ok store

theorem minded_same (db : Database σ) (record : Temporary) (notes : List Temporary.Note)
    (reply : Except QueryError Unit) : Minded db record ⟨record, db, notes, reply⟩ :=
  ⟨rfl, fun hidle => hidle, .inl ⟨rfl, rfl⟩⟩

theorem minded_deleteNow (hc : c.Passive) (record : Temporary) (db : Database σ) :
    Minded db record (record.deleteNow (deleteIndex c) db) := by
  rw [Temporary.deleteNow]
  rcases deleteIndex_passive hc record.index db with ⟨error, heq⟩ | ⟨store, hstore, heq⟩
  · rw [heq]
    exact minded_same db record _ _
  · rw [heq]
    exact ⟨rfl, fun hidle => hidle, .inr ⟨store, rfl, rfl, hstore⟩⟩

theorem minded_deleteQuietly (hc : c.Passive) (record : Temporary) (db : Database σ) :
    Minded db record (record.deleteQuietly (deleteIndex c) db) := by
  have h := minded_deleteNow hc record db
  rw [Temporary.deleteQuietly]
  split
  · exact h
  · exact ⟨h.index, h.idle, h.world⟩

theorem minded_acquireOwner (record : Temporary) (db : Database σ) :
    Minded db record (record.acquireOwner db) := by
  rw [Temporary.acquireOwner]
  split
  · exact minded_same db record _ _
  next hthere =>
    have howners : record.owners ≠ 0 := by simp_all [Temporary.isGone]
    exact ⟨rfl, fun hidle hlate => absurd (hidle hlate) howners, .inl ⟨rfl, rfl⟩⟩

theorem minded_releaseOwner (hc : c.Passive) (record : Temporary) (db : Database σ) :
    Minded db record (record.releaseOwner (deleteIndex c) db) := by
  rw [Temporary.releaseOwner]
  split
  · exact minded_same db record _ _
  split
  · exact minded_same db record _ _
  split
  next hlast =>
    rw [Temporary.deleteNow]
    rcases deleteIndex_passive hc record.index db with ⟨error, heq⟩ | ⟨store, hstore, heq⟩
    · simp only [heq]
      -- the share is taken back; a record with one is not to be deleted late
      refine ⟨rfl, fun hidle hlate => ?_, .inl ⟨rfl, rfl⟩⟩
      have hnone := hidle hlate
      omega
    · simp only [heq]
      exact ⟨rfl, fun _ _ => rfl, .inr ⟨store, rfl, rfl, hstore⟩⟩
  · refine ⟨rfl, fun hidle hlate => ?_, .inl ⟨rfl, rfl⟩⟩
    have hnone := hidle hlate
    dsimp only
    omega

theorem minded_releaseDeferred (hc : c.Passive) (record : Temporary) (db : Database σ) :
    Minded db record (record.releaseDeferred (deleteIndex c) db) := by
  have hpaid : record.owners = 0 → record.owners - 1 = 0 := by omega
  rw [Temporary.releaseDeferred]
  split
  · exact minded_same db record _ _
  dsimp only
  split
  · exact ⟨rfl, fun hidle hlate => hpaid (hidle hlate), .inl ⟨rfl, rfl⟩⟩
  next hlast =>
    have hnone : record.owners - 1 = 0 := by omega
    split
    · exact ⟨rfl, fun _ _ => hnone, .inl ⟨rfl, rfl⟩⟩
    · have h := minded_deleteQuietly hc { record with owners := record.owners - 1 } db
      exact ⟨h.index, fun _ => h.idle fun _ => hnone, h.world⟩

theorem minded_deleteTemporary (hc : c.Passive) (record : Temporary) (db : Database σ) :
    Minded db record (record.deleteIndex (deleteIndex c) db) := by
  have h := minded_deleteNow hc record db
  rw [Temporary.deleteIndex]
  split
  · exact minded_same db record _ _
  split
  · exact minded_same db record _ _
  dsimp only
  split
  · exact ⟨h.index, fun _ _ => rfl, h.world⟩
  · exact h

theorem minded_beginScan (record : Temporary) (db : Database σ) :
    Minded db record (record.beginScan db) := by
  rw [Temporary.beginScan]
  split
  · exact minded_same db record _ _
  · exact ⟨rfl, fun hidle => hidle, .inl ⟨rfl, rfl⟩⟩

theorem minded_endScan (hc : c.Passive) (record : Temporary) (db : Database σ) :
    Minded db record (record.endScan (deleteIndex c) db) := by
  rw [Temporary.endScan]
  dsimp only
  split
  · have h := minded_deleteQuietly hc
      { record with inFlight := record.inFlight - 1, deleteWhenIdle := false } db
    exact ⟨h.index, fun _ => h.idle fun hlate => absurd hlate Bool.false_ne_true, h.world⟩
  · exact ⟨rfl, fun hidle => hidle, .inl ⟨rfl, rfl⟩⟩

/-- An operation on a record changes the record, the store, and what is counted and recorded. -/
theorem onTemporary_eq (hrecord : db.temporaries[id]? = some record)
    {operation : Temporary → Database σ → Temporary.Step (Database σ)}
    (h : Minded db record (operation record db)) :
    (onTemporary id operation db).1.store = (operation record db).world.store ∧
      (onTemporary id operation db).1.temporaries =
        db.temporaries.set id (operation record db).record ∧
          (onTemporary id operation db).1.queries = db.queries := by
  simp only [onTemporary, hrecord]
  obtain ⟨hstore, htemporaries, hqueries⟩ := tellAll_eq record.index (operation record db).notes
    { (operation record db).world with
      temporaries := (operation record db).world.temporaries.set id (operation record db).record }
  rw [hstore, htemporaries, hqueries]
  rcases h.world with ⟨heq, -⟩ | ⟨store, heq, -⟩
  · rw [heq]
    exact ⟨rfl, rfl, rfl⟩
  · rw [heq]
    exact ⟨rfl, rfl, rfl⟩

/-- The temporary indexes of a database are in custody. -/
def Kept (taken : List IndexId) (db : Database σ) : Prop :=
  Custody taken db.store db.temporaries

theorem Kept.onTemporary (h : db.Kept taken)
    {operation : Temporary → Database σ → Temporary.Step (Database σ)}
    (hminded : ∀ record, Minded db record (operation record db)) :
    (onTemporary id operation db).1.Kept taken := by
  cases hrecord : db.temporaries[id]? with
  | none =>
    simp only [Database.onTemporary, hrecord]
    exact h
  | some record =>
    have hstep := hminded record
    obtain ⟨hstore, htemporaries, -⟩ := onTemporary_eq hrecord hstep
    have hidle := hstep.idle (h.idle record (List.mem_of_getElem? hrecord))
    rw [Kept, hstore, htemporaries]
    rcases hstep.world with ⟨heq, hdeleted⟩ | ⟨store, heq, hdeleted, hgone⟩
    · rw [heq]
      exact Custody.set h hrecord hstep.index hidle fun hkept => hdeleted ▸ hkept
    · rw [heq]
      exact Custody.delete h hrecord hstep.index hidle hdeleted hgone

end Database

end Viewbase
