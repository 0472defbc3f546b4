import Viewbase.Proofs.Database.Beside

/-!
The shares of temporary indexes.

Unless a temporary index is gone, its record counts a share for every query that holds one
(`Shares`).  So a query over an index that is there is not refused.
-/

namespace Viewbase.Database

variable {σ : Type}

/-! ## Lists -/

section Lists

variable {α : Type} {items : List α} {i : Nat} {a : α}

theorem getElem?_push (items : List α) (a : α) (i : Nat) :
    (items ++ [a])[i]? = if i = items.length then some a else items[i]? := by
  by_cases hi : i = items.length
  · rw [if_pos hi, hi, List.getElem?_concat_length]
  · rw [if_neg hi]
    rcases Nat.lt_or_gt_of_ne hi with hlt | hgt
    · exact List.getElem?_append_left hlt
    · rw [List.getElem?_eq_none (by rw [List.length_append, List.length_singleton]; omega),
        List.getElem?_eq_none (by omega)]

theorem getElem?_modify_of_some (h : items[i]? = some a) (change : α → α) (j : Nat) :
    (items.modify i change)[j]? = if j = i then some (change a) else items[j]? := by
  rw [List.getElem?_modify]
  by_cases hj : j = i
  · subst hj
    simp [h]
  · simp [hj, Ne.symm hj]

theorem mem_modify_of_some (h : items[i]? = some a) {change : α → α} {b : α}
    (hb : b ∈ items.modify i change) : b = change a ∨ b ∈ items := by
  obtain ⟨j, hj⟩ := List.mem_iff_getElem?.1 hb
  rw [getElem?_modify_of_some h] at hj
  split at hj
  · exact .inl (Option.some.inj hj).symm
  · exact .inr (List.mem_of_getElem? hj)

theorem countP_modify (h : items[i]? = some a) (change : α → α) (p : α → Bool) :
    (items.modify i change).countP p + (if p a then 1 else 0) =
      items.countP p + if p (change a) then 1 else 0 := by
  induction items generalizing i with
  | nil => cases h
  | cons head rest ih =>
    cases i with
    | zero =>
      cases h
      rw [List.modify_zero_cons, List.countP_cons, List.countP_cons]
      omega
    | succ i =>
      have hrest := ih h
      rw [List.modify_succ_cons, List.countP_cons, List.countP_cons]
      omega

end Lists

/-! ## Shares -/

/-- The record of a temporary index counts every share that a query holds. -/
structure Sharing (store : Store) (records : List Temporary) (queries : List Query) : Prop where
  held : ∀ (id : Nat) (record : Temporary), records[id]? = some record → record.deleted = false →
    sharers queries id ≤ record.owners
  known : ∀ (id : Nat) (record : Temporary), records[id]? = some record →
    record.index.id.number ≤ store.numbered
  gone : ∀ (id : Nat) (record : Temporary), records[id]? = some record → record.deleted →
    store.hasIndex record.index.id = false
  index : ∀ query ∈ queries, ∀ id, query.temporary = some id → ∃ record,
    records[id]? = some record ∧ query.index = some record.index

def Shares (db : Database σ) : Prop :=
  Sharing db.store db.temporaries db.queries

variable {store store' : Store} {records : List Temporary} {queries queries' : List Query}
  {db db' : Database σ}

/-- An index that is gone does not come back. -/
theorem hasIndex_later (hlater : store.Later store') {id : IndexId}
    (hknown : id.number ≤ store.numbered)
    (hgone : store.hasIndex id = false) : store'.hasIndex id = false := by
  rw [Store.hasIndex, Option.isSome_eq_false_iff, Option.isNone_iff_eq_none] at hgone ⊢
  cases hview : store'.view? id with
  | none => rfl
  | some view' =>
    rcases hlater.views id view' hview with hnew | ⟨view, hold, -⟩
    · omega
    · rw [hgone] at hold
      cases hold

theorem Sharing.later (h : Sharing store records queries) (hlater : store.Later store') :
    Sharing store' records queries where
  held := h.held
  known := fun id record hrecord => Nat.le_trans (h.known id record hrecord) hlater.numbered
  gone := fun id record hrecord hdeleted =>
    hasIndex_later hlater (h.known id record hrecord) (h.gone id record hrecord hdeleted)
  index := h.index

/-- Nothing else of the store matters than which views it has. -/
theorem Sharing.of_views (h : Sharing store records queries) (hviews : store'.views = store.views)
    (hnumbered : store'.numbered = store.numbered) : Sharing store' records queries where
  held := h.held
  known := by
    rw [hnumbered]
    exact h.known
  gone := by
    intro id record hrecord hdeleted
    rw [Store.hasIndex, Store.view?, hviews]
    exact h.gone id record hrecord hdeleted
  index := h.index

/-- Queries that hold no more shares than others hold them just as well. -/
theorem Sharing.of_queries (h : Sharing store records queries)
    (hsharers : ∀ id, sharers queries' id ≤ sharers queries id)
    (hqueries : ∀ query' ∈ queries', ∀ id, query'.temporary = some id →
      ∃ query ∈ queries, query.temporary = some id ∧ query.index = query'.index) :
    Sharing store records queries' where
  held := fun id record hrecord hdeleted =>
    Nat.le_trans (hsharers id) (h.held id record hrecord hdeleted)
  known := h.known
  gone := h.gone
  index := by
    intro query' hquery' id hshare
    obtain ⟨query, hquery, hshare', hindex⟩ := hqueries query' hquery' id hshare
    rw [← hindex]
    exact h.index query hquery id hshare'

/-- A record changes, and the queries that hold shares of it. -/
theorem Sharing.set (h : Sharing store records queries) (hlater : store.Later store') {id : Nat}
    {record record' : Temporary} (hrecord : records[id]? = some record)
    (hindex : record'.index = record.index)
    (hgone : record'.deleted → record.deleted ∨ store'.hasIndex record.index.id = false)
    (hheld : record'.deleted = false → record.deleted = false ∧
      (sharers queries id ≤ record.owners → sharers queries' id ≤ record'.owners))
    (hothers : ∀ other, other ≠ id → sharers queries' other ≤ sharers queries other)
    (hqueries : ∀ query' ∈ queries', ∀ id, query'.temporary = some id →
      ∃ query ∈ queries, query.temporary = some id ∧ query.index = query'.index) :
    Sharing store' (records.set id record') queries' := by
  have hlength := (List.getElem?_eq_some_iff.1 hrecord).1
  have hset : ∀ other, (records.set id record')[other]? =
      if other = id then some record' else records[other]? := by
    intro other
    rw [List.getElem?_set]
    by_cases hother : id = other
    · subst hother
      rw [if_pos rfl, if_pos hlength, if_pos rfl]
    · rw [if_neg hother, if_neg (Ne.symm hother)]
  refine ⟨?_, ?_, ?_, ?_⟩
  · intro other found hfound hdeleted
    rw [hset] at hfound
    split at hfound
    next heq =>
      cases hfound
      obtain ⟨hbefore, hcount⟩ := hheld hdeleted
      rw [heq]
      exact hcount (h.held id record hrecord hbefore)
    next hne => exact Nat.le_trans (hothers other hne) (h.held other found hfound hdeleted)
  · intro other found hfound
    refine Nat.le_trans ?_ hlater.numbered
    rw [hset] at hfound
    split at hfound
    · cases hfound
      rw [hindex]
      exact h.known id record hrecord
    · exact h.known other found hfound
  · intro other found hfound hdeleted
    rw [hset] at hfound
    split at hfound
    · cases hfound
      rw [hindex]
      rcases hgone hdeleted with hbefore | hafter
      · exact hasIndex_later hlater (h.known id record hrecord) (h.gone id record hrecord hbefore)
      · exact hafter
    · exact hasIndex_later hlater (h.known other found hfound) (h.gone other found hfound hdeleted)
  · intro query' hquery' other hshare
    obtain ⟨query, hquery, hshare', hsame⟩ := hqueries query' hquery' other hshare
    obtain ⟨found, hfound, hindexed⟩ := h.index query hquery other hshare'
    rw [hset]
    split
    next heq =>
      subst heq
      rw [hrecord] at hfound
      cases hfound
      exact ⟨record', rfl, by rw [← hsame, hindexed, hindex]⟩
    next => exact ⟨found, hfound, by rw [← hsame, hindexed]⟩

/-! ## Operations on a record -/

/-- What an operation does to a record and the world around it; `paid` is how many shares it takes
away. -/
structure Fair (db : Database σ) (record : Temporary) (step : Temporary.Step (Database σ))
    (paid : Nat) : Prop where
  world : ∃ store, step.world = { db with store := store } ∧ db.store.Later store
  index : step.record.index = record.index
  gone : step.record.deleted → record.deleted ∨ step.world.store.hasIndex record.index.id = false
  owners : step.record.deleted = false →
    record.deleted = false ∧ record.owners ≤ step.record.owners + paid

theorem hasIndex_deleteIndex {index : Descriptor} (h : store.deleteIndex index = .ok store') :
    store'.hasIndex index.id = false := by
  have hremoved : (store.removeView index.id).hasIndex index.id = false := by
    simp [Store.hasIndex, Store.view?, Store.removeView]
  obtain ⟨-, -, ⟨name, -, -, rfl⟩ | ⟨-, rfl⟩⟩ := Store.deleteIndex_eq_ok h
  · exact hremoved
  · exact hremoved

theorem deleteIndex_cases (index : Descriptor) (db : Database σ) :
    (∃ store, deleteIndex (.silent σ) index db = ({ db with store := store }, .ok ()) ∧
      db.store.Later store ∧ store.hasIndex index.id = false) ∨
      ∃ error, deleteIndex (.silent σ) index db = (db, .error error) := by
  simp only [deleteIndex, Client.silent]
  split
  next store hdelete =>
    exact .inl ⟨store, rfl, Store.later_deleteIndex hdelete, hasIndex_deleteIndex hdelete⟩
  next error _ => exact .inr ⟨error, rfl⟩

theorem fair_same (db : Database σ) (record : Temporary) (notes : List Temporary.Note)
    (reply : Except QueryError Unit) : Fair db record ⟨record, db, notes, reply⟩ 0 where
  world := ⟨db.store, rfl, .refl _⟩
  index := rfl
  gone := .inl
  owners := fun hdeleted => ⟨hdeleted, Nat.le_refl _⟩

theorem fair_beginScan (db : Database σ) (record : Temporary) :
    Fair db record (record.beginScan db) 0 := by
  rw [Temporary.beginScan]
  split
  · exact fair_same db record _ _
  · exact ⟨⟨db.store, rfl, .refl _⟩, rfl, .inl, fun hdeleted => ⟨hdeleted, Nat.le_refl _⟩⟩

theorem fair_acquireOwner (db : Database σ) (record : Temporary) :
    Fair db record (record.acquireOwner db) 0 := by
  rw [Temporary.acquireOwner]
  split
  · exact fair_same db record _ _
  · exact ⟨⟨db.store, rfl, .refl _⟩, rfl, .inl, fun hdeleted => ⟨hdeleted, Nat.le_succ _⟩⟩

theorem fair_deleteNow (db : Database σ) (record : Temporary) :
    Fair db record (record.deleteNow (deleteIndex (.silent σ)) db) 0 := by
  rw [Temporary.deleteNow]
  rcases deleteIndex_cases record.index db with ⟨store, heq, hlater, hgone⟩ | ⟨error, heq⟩
  · rw [heq]
    exact ⟨⟨store, rfl, hlater⟩, rfl, fun _ => .inr hgone, by simp⟩
  · rw [heq]
    exact fair_same db record _ _

theorem fair_deleteQuietly (db : Database σ) (record : Temporary) :
    Fair db record (record.deleteQuietly (deleteIndex (.silent σ)) db) 0 := by
  have h := fair_deleteNow db record
  rw [Temporary.deleteQuietly]
  split
  · exact h
  · exact ⟨h.world, h.index, h.gone, h.owners⟩

theorem fair_endScan (db : Database σ) (record : Temporary) :
    Fair db record (record.endScan (deleteIndex (.silent σ)) db) 0 := by
  rw [Temporary.endScan]
  dsimp only
  split
  · have h := fair_deleteQuietly db
      { record with inFlight := record.inFlight - 1, deleteWhenIdle := false }
    exact ⟨h.world, h.index, h.gone, h.owners⟩
  · exact ⟨⟨db.store, rfl, .refl _⟩, rfl, .inl, fun hdeleted => ⟨hdeleted, Nat.le_refl _⟩⟩

theorem fair_deleteIndex (db : Database σ) (record : Temporary) :
    Fair db record (record.deleteIndex (deleteIndex (.silent σ)) db) 0 := by
  have h := fair_deleteNow db record
  rw [Temporary.deleteIndex]
  split
  · exact fair_same db record _ _
  split
  · exact fair_same db record _ _
  · rw [Temporary.deleteNow] at h ⊢
    rcases deleteIndex_cases record.index db with ⟨store, heq, hlater, hgone⟩ | ⟨error, heq⟩
    · rw [heq]
      exact ⟨⟨store, rfl, hlater⟩, rfl, fun _ => .inr hgone, by simp⟩
    · rw [heq]
      exact fair_same db record _ _

/-- A share is given up only if the reply is good. -/
theorem fair_releaseOwner (db : Database σ) (record : Temporary) :
    Fair db record (record.releaseOwner (deleteIndex (.silent σ)) db)
      (match (record.releaseOwner (deleteIndex (.silent σ)) db).reply with
        | .ok () => 1
        | .error _ => 0) := by
  rw [Temporary.releaseOwner]
  split
  · exact fair_same db record _ _
  split
  · exact fair_same db record _ _
  split
  next hlast =>
    rw [Temporary.deleteNow]
    rcases deleteIndex_cases record.index db with ⟨store, heq, hlater, hgone⟩ | ⟨error, heq⟩
    · simp only [heq]
      exact ⟨⟨store, rfl, hlater⟩, rfl, fun _ => .inr hgone, by simp⟩
    · simp only [heq]
      exact ⟨⟨db.store, rfl, .refl _⟩, rfl, .inl, fun hdeleted => ⟨hdeleted, Nat.le_of_eq hlast⟩⟩
  next =>
    refine ⟨⟨db.store, rfl, .refl _⟩, rfl, .inl, fun hdeleted => ⟨hdeleted, ?_⟩⟩
    exact Nat.le_add_of_sub_le (Nat.le_refl _)

theorem Fair.mono {record : Temporary} {step : Temporary.Step (Database σ)} {paid paid' : Nat}
    (h : Fair db record step paid) (hle : paid ≤ paid') : Fair db record step paid' where
  world := h.world
  index := h.index
  gone := h.gone
  owners := fun hdeleted =>
    ⟨(h.owners hdeleted).1, Nat.le_trans (h.owners hdeleted).2 (Nat.add_le_add_left hle _)⟩

/-- At most one share is given up. -/
theorem fair_releaseOwner_one (db : Database σ) (record : Temporary) :
    Fair db record (record.releaseOwner (deleteIndex (.silent σ)) db) 1 := by
  refine (fair_releaseOwner db record).mono ?_
  split
  · exact Nat.le_refl _
  · exact Nat.zero_le _

theorem fair_releaseDeferred (db : Database σ) (record : Temporary) :
    Fair db record (record.releaseDeferred (deleteIndex (.silent σ)) db) 1 := by
  have hpaid : ∀ {owners : Nat}, owners ≤ owners - 1 + 1 := by omega
  rw [Temporary.releaseDeferred]
  split
  · exact ⟨⟨db.store, rfl, .refl _⟩, rfl, .inl, fun hdeleted => ⟨hdeleted, Nat.le_succ _⟩⟩
  dsimp only
  split
  · exact ⟨⟨db.store, rfl, .refl _⟩, rfl, .inl, fun hdeleted => ⟨hdeleted, hpaid⟩⟩
  split
  · exact ⟨⟨db.store, rfl, .refl _⟩, rfl, .inl, fun hdeleted => ⟨hdeleted, hpaid⟩⟩
  · have h := fair_deleteQuietly db { record with owners := record.owners - 1 }
    refine ⟨h.world, h.index, h.gone, fun hdeleted => ⟨(h.owners hdeleted).1, ?_⟩⟩
    exact Nat.le_trans hpaid (Nat.succ_le_succ (h.owners hdeleted).2)

/-! ## Shares after an operation -/

/-- What is told of a temporary index matters to no share. -/
theorem tellAll_eq (index : Descriptor) (notes : List Temporary.Note) (db : Database σ) :
    (notes.foldl (tell index) db).store = db.store ∧
      (notes.foldl (tell index) db).temporaries = db.temporaries ∧
        (notes.foldl (tell index) db).queries = db.queries := by
  induction notes generalizing db with
  | nil => exact ⟨rfl, rfl, rfl⟩
  | cons note notes ih =>
    obtain ⟨hstore, htemporaries, hqueries⟩ := ih (tell index db note)
    rw [List.foldl_cons]
    refine ⟨hstore.trans ?_, htemporaries.trans ?_, hqueries.trans ?_⟩ <;> cases note <;> rfl

/-- An operation on a record, and what becomes of the queries that hold shares. -/
theorem Shares.onTemporary (h : db.Shares) {id : Nat} {record : Temporary} {paid : Nat}
    {operation : Temporary → Database σ → Temporary.Step (Database σ)}
    (hrecord : db.temporaries[id]? = some record)
    (hfair : Fair db record (operation record db) paid)
    (hpaid : record.deleted = false → sharers db.queries id ≤ record.owners →
      sharers queries' id + paid ≤ record.owners)
    (hothers : ∀ other, other ≠ id → sharers queries' other ≤ sharers db.queries other)
    (hqueries : ∀ query' ∈ queries', ∀ id, query'.temporary = some id →
      ∃ query ∈ db.queries, query.temporary = some id ∧ query.index = query'.index) :
    Sharing (db.onTemporary id operation).1.store (db.onTemporary id operation).1.temporaries
      queries' := by
  obtain ⟨⟨store, hworld, hlater⟩, hindex, hgone, howners⟩ := hfair
  rw [Database.onTemporary, hrecord]
  obtain ⟨hstore, htemporaries, -⟩ := tellAll_eq record.index (operation record db).notes
    { (operation record db).world with
      temporaries := (operation record db).world.temporaries.set id (operation record db).record }
  dsimp only
  rw [hstore, htemporaries]
  rw [hworld] at hgone ⊢
  refine Sharing.set h hlater hrecord hindex hgone ?_ hothers hqueries
  intro hdeleted
  obtain ⟨hbefore, hcount⟩ := howners hdeleted
  refine ⟨hbefore, fun hheld => ?_⟩
  have hspare := hpaid hbefore hheld
  omega

theorem queries_onTemporary (id : Nat) {paid : Nat}
    {operation : Temporary → Database σ → Temporary.Step (Database σ)}
    (hfair : ∀ record, Fair db record (operation record db) paid) :
    (db.onTemporary id operation).1.queries = db.queries := by
  rw [Database.onTemporary]
  split
  · rfl
  next record _ =>
    obtain ⟨store, hworld, -⟩ := (hfair record).world
    refine (tellAll_eq _ _ _).2.2.trans ?_
    rw [hworld]

/-- An operation on a record while the queries stay. -/
theorem shares_onTemporary (h : db.Shares) {id : Nat} (paid : Nat)
    {operation : Temporary → Database σ → Temporary.Step (Database σ)}
    (hfair : ∀ record, Fair db record (operation record db) paid)
    (hpaid : ∀ record, db.temporaries[id]? = some record → record.deleted = false →
      sharers db.queries id + paid ≤ record.owners) : (db.onTemporary id operation).1.Shares := by
  cases hrecord : db.temporaries[id]? with
  | none =>
    rw [Database.onTemporary, hrecord]
    exact h
  | some record =>
    rw [Shares, queries_onTemporary id hfair]
    refine h.onTemporary hrecord (hfair record) (fun hdeleted _ => hpaid record hrecord hdeleted)
      (fun _ _ => Nat.le_refl _) ?_
    intro query hquery other hshare
    exact ⟨query, hquery, hshare, rfl⟩

theorem shares_beginScan (h : db.Shares) (id : Nat) : (db.beginScan id).1.Shares :=
  shares_onTemporary h 0 (fair_beginScan db) fun record hrecord hdeleted =>
    h.held id record hrecord hdeleted

theorem shares_acquireOwner (h : db.Shares) (id : Nat) : (db.acquireOwner id).1.Shares :=
  shares_onTemporary h 0 (fair_acquireOwner db) fun record hrecord hdeleted =>
    h.held id record hrecord hdeleted

theorem shares_endScan (h : db.Shares) (id : Nat) : (db.endScan (.silent σ) id).Shares :=
  shares_onTemporary h 0 (fair_endScan db) fun record hrecord hdeleted =>
    h.held id record hrecord hdeleted

theorem shares_deleteTemporary (h : db.Shares) (id : Nat) :
    (db.deleteTemporary (.silent σ) id).1.Shares :=
  shares_onTemporary h 0 (fair_deleteIndex db) fun record hrecord hdeleted =>
    h.held id record hrecord hdeleted

/-- The client gives up a share of its own. -/
theorem shares_releaseOwner (h : db.Shares) {id : Nat} (howns : db.OwnsShare id) :
    (db.releaseOwner (.silent σ) id).1.Shares :=
  shares_onTemporary h 1 (fair_releaseOwner_one db) howns

theorem shares_releaseDeferred (h : db.Shares) {id : Nat} (howns : db.OwnsShare id) :
    (db.releaseDeferred (.silent σ) id).Shares :=
  shares_onTemporary h 1 (fair_releaseDeferred db) howns

theorem shares_endRegistration (h : db.Shares) (temporary : Option Nat) :
    (db.endRegistration (.silent σ) temporary).Shares := by
  cases temporary with
  | none => exact h
  | some id => exact shares_endScan h id

theorem shares_scan (h : db.Shares) (request : Request) : (db.scan (.silent σ) request).1.Shares :=
  Sharing.later h (Store.later_scan db.store request)

theorem shares_deleteIndex (h : db.Shares) (index : Descriptor) :
    (db.deleteIndex (.silent σ) index).1.Shares := by
  rcases deleteIndex_cases index db with ⟨store, heq, hlater, -⟩ | ⟨error, heq⟩
  · rw [heq]
    exact Sharing.later h hlater
  · rw [heq]
    exact h

/-! ## Shares of queries -/

/-- A query that keeps its share and its index counts as before. -/
theorem shares_updateQuery (h : db.Shares) (id : Nat) {change : Query → Query}
    (hchange : ∀ query, (change query).temporary = query.temporary ∧
      (change query).index = query.index) : (db.updateQuery id change).Shares := by
  refine Sharing.of_queries h (fun temporary => ?_) ?_
  · cases hquery : db.queries[id]? with
    | none =>
      refine Nat.le_of_eq ?_
      rw [Database.updateQuery, List.modify_eq_self (List.getElem?_eq_none_iff.1 hquery)]
    | some query =>
      have hcount := countP_modify hquery change fun query => query.temporary == some temporary
      rw [(hchange query).1] at hcount
      exact Nat.le_of_eq (Nat.add_right_cancel hcount)
  · intro query' hquery' temporary hshare
    obtain ⟨i, hi⟩ := List.mem_iff_getElem?.1 hquery'
    rw [Database.updateQuery, List.getElem?_modify] at hi
    obtain ⟨query, hquery, heq⟩ := Option.map_eq_some_iff.1 hi
    refine ⟨query, List.mem_of_getElem? hquery, ?_⟩
    split at heq
    · rw [← heq] at hshare ⊢
      exact ⟨(hchange query).1.symm.trans hshare, (hchange query).2.symm⟩
    · rw [heq]
      exact ⟨hshare, rfl⟩

theorem mem_markDisposed {id : Nat} {query' : Query}
    (hquery' : query' ∈ (db.markDisposed id).queries)
    {temporary : Nat} (hshare : query'.temporary = some temporary) : query' ∈ db.queries := by
  obtain ⟨i, hi⟩ := List.mem_iff_getElem?.1 hquery'
  rw [Database.markDisposed, Database.updateQuery, List.getElem?_modify] at hi
  obtain ⟨query, hquery, heq⟩ := Option.map_eq_some_iff.1 hi
  split at heq
  · rw [← heq] at hshare
    cases hshare
  · rw [← heq]
    exact List.mem_of_getElem? hquery

/-- A query that is given up holds no share. -/
theorem sharers_markDisposed {id : Nat} {query : Query} (hquery : db.queries[id]? = some query)
    (temporary : Nat) :
    sharers (db.markDisposed id).queries temporary +
      (if query.temporary = some temporary then 1 else 0) = sharers db.queries temporary := by
  have hcount := countP_modify hquery
    (fun query => { query with temporary := none, disposed := true })
    fun query => query.temporary == some temporary
  simpa [sharers, Database.markDisposed, Database.updateQuery] using hcount

theorem sharers_markDisposed_le (id temporary : Nat) :
    sharers (db.markDisposed id).queries temporary ≤ sharers db.queries temporary := by
  cases hquery : db.queries[id]? with
  | none =>
    refine Nat.le_of_eq ?_
    rw [Database.markDisposed, Database.updateQuery,
      List.modify_eq_self (List.getElem?_eq_none_iff.1 hquery)]
  | some query =>
    have hcount := sharers_markDisposed hquery temporary
    omega

theorem shares_markDisposed (h : db.Shares) (id : Nat) : (db.markDisposed id).Shares := by
  refine Sharing.of_queries h (sharers_markDisposed_le id) fun query' hquery' temporary hshare => ?_
  exact ⟨query', mem_markDisposed hquery' hshare, hshare, rfl⟩

/-- A query gives up its share and is marked. -/
theorem shares_payMark (h : db.Shares) {id temporary paid : Nat} {query : Query}
    {operation : Temporary → Database σ → Temporary.Step (Database σ)}
    (hquery : db.queries[id]? = some query) (hshare : query.temporary = some temporary)
    (hfair : ∀ record, Fair db record (operation record db) paid) (hpaid : paid ≤ 1) :
    ((db.onTemporary temporary operation).1.markDisposed id).Shares := by
  obtain ⟨record, hrecord, -⟩ := h.index query (List.mem_of_getElem? hquery) temporary hshare
  have hqueries : ((db.onTemporary temporary operation).1.markDisposed id).queries =
      (db.markDisposed id).queries := by
    rw [Database.markDisposed, Database.markDisposed, Database.updateQuery, Database.updateQuery,
      queries_onTemporary temporary hfair]
  rw [Shares, hqueries]
  refine h.onTemporary hrecord (hfair record) ?_
    (fun other _ => sharers_markDisposed_le id other) ?_
  · intro _ hheld
    have hcount := sharers_markDisposed hquery temporary
    rw [if_pos hshare] at hcount
    omega
  · intro query' hquery' other hother
    exact ⟨query', mem_markDisposed hquery' hother, hother, rfl⟩

theorem shares_release (h : db.Shares) (id : Nat) : (db.release (.silent σ) id).Shares := by
  rw [release]
  split
  · exact shares_markDisposed h id
  next temporary heq =>
    obtain ⟨query, hquery, hshare⟩ := Option.bind_eq_some_iff.1 heq
    exact shares_payMark h hquery hshare (fair_releaseDeferred db) (Nat.le_refl _)

theorem shares_dropQuery (h : db.Shares) (id : Nat) : (db.dropQuery (.silent σ) id).Shares := by
  rw [dropQuery]
  split
  next index _ =>
    have hnoted : (db.note .temporaryReleased [("index", index.text),
        ("reason", "query dropped without dispose")]).Shares := h
    exact shares_release hnoted id
  next => exact shares_release h id

theorem shares_dispose (h : db.Shares) (id : Nat) : (db.dispose (.silent σ) id).1.Shares := by
  rw [dispose]
  split
  · exact h
  next query hquery =>
    split
    · exact h
    split
    · exact shares_markDisposed h id
    next temporary hshare =>
      have hmarked := shares_payMark h hquery hshare (fair_releaseOwner_one db) (Nat.le_refl _)
      split
      next released error heq =>
        -- The share is kept when its release is refused.
        obtain ⟨record, hrecord, -⟩ := h.index query (List.mem_of_getElem? hquery) temporary hshare
        have hreply : (record.releaseOwner (deleteIndex (.silent σ)) db).reply = .error error := by
          have hsnd := congrArg Prod.snd heq
          rw [releaseOwner, onTemporary, hrecord] at hsnd
          exact hsnd
        have hfair := fair_releaseOwner db record
        rw [hreply] at hfair
        have hqueries := queries_onTemporary temporary (fair_releaseOwner_one db)
        have hkept : (db.releaseOwner (.silent σ) temporary).1.Shares := by
          rw [Shares]
          refine hqueries.symm ▸ h.onTemporary hrecord hfair (fun _ hheld => hheld)
            (fun _ _ => Nat.le_refl _) ?_
          intro query' hquery' other hother
          exact ⟨query', hquery', hother, rfl⟩
        rw [heq] at hkept
        exact hkept
      next released heq =>
        have hreleased : (db.onTemporary temporary
            (Temporary.releaseOwner (deleteIndex (.silent σ)))).1 = released :=
          congrArg Prod.fst heq
        rw [hreleased] at hmarked
        exact hmarked

/-! ## New shares -/

theorem mem_addQuery {query query' : Query} (hquery' : query' ∈ db.queries ++ [query]) :
    query' ∈ db.queries ∨ query' = query := by
  rcases List.mem_append.1 hquery' with hold | hnew
  · exact .inl hold
  · exact .inr (List.mem_singleton.1 hnew)

/-- A query that holds no share is added. -/
theorem shares_addQuery (h : db.Shares) {query : Query} (hnone : query.temporary = none) :
    (addQuery query db).1.Shares := by
  refine Sharing.of_queries h (fun id => ?_) fun query' hquery' id hshare => ?_
  · refine Nat.le_of_eq ?_
    simp [addQuery, sharers, List.countP_append, hnone]
  · rcases mem_addQuery hquery' with hold | rfl
    · exact ⟨query', hold, hshare, rfl⟩
    · rw [hnone] at hshare
      cases hshare

/-- The share that a copy of a query needs is taken before the copy is added. -/
theorem sharing_shareTemporary (h : db.Shares) {query : Query} (hquery : query ∈ db.queries)
    {shared : Database σ} (hshared : db.shareTemporary query = (shared, .ok ())) :
    Sharing shared.store shared.temporaries (db.queries ++ [query]) := by
  have hqueries : ∀ query' ∈ db.queries ++ [query], ∀ id, query'.temporary = some id →
      ∃ old ∈ db.queries, old.temporary = some id ∧ old.index = query'.index := by
    intro query' hquery' id hshare
    rcases mem_addQuery hquery' with hold | rfl
    · exact ⟨query', hold, hshare, rfl⟩
    · exact ⟨query', hquery, hshare, rfl⟩
  rw [shareTemporary] at hshared
  split at hshared
  next temporary hshare =>
    obtain ⟨record, hrecord, -⟩ := h.index query hquery temporary hshare
    rw [acquireOwner, onTemporary, hrecord] at hshared
    simp only [Temporary.acquireOwner] at hshared
    split at hshared
    · cases hshared
    · cases hshared
      refine Sharing.set h (.refl _) hrecord rfl .inl (fun hdeleted => ⟨hdeleted, ?_⟩) ?_ hqueries
      · intro hheld
        simp [sharers, List.countP_append, hshare] at hheld ⊢
        omega
      · intro other hother
        simp [sharers, List.countP_append, hshare, Ne.symm hother]
  next hnone =>
    cases hshared
    refine Sharing.of_queries h (fun id => ?_) hqueries
    refine Nat.le_of_eq ?_
    simp [sharers, List.countP_append, hnone]

theorem shares_shareTemporary (h : db.Shares) (query : Query) :
    (db.shareTemporary query).1.Shares := by
  rw [shareTemporary]
  split
  · exact shares_acquireOwner h _
  · exact h

theorem queries_shareTemporary (query : Query) (db : Database σ) :
    (db.shareTemporary query).1.queries = db.queries := by
  rw [shareTemporary]
  split
  · exact queries_onTemporary _ (fair_acquireOwner db)
  · rfl

theorem shares_copyQuery (h : db.Shares) (id : Nat) : (db.copyQuery id).1.Shares := by
  rw [copyQuery]
  split
  · exact h
  next query hquery =>
    split
    · exact h
    split
    next shared error heq =>
      have hshared := shares_shareTemporary h query
      rwa [heq] at hshared
    next shared heq =>
      have hqueries := queries_shareTemporary query db
      rw [heq] at hqueries
      have hadded := sharing_shareTemporary h (List.mem_of_getElem? hquery) heq
      show Sharing shared.store shared.temporaries (shared.queries ++ [query])
      rwa [hqueries]

/-- Nobody holds a share of what there is no record of. -/
theorem sharers_of_none (h : Sharing store records queries) {id : Nat}
    (hnone : records[id]? = none) :
    sharers queries id = 0 := by
  refine List.countP_eq_zero.2 fun query hquery hshare => ?_
  obtain ⟨record, hrecord, -⟩ := h.index query hquery id (by simpa using hshare)
  rw [hnone] at hrecord
  cases hrecord

/-- The maker of a temporary index holds its first share. -/
theorem Sharing.create (h : Sharing store records queries) (hlater : store.Later store')
    {index : Descriptor} (hknown : index.id.number ≤ store'.numbered) {query : Query}
    (hindex : query.index = some index) (hshare : query.temporary = some records.length) :
    Sharing store' (records ++ [Temporary.new index]) (queries ++ [query]) := by
  have hcases : ∀ {id : Nat} {record : Temporary},
      (records ++ [Temporary.new index])[id]? = some record →
        (id ≠ records.length ∧ records[id]? = some record) ∨
          (id = records.length ∧ record = Temporary.new index) := by
    intro id record hrecord
    rw [getElem?_push] at hrecord
    split at hrecord
    next hid => exact .inr ⟨hid, (Option.some.inj hrecord).symm⟩
    next hid => exact .inl ⟨hid, hrecord⟩
  refine ⟨?_, ?_, ?_, ?_⟩
  · intro id record hrecord hdeleted
    rw [sharers, List.countP_append, ← sharers]
    rcases hcases hrecord with ⟨hid, hold⟩ | ⟨rfl, rfl⟩
    · have hheld := h.held id record hold hdeleted
      simpa [hshare, Ne.symm hid] using hheld
    · rw [sharers_of_none h (List.getElem?_eq_none (Nat.le_refl _))]
      simp [hshare, Temporary.new]
  · intro id record hrecord
    rcases hcases hrecord with ⟨-, hold⟩ | ⟨-, rfl⟩
    · exact Nat.le_trans (h.known id record hold) hlater.numbered
    · exact hknown
  · intro id record hrecord hdeleted
    rcases hcases hrecord with ⟨-, hold⟩ | ⟨-, rfl⟩
    · exact hasIndex_later hlater (h.known id record hold) (h.gone id record hold hdeleted)
    · cases hdeleted
  · intro query' hquery' id hhas
    rcases List.mem_append.1 hquery' with hold | hnew
    · obtain ⟨record, hrecord, hsame⟩ := h.index query' hold id hhas
      have hlt := (List.getElem?_eq_some_iff.1 hrecord).1
      exact ⟨record, by rw [List.getElem?_append_left hlt, hrecord], hsame⟩
    · rw [List.mem_singleton.1 hnew] at hhas ⊢
      rw [hshare] at hhas
      cases hhas
      exact ⟨Temporary.new index, List.getElem?_concat_length, hindex⟩

/-- A query over a new temporary index holds its first share. -/
theorem shares_queryMap (h : db.Shares) (map : MapFunction) :
    (db.queryMap (.silent σ) map).1.Shares :=
  Sharing.create h (Store.later_createEphemeral db.store map) (Nat.le_refl _) rfl rfl

theorem shares_register (h : db.Shares) (id : Nat) : (db.register id).1.Shares := by
  rcases fst_register id db with heq | ⟨temporary, heq⟩
  · rwa [heq]
  · rw [heq]
    exact shares_beginScan h temporary

theorem shares_complete (h : db.Shares) (query : Nat) (target : Target)
    (result : Except IndexError Answer) : (db.complete query target result).1.Shares := by
  cases result with
  | ok answer => exact shares_updateQuery h query fun _ => ⟨rfl, rfl⟩
  | error error => exact h

theorem shares_runQuery (h : db.Shares) (id : Nat) : (db.runQuery (.silent σ) id).1.Shares := by
  rw [runQuery]
  split
  · exact h
  next query _ =>
    have hregistered := shares_register h id
    split
    next heq => rwa [heq] at hregistered
    next registered temporary heq =>
      rw [heq] at hregistered
      exact shares_complete (shares_endRegistration (shares_scan hregistered query.request)
        temporary) id _ _

theorem shares_wakeRecipient {recipient : Recipient} :
    (db.wakeRecipient recipient).Shares ↔ db.Shares := by
  cases recipient <;> rfl

theorem shares_givePermit (h : db.Shares) : db.givePermit.Shares := by
  rw [givePermit]
  split
  · exact h
  · exact h

theorem shares_takePermit (h : db.Shares) (id : Nat) : (db.takePermit id).Shares := by
  rw [takePermit]
  split
  · exact h
  · exact h

theorem shares_cancel (h : db.Shares) (id : Nat) : (db.cancel id).1.Shares := by
  rw [cancel]
  split
  · exact h
  · exact h

theorem shares_cancelRunning (h : db.Shares) (running : Option Nat) :
    (db.cancelRunning running).Shares := by
  cases running with
  | none => exact h
  | some run => exact shares_cancel h run

theorem shares_endSubscription (h : db.Shares) (token : Option Token) :
    (db.endSubscription token).Shares := by
  cases token with
  | none => exact h
  | some token => exact Sharing.of_views h rfl rfl

/-- A query over an index that is there can be run. -/
theorem register_eq (h : db.Shares) {id : Nat} {query : Query} {index : Descriptor}
    (hquery : db.queries[id]? = some query) (hdisposed : query.disposed = false)
    (hindex : query.index = some index) (hthere : db.store.hasIndex index.id) :
    ∃ temporaries,
      db.register id = ({ db with temporaries := temporaries }, .ok query.temporary) := by
  simp only [register, hquery, hdisposed, Bool.false_eq_true, if_false]
  cases hshare : query.temporary with
  | none => exact ⟨db.temporaries, rfl⟩
  | some temporary =>
    obtain ⟨record, hrecord, hindexed⟩ :=
      h.index query (List.mem_of_getElem? hquery) temporary hshare
    have hkept : record.deleted = false := by
      by_contra hdeleted
      have hgone := h.gone temporary record hrecord (by simpa using hdeleted)
      rw [hindex, Option.some.injEq] at hindexed
      rw [← hindexed, hthere] at hgone
      cases hgone
    have hshared : 0 < sharers db.queries temporary :=
      List.countP_pos_iff.2 ⟨query, List.mem_of_getElem? hquery, by simp [hshare]⟩
    have howned : 0 < record.owners :=
      Nat.lt_of_lt_of_le hshared (h.held temporary record hrecord hkept)
    have halive : record.isGone = false := by
      rw [Temporary.isGone, hkept, Bool.false_or, beq_eq_false_iff_ne]
      exact Nat.ne_of_gt howned
    simp only [beginScan, onTemporary, hrecord, Temporary.beginScan, halive, Bool.false_eq_true,
      if_false]
    exact ⟨_, rfl⟩

theorem shares_create {config : Config} {least : Severity} {numbered : Nat} {client : σ}
    (hcreate : Database.create config least numbered client = .ok db) : db.Shares := by
  rw [Database.create] at hcreate
  split at hcreate
  · cases hcreate
  · cases hcreate
    constructor
    · intro id record hrecord
      cases hrecord
    · intro id record hrecord
      cases hrecord
    · intro id record hrecord
      cases hrecord
    · intro query hquery
      cases hquery

end Viewbase.Database
