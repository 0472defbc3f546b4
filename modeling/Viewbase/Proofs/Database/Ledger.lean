import Mathlib.Data.List.Basic
import Viewbase.Proofs.Database.Course
import Viewbase.Proofs.Store.Housing

/-!
The ledger of temporary indexes.

If every share and every registered scan is accounted for, the record of a temporary index is in
order: its index is there as long as one of either is left, and its deletion is counted (`Ledger`).
An operation on a record keeps the ledger if the accounts change with it.
-/

namespace Viewbase

namespace Temporary

/-- The record is as so many shares and registered scans leave it. -/
structure InOrder (t : Temporary) (shares guards : Nat) : Prop where
  owners : t.owners = shares
  inFlight : t.inFlight = guards
  deleted : t.deleted = true ↔ shares = 0 ∧ guards = 0
  idle : t.deleteWhenIdle = true ↔ shares = 0 ∧ 0 < guards

/-- The record is of the same index, and what was deleted stays so. -/
def Goes (t t' : Temporary) : Prop :=
  t'.index = t.index ∧ (t.deleted = true → t'.deleted = true)

theorem inOrder_new (index : Descriptor) : (new index).InOrder 1 0 where
  owners := rfl
  inFlight := rfl
  deleted := by simp [new]
  idle := by simp [new]

variable {t : Temporary} {shares guards : Nat}

theorem InOrder.isGone (h : t.InOrder shares guards) (hshares : 0 < shares) : t.isGone = false := by
  have hdeleted : t.deleted = false := by
    rw [← Bool.not_eq_true, h.deleted]
    omega
  rw [Temporary.isGone, hdeleted, h.owners, Bool.false_or, beq_eq_false_iff_ne]
  omega

theorem Goes.refl (t : Temporary) : t.Goes t :=
  ⟨rfl, fun h => h⟩

theorem Goes.trans {t t' t'' : Temporary} (h : t.Goes t') (h' : t'.Goes t'') : t.Goes t'' :=
  ⟨h'.1.trans h.1, fun hdeleted => h'.2 (h.2 hdeleted)⟩

end Temporary

/-- The records have gone on from earlier ones; so many indexes were deleted at most. -/
structure Turn (n : Nat) (earlier records : List Temporary) : Prop where
  goes : Follows Temporary.Goes earlier records
  deleted : records.countP Temporary.deleted ≤ earlier.countP Temporary.deleted + n

/-- The records of temporary indexes agree with the accounts of shares and registered scans, and
with the store. -/
structure Ledger (store : Store) (records : List Temporary) (deletions : Nat)
    (shares guards : Nat → Nat) : Prop where
  order : ∀ (id : Nat) (record : Temporary), records[id]? = some record →
    record.InOrder (shares id) (guards id)
  beyond : ∀ id, records.length ≤ id → shares id = 0 ∧ guards id = 0
  houses : store.Houses (records.map fun record => record.index.id)
  there : ∀ record ∈ records, store.hasIndex record.index.id = !record.deleted
  deletions : deletions = records.countP Temporary.deleted

/-- What an operation on the record of a temporary index makes of a database. -/
inductive Enters {σ : Type} (db : Database σ) (id : Nat) (record record' : Temporary) :
    Database σ → Prop where
  | kept (journal : Journal) (hkept : record'.deleted = record.deleted) :
      Enters db id record record'
        { db with temporaries := db.temporaries.set id record', journal := journal }
  | deleted (journal : Journal) {store : Store} (hkept : record.deleted = false)
      (hdeleted : record'.deleted = true)
      (hstore : db.store.deleteIndex record.index = .ok store) :
      Enters db id record record'
        { db with
          store := store
          temporaries := db.temporaries.set id record'
          metrics := { db.metrics with
            temporariesDeleted := db.metrics.temporariesDeleted + 1 }
          journal := journal }

section Ledger

variable {σ : Type} {db db' : Database σ} {id n : Nat} {record record' : Temporary}
  {shares guards shares' guards' : Nat → Nat} {earlier records : List Temporary}
  {store store' : Store}

/-! ## Turns -/

theorem Turn.refl (records : List Temporary) : Turn 0 records records :=
  ⟨.of_eq Temporary.Goes.refl rfl, Nat.le_refl _⟩

theorem Turn.mono (h : Turn n earlier records) {m : Nat} (hle : n ≤ m) : Turn m earlier records :=
  ⟨h.goes, Nat.le_trans h.deleted (Nat.add_le_add_left hle _)⟩

theorem getElem?_set_of_some (hrecord : records[id]? = some record) (record' : Temporary)
    (other : Nat) : (records.set id record')[other]? =
      if other = id then some record' else records[other]? := by
  rw [List.set_eq_modify]
  exact Database.getElem?_modify_of_some hrecord (fun _ => record') other

theorem eq_or_of_set (hrecord : records[id]? = some record) {other : Nat} {found : Temporary}
    (hfound : (records.set id record')[other]? = some found) :
    (other = id ∧ found = record') ∨ (other ≠ id ∧ records[other]? = some found) := by
  rw [getElem?_set_of_some hrecord] at hfound
  split at hfound
  next heq => exact .inl ⟨heq, (Option.some.inj hfound).symm⟩
  next hne => exact .inr ⟨hne, hfound⟩

theorem countP_set (hrecord : records[id]? = some record) (record' : Temporary)
    (p : Temporary → Bool) : (records.set id record').countP p + (if p record then 1 else 0) =
      records.countP p + if p record' then 1 else 0 := by
  rw [List.set_eq_modify]
  exact Database.countP_modify hrecord (fun _ => record') p

theorem Turn.set (h : Turn n earlier records) (hrecord : records[id]? = some record)
    (hgoes : record.Goes record') : Turn (n + 1) earlier (records.set id record') where
  goes := by
    refine h.goes.trans Temporary.Goes.trans fun other old hold => ?_
    rw [getElem?_set_of_some hrecord]
    split
    next heq =>
      subst heq
      rw [hrecord] at hold
      cases hold
      exact ⟨record', rfl, hgoes⟩
    next => exact ⟨old, hold, .refl old⟩
  deleted := by
    have hcount := countP_set hrecord record' Temporary.deleted
    have hle := h.deleted
    split at hcount <;> split at hcount <;> omega

theorem Turn.set_kept (h : Turn n earlier records) (hrecord : records[id]? = some record)
    (hindex : record'.index = record.index) (hkept : record'.deleted = record.deleted) :
    Turn n earlier (records.set id record') where
  goes := (h.set hrecord ⟨hindex, fun hdeleted => hkept.trans hdeleted⟩).goes
  deleted := by
    have hcount := countP_set hrecord record' Temporary.deleted
    rw [hkept] at hcount
    have hle := h.deleted
    omega

theorem Turn.push (h : Turn n earlier records) (index : Descriptor) :
    Turn n earlier (records ++ [Temporary.new index]) where
  goes := h.goes.trans Temporary.Goes.trans (.push Temporary.Goes.refl records _)
  deleted := by
    have hle := h.deleted
    simpa [Temporary.new] using hle

/-! ## Entries -/

theorem Enters.goes (h : Enters db id record record' db') (hindex : record'.index = record.index) :
    record.Goes record' := by
  refine ⟨hindex, fun hdeleted => ?_⟩
  cases h with
  | kept journal hkept => exact hkept.trans hdeleted
  | deleted journal hkept hnow => exact hnow

theorem Enters.temporaries (h : Enters db id record record' db') :
    db'.temporaries = db.temporaries.set id record' := by
  cases h <;> rfl

theorem Enters.numbered (h : Enters db id record record' db') :
    db.store.numbered ≤ db'.store.numbered := by
  cases h with
  | kept journal hkept => exact Nat.le_refl _
  | deleted journal hkept hdeleted hstore => exact (Store.later_deleteIndex hstore).numbered

theorem map_index_set {α : Type} (hrecord : records[id]? = some record)
    (hindex : record'.index = record.index) (f : Descriptor → α) :
    (records.set id record').map (fun record => f record.index) =
      records.map fun record => f record.index := by
  apply List.ext_getElem?
  intro other
  rw [List.getElem?_map, List.getElem?_map, getElem?_set_of_some hrecord]
  split
  next heq => rw [heq, hrecord, Option.map_some, Option.map_some, hindex]
  next => rfl

/-- Records whose indexes have identities of their own are told apart by them. -/
theorem eq_of_index_id (hdistinct : (records.map fun record => record.index.id).Nodup) {other : Nat}
    {found : Temporary} (hrecord : records[id]? = some record)
    (hfound : records[other]? = some found) (hsame : found.index.id = record.index.id) :
    other = id := by
  have hlt := (List.getElem?_eq_some_iff.1 hfound).1
  refine (List.getElem?_inj (by simpa using hlt) hdistinct).1 ?_
  rw [List.getElem?_map, List.getElem?_map, hrecord, hfound]
  exact congrArg some hsame

/-- Temporary indexes have identities of their own. -/
theorem Ledger.distinct {deletions : Nat} (h : Ledger store records deletions shares guards)
    {other : Nat} {found : Temporary} (hrecord : records[id]? = some record)
    (hfound : records[other]? = some found) (hsame : found.index.id = record.index.id) :
    other = id :=
  eq_of_index_id h.houses.distinct hrecord hfound hsame

/-- The accounts change with the record. -/
theorem Ledger.enter
    (h : Ledger db.store db.temporaries db.metrics.temporariesDeleted shares guards)
    (hrecord : db.temporaries[id]? = some record) (hindex : record'.index = record.index)
    (henters : Enters db id record record' db')
    (horder : record'.InOrder (shares' id) (guards' id))
    (hothers : ∀ other, other ≠ id → shares' other = shares other ∧ guards' other = guards other) :
    Ledger db'.store db'.temporaries db'.metrics.temporariesDeleted shares' guards' := by
  have horders : ∀ (other : Nat) (found : Temporary),
      (db.temporaries.set id record')[other]? = some found →
        found.InOrder (shares' other) (guards' other) := by
    intro other found hfound
    rcases eq_or_of_set hrecord hfound with ⟨rfl, rfl⟩ | ⟨hne, hold⟩
    · exact horder
    · obtain ⟨hshares, hguards⟩ := hothers other hne
      rw [hshares, hguards]
      exact h.order other found hold
  have hbeyond : ∀ other, (db.temporaries.set id record').length ≤ other →
      shares' other = 0 ∧ guards' other = 0 := by
    intro other hle
    rw [List.length_set] at hle
    have hlt := (List.getElem?_eq_some_iff.1 hrecord).1
    obtain ⟨hshares, hguards⟩ := hothers other (by omega)
    rw [hshares, hguards]
    exact h.beyond other hle
  have hids := map_index_set hrecord hindex Descriptor.id
  have hcount := countP_set hrecord record' Temporary.deleted
  have hdeletions := h.deletions
  cases henters with
  | kept journal hkept =>
    refine ⟨horders, hbeyond, hids ▸ h.houses, fun found hmem => ?_, ?_⟩
    · obtain ⟨other, hfound⟩ := List.mem_iff_getElem?.1 hmem
      rcases eq_or_of_set hrecord hfound with ⟨rfl, rfl⟩ | ⟨-, hold⟩
      · rw [hindex, hkept]
        exact h.there record (List.mem_of_getElem? hrecord)
      · exact h.there found (List.mem_of_getElem? hold)
    · rw [hkept] at hcount
      show db.metrics.temporariesDeleted = (db.temporaries.set id record').countP _
      omega
  | @deleted journal store hkept hdeleted hstore =>
    obtain ⟨hhouses, hthere⟩ := h.houses.deleteIndex hstore
    refine ⟨horders, hbeyond, hids ▸ hhouses, fun found hmem => ?_, ?_⟩
    · obtain ⟨other, hfound⟩ := List.mem_iff_getElem?.1 hmem
      rcases eq_or_of_set hrecord hfound with ⟨rfl, rfl⟩ | ⟨hne, hold⟩
      · rw [hindex, hdeleted]
        exact Database.hasIndex_deleteIndex hstore
      · refine (hthere _ fun hsame => hne (h.distinct hrecord hold hsame)).trans ?_
        exact h.there found (List.mem_of_getElem? hold)
    · rw [hkept, hdeleted] at hcount
      show db.metrics.temporariesDeleted + 1 = (db.temporaries.set id record').countP _
      simp only [Bool.false_eq_true, if_false, if_true] at hcount
      omega

/-! ## Operations -/

/-- Nobody is subscribed to the index. -/
def Store.Unheard (store : Store) (id : IndexId) : Prop :=
  ∀ sub ∈ store.subscriptions, sub.index ≠ id

/-- An index that is there and that nobody is subscribed to is deleted when that is asked for. -/
theorem deleteIndex_of_unheard {index : Descriptor} (hthere : store.hasIndex index.id = true)
    (hunheard : store.Unheard index.id) : ∃ store', store.deleteIndex index = .ok store' := by
  have hany : (store.subscriptions.any fun sub => decide (sub.index = index.id)) = false := by
    simpa [List.any_eq_false, Store.Unheard] using hunheard
  rw [Store.deleteIndex, hthere, hany]
  exact ⟨_, rfl⟩

namespace Database

variable {shares guards : Nat}

theorem enters_acquireOwner (hrecord : db.temporaries[id]? = some record)
    (horder : record.InOrder shares guards) (hshares : 0 < shares) :
    (db.acquireOwner id).2 = .ok () ∧ ∃ record',
      Enters db id record record' (db.acquireOwner id).1 ∧ record'.index = record.index ∧
        record'.InOrder (shares + 1) guards := by
  have hthere := horder.isGone hshares
  simp only [acquireOwner, onTemporary, hrecord, Temporary.acquireOwner, hthere,
    Bool.false_eq_true, if_false]
  exact ⟨trivial, { record with owners := record.owners + 1 }, .kept db.journal rfl, rfl,
    congrArg (· + 1) horder.owners, horder.inFlight, horder.deleted.trans (by omega),
    horder.idle.trans (by omega)⟩

theorem enters_beginScan (hrecord : db.temporaries[id]? = some record)
    (horder : record.InOrder shares guards) (hshares : 0 < shares) :
    (db.beginScan id).2 = .ok () ∧ ∃ record', Enters db id record record' (db.beginScan id).1 ∧
      record'.index = record.index ∧ record'.InOrder shares (guards + 1) := by
  have hthere := horder.isGone hshares
  simp only [beginScan, onTemporary, hrecord, Temporary.beginScan, hthere, Bool.false_eq_true,
    if_false]
  exact ⟨trivial, { record with inFlight := record.inFlight + 1 }, .kept db.journal rfl, rfl,
    horder.owners, congrArg (· + 1) horder.inFlight, horder.deleted.trans (by omega),
    horder.idle.trans (by omega)⟩

/-- The store deletes the index of a record that nobody is subscribed to. -/
theorem deleteIndex_of_inOrder (horder : record.InOrder shares guards)
    (hleft : 0 < shares ∨ 0 < guards)
    (hthere : db.store.hasIndex record.index.id = !record.deleted)
    (hunheard : db.store.Unheard record.index.id) :
    record.deleted = false ∧ ∃ store, db.store.deleteIndex record.index = .ok store ∧
      ∀ db' : Database σ, db'.store = db.store →
        deleteIndex (.silent σ) record.index db' = ({ db' with store := store }, .ok ()) := by
  have hkept : record.deleted = false := by
    rw [← Bool.not_eq_true, horder.deleted]
    omega
  rw [hkept] at hthere
  obtain ⟨store, hstore⟩ := deleteIndex_of_unheard hthere hunheard
  refine ⟨hkept, store, hstore, fun db' heq => ?_⟩
  simp only [deleteIndex, Client.silent, heq, hstore]

theorem enters_releaseDeferred (hrecord : db.temporaries[id]? = some record)
    (horder : record.InOrder (shares + 1) guards)
    (hthere : db.store.hasIndex record.index.id = !record.deleted)
    (hunheard : shares = 0 → guards = 0 → db.store.Unheard record.index.id) :
    ∃ record', Enters db id record record' (db.releaseDeferred (.silent σ) id) ∧
      record'.index = record.index ∧ record'.InOrder shares guards := by
  have howners := horder.owners
  have hflight := horder.inFlight
  have hkept : record.deleted = false := by
    rw [← Bool.not_eq_true, horder.deleted]
    omega
  have hidle : record.deleteWhenIdle = false := by
    rw [← Bool.not_eq_true, horder.idle]
    omega
  simp only [releaseDeferred, onTemporary, hrecord, Temporary.releaseDeferred]
  rw [if_neg (by omega)]
  by_cases hshares : shares = 0
  · rw [if_neg (by simp [howners, hshares, hkept])]
    by_cases hguards : guards = 0
    · obtain ⟨-, store, hstore, hdelete⟩ :=
        deleteIndex_of_inOrder horder (.inl (by omega)) hthere (hunheard hshares hguards)
      rw [if_neg (by omega)]
      simp only [Temporary.deleteQuietly, Temporary.deleteNow, hdelete db rfl]
      exact ⟨{ record with owners := record.owners - 1, deleted := true },
        .deleted _ hkept rfl hstore, rfl, by simp [howners], hflight,
        iff_of_true rfl ⟨hshares, hguards⟩, horder.idle.trans (by omega)⟩
    · rw [if_pos (by omega)]
      exact ⟨{ record with owners := record.owners - 1, deleteWhenIdle := true }, .kept _ rfl, rfl,
        by simp [howners], hflight, horder.deleted.trans (by omega),
        iff_of_true rfl ⟨hshares, Nat.pos_of_ne_zero hguards⟩⟩
  · rw [if_pos (.inl (by omega))]
    exact ⟨{ record with owners := record.owners - 1 }, .kept _ rfl, rfl, by simp [howners],
      hflight, horder.deleted.trans (by omega), horder.idle.trans (by omega)⟩

theorem enters_releaseOwner (hrecord : db.temporaries[id]? = some record)
    (horder : record.InOrder (shares + 1) guards)
    (hthere : db.store.hasIndex record.index.id = !record.deleted)
    (hunheard : shares = 0 → guards = 0 → db.store.Unheard record.index.id) :
    ∃ record', Enters db id record record' (db.releaseOwner (.silent σ) id).1 ∧
      record'.index = record.index ∧
        (((db.releaseOwner (.silent σ) id).2 = .ok () ∧ record'.InOrder shares guards) ∨
          ((∃ error, (db.releaseOwner (.silent σ) id).2 = .error error) ∧
            record'.deleted = record.deleted ∧ record'.InOrder (shares + 1) guards)) := by
  have howners := horder.owners
  have hflight := horder.inFlight
  have hthere' := horder.isGone (Nat.succ_pos shares)
  simp only [releaseOwner, onTemporary, hrecord, Temporary.releaseOwner, hthere',
    Bool.false_eq_true, if_false]
  by_cases hshares : shares = 0
  · by_cases hguards : guards = 0
    · obtain ⟨hkept, store, hstore, hdelete⟩ :=
        deleteIndex_of_inOrder horder (.inl (by omega)) hthere (hunheard hshares hguards)
      rw [if_neg (by omega), if_pos (by omega)]
      simp only [Temporary.deleteNow, hdelete db rfl]
      exact ⟨{ record with owners := 0, deleted := true }, .deleted _ hkept rfl hstore, rfl,
        .inl ⟨trivial, hshares.symm, hflight, iff_of_true rfl ⟨hshares, hguards⟩,
          horder.idle.trans (by omega)⟩⟩
    · rw [if_pos (by omega)]
      exact ⟨record, .kept _ rfl, rfl, .inr ⟨⟨_, rfl⟩, rfl, horder⟩⟩
  · rw [if_neg (by omega), if_neg (by omega)]
    exact ⟨{ record with owners := record.owners - 1 }, .kept _ rfl, rfl,
      .inl ⟨rfl, by simp [howners], hflight, horder.deleted.trans (by omega),
        horder.idle.trans (by omega)⟩⟩

theorem enters_endScan (hrecord : db.temporaries[id]? = some record)
    (horder : record.InOrder shares (guards + 1))
    (hthere : db.store.hasIndex record.index.id = !record.deleted)
    (hunheard : shares = 0 → guards = 0 → db.store.Unheard record.index.id) :
    ∃ record', Enters db id record record' (db.endScan (.silent σ) id) ∧
      record'.index = record.index ∧ record'.InOrder shares guards := by
  have hflight := horder.inFlight
  have hkept : record.deleted = false := by
    rw [← Bool.not_eq_true, horder.deleted]
    omega
  simp only [endScan, onTemporary, hrecord, Temporary.endScan]
  by_cases hlast : shares = 0 ∧ guards = 0
  · obtain ⟨-, store, hstore, hdelete⟩ :=
      deleteIndex_of_inOrder horder (.inr (by omega)) hthere (hunheard hlast.1 hlast.2)
    have hidle : record.deleteWhenIdle = true := horder.idle.2 (by omega)
    rw [if_pos ⟨by omega, hidle, by simp [hkept]⟩]
    simp only [Temporary.deleteQuietly, Temporary.deleteNow, hdelete db rfl]
    exact ⟨{ record with
        inFlight := record.inFlight - 1, deleteWhenIdle := false, deleted := true },
      .deleted _ hkept rfl hstore, rfl, horder.owners, by simp [hflight], iff_of_true rfl hlast,
      iff_of_false Bool.false_ne_true (by omega)⟩
  · have hnotlast : ¬(record.inFlight - 1 = 0 ∧ record.deleteWhenIdle = true ∧
        ¬record.deleted = true) := by
      rw [horder.idle]
      omega
    rw [if_neg hnotlast]
    exact ⟨{ record with inFlight := record.inFlight - 1 }, .kept _ rfl, rfl, horder.owners,
      by simp [hflight], horder.deleted.trans (by omega), horder.idle.trans (by omega)⟩

end Database

end Ledger

end Viewbase
