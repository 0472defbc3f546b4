import Viewbase.Proofs.Database.Keeping

/-!
Refusals leave nothing behind.

What is asked for on behalf of a temporary index, or of a query over one, may be refused: the index is
gone, a scan of it is registered, or the store does not delete it.  Then nothing has changed but the
journal (`unscathed_of_refused`).  So a query that could not be given up because of scans is given up
without more ado once they have ended, and its index goes with it, unless somebody had taken that away
past its record (`Custody.Reached.refused_without_trace`).
-/

namespace Viewbase

open Relation

namespace Database

variable {σ : Type} {c : Client σ} {db db' : Database σ} {record : Temporary} {id : Nat}
  {error : QueryError}

/-! ## What may be refused -/

/-- What can be asked for on behalf of a temporary index, or of a query over one. -/
inductive Errand where
  | acquireOwner (temporary : Nat)
  | releaseOwner (temporary : Nat)
  | deleteTemporary (temporary : Nat)
  | beginScan (temporary : Nat)
  | copyQuery (query : Nat)
  | makeLive (query : Nat)
  | disposeQuery (query : Nat)

/-- Carry an errand out; the reply tells whether it was refused. -/
def carryOut (c : Client σ) (db : Database σ) : Errand → Database σ × Except QueryError Unit
  | .acquireOwner temporary => db.acquireOwner temporary
  | .releaseOwner temporary => db.releaseOwner c temporary
  | .deleteTemporary temporary => db.deleteTemporary c temporary
  | .beginScan temporary => db.beginScan temporary
  | .copyQuery query => ((db.copyQuery query).1, (db.copyQuery query).2.map fun _ => ())
  | .makeLive query => ((db.makeLive query).1, (db.makeLive query).2.map fun _ => ())
  | .disposeQuery query => db.dispose c query

/-- Something was recorded in the journal at most. -/
def Unscathed (db db' : Database σ) : Prop :=
  ∃ journal, db' = { db with journal := journal }

theorem Unscathed.refl (db : Database σ) : db.Unscathed db :=
  ⟨db.journal, rfl⟩

/-! ## Refused operations on a record -/

/-- The operation has left the record and the database as they are, and tells of a misuse at most. -/
structure Rebuffed (db : Database σ) (record : Temporary) (step : Temporary.Step (Database σ)) :
    Prop where
  record : step.record = record
  world : step.world = db
  notes : ∀ note ∈ step.notes, ∃ error, note = .violation error

theorem rebuffed_refuse (record : Temporary) (db : Database σ) (cause : Violation) :
    Rebuffed db record (record.refuse db cause) :=
  ⟨rfl, rfl, fun _ hnote => ⟨_, List.mem_singleton.1 hnote⟩⟩

theorem rebuffed_acquireOwner (h : (record.acquireOwner db).reply = .error error) :
    Rebuffed db record (record.acquireOwner db) := by
  rw [Temporary.acquireOwner] at h ⊢
  split at h
  next hgone =>
    rw [if_pos hgone]
    exact rebuffed_refuse record db _
  next => cases h

theorem rebuffed_beginScan (h : (record.beginScan db).reply = .error error) :
    Rebuffed db record (record.beginScan db) := by
  rw [Temporary.beginScan] at h ⊢
  split at h
  next hgone =>
    rw [if_pos hgone]
    exact ⟨rfl, rfl, List.forall_mem_nil _⟩
  next => cases h

/-- Whatever the store refuses is left as it is. -/
theorem rebuffed_deleteNow (hc : c.Passive)
    (h : (record.deleteNow (deleteIndex c) db).reply = .error error) :
    Rebuffed db record (record.deleteNow (deleteIndex c) db) := by
  rw [Temporary.deleteNow] at h ⊢
  rcases deleteIndex_passive hc record.index db with ⟨refusal, heq⟩ | ⟨store, -, heq⟩
  · rw [heq]
    refine ⟨rfl, rfl, fun note hnote => ?_⟩
    dsimp only at hnote
    split at hnote
    · exact ⟨_, List.mem_singleton.1 hnote⟩
    · cases hnote
  · rw [heq] at h
    cases h

/-- The last share is taken back if the store refuses to delete the index. -/
theorem rebuffed_releaseOwner (hc : c.Passive)
    (h : (record.releaseOwner (deleteIndex c) db).reply = .error error) :
    Rebuffed db record (record.releaseOwner (deleteIndex c) db) := by
  rw [Temporary.releaseOwner] at h ⊢
  split
  · exact rebuffed_refuse record db _
  next hthere =>
    rw [if_neg hthere] at h
    split
    · exact rebuffed_refuse record db _
    next hfree =>
      rw [if_neg hfree] at h
      split
      next hlast =>
        rw [if_pos hlast] at h
        dsimp only at h ⊢
        split at h
        next hreply =>
          rw [hreply] at h
          cases h
        next refusal hreply =>
          have hdeleted := rebuffed_deleteNow hc hreply
          rw [hreply]
          refine ⟨?_, hdeleted.world, hdeleted.notes⟩
          rw [hdeleted.record, ← hlast]
      next hmore =>
        rw [if_neg hmore] at h
        cases h

theorem rebuffed_deleteTemporary (hc : c.Passive)
    (h : (record.deleteIndex (deleteIndex c) db).reply = .error error) :
    Rebuffed db record (record.deleteIndex (deleteIndex c) db) := by
  rw [Temporary.deleteIndex] at h ⊢
  split
  · exact rebuffed_refuse record db _
  next hthere =>
    rw [if_neg hthere] at h
    split
    · exact rebuffed_refuse record db _
    next hfree =>
      rw [if_neg hfree] at h
      dsimp only at h ⊢
      split at h
      next hreply =>
        rw [hreply] at h
        cases h
      next refusal hreply => exact rebuffed_deleteNow hc hreply

/-- A misuse that is told of is recorded and not counted. -/
theorem unscathed_tellAll (index : Descriptor) {notes : List Temporary.Note}
    (hnotes : ∀ note ∈ notes, ∃ error, note = .violation error) (db : Database σ) :
    db.Unscathed (notes.foldl (tell index) db) := by
  induction notes generalizing db with
  | nil => exact .refl db
  | cons note notes ih =>
    obtain ⟨error, rfl⟩ := hnotes note (List.mem_cons_self ..)
    obtain ⟨journal, heq⟩ := ih (fun other hother => hnotes other (List.mem_cons_of_mem _ hother))
      (tell index db (.violation error))
    exact ⟨journal, heq⟩

theorem unscathed_onTemporary
    {operation : Temporary → Database σ → Temporary.Step (Database σ)}
    (hrebuffed : ∀ record, (operation record db).reply = .error error →
      Rebuffed db record (operation record db))
    (h : (onTemporary id operation db).2 = .error error) :
    db.Unscathed (onTemporary id operation db).1 := by
  cases hrecord : db.temporaries[id]? with
  | none =>
    simp only [onTemporary, hrecord]
    exact .refl db
  | some record =>
    simp only [onTemporary, hrecord] at h ⊢
    obtain ⟨hsame, hworld, hnotes⟩ := hrebuffed record h
    have hset : db.temporaries.set id record = db.temporaries := by
      refine List.ext_getElem? fun other => ?_
      rw [getElem?_set_of_some hrecord]
      split
      next heq => rw [heq, hrecord]
      next => rfl
    obtain ⟨journal, heq⟩ := unscathed_tellAll record.index hnotes db
    refine ⟨journal, ?_⟩
    rw [hworld, hsame, hset]
    exact heq

/-! ## Refused errands -/

theorem unscathed_copyQuery {query : Nat} (h : (db.copyQuery query).2 = .error error) :
    db.Unscathed (db.copyQuery query).1 := by
  have hshared : ∀ asked : Query, (db.shareTemporary asked).2 = .error error →
      db.Unscathed (db.shareTemporary asked).1 := by
    intro asked hrefused
    rw [shareTemporary] at hrefused ⊢
    split at hrefused
    · exact unscathed_onTemporary (fun _ => rebuffed_acquireOwner) hrefused
    · cases hrefused
  rw [copyQuery] at h ⊢
  split
  · exact .refl db
  next asked hasked =>
    simp only [hasked] at h
    split
    · exact .refl db
    next hkept =>
      rw [if_neg hkept] at h
      split at h
      next shared refusal heq =>
        cases h
        have hrefused := hshared asked (congrArg Prod.snd heq)
        rwa [heq] at hrefused
      next => cases h

theorem unscathed_makeLive {query : Nat} (h : (db.makeLive query).2 = .error error) :
    db.Unscathed (db.makeLive query).1 := by
  rw [makeLive] at h ⊢
  split
  · exact .refl db
  next index hindex =>
    simp only [hindex] at h
    split at h
    next copied refusal heq =>
      cases h
      have hcopied : db.Unscathed (db.copyQuery query).1 :=
        unscathed_copyQuery (congrArg Prod.snd heq)
      rwa [heq] at hcopied
    next => cases h

theorem unscathed_dispose (hc : c.Passive) {query : Nat}
    (h : (db.dispose c query).2 = .error error) : db.Unscathed (db.dispose c query).1 := by
  rw [dispose] at h ⊢
  split
  · exact .refl db
  next asked hasked =>
    simp only [hasked] at h
    split
    · exact .refl db
    next hkept =>
      rw [if_neg hkept] at h
      split
      next hnone =>
        simp only [hnone] at h
        cases h
      next temporary hshare =>
        simp only [hshare] at h
        split at h
        next released refusal heq =>
          cases h
          have hreleased : db.Unscathed (db.releaseOwner c temporary).1 :=
            unscathed_onTemporary (fun _ => rebuffed_releaseOwner hc) (congrArg Prod.snd heq)
          rwa [heq] at hreleased
        next => cases h

/-- An errand that is refused leaves everything as it was but for the journal. -/
theorem unscathed_of_refused (hc : c.Passive) {errand : Errand}
    (h : (db.carryOut c errand).2 = .error error) : db.Unscathed (db.carryOut c errand).1 := by
  have hunmapped : ∀ {reply : Except QueryError Nat}, (reply.map fun _ => ()) = .error error →
      reply = .error error := by
    rintro (refusal | copy) hreply
    · cases hreply
      rfl
    · cases hreply
  cases errand with
  | acquireOwner temporary => exact unscathed_onTemporary (fun _ => rebuffed_acquireOwner) h
  | releaseOwner temporary => exact unscathed_onTemporary (fun _ => rebuffed_releaseOwner hc) h
  | deleteTemporary temporary =>
    exact unscathed_onTemporary (fun _ => rebuffed_deleteTemporary hc) h
  | beginScan temporary => exact unscathed_onTemporary (fun _ => rebuffed_beginScan) h
  | copyQuery query => exact unscathed_copyQuery (hunmapped h)
  | makeLive query => exact unscathed_makeLive (hunmapped h)
  | disposeQuery query => exact unscathed_dispose hc h

/-! ## Giving a query up once scans have ended -/

/-- A query that cannot be given up while scans are registered holds the last share of an index that
is not marked as deleted. -/
theorem last_share_of_inUse {query temporary : Nat} {asked : Query} {index : IndexId}
    (hquery : db.queries[query]? = some asked) (hshare : asked.temporary = some temporary)
    (hbusy : 0 < db.inFlight temporary)
    (hrefused : (db.dispose c query).2 = .error (.lifecycle (.inUse index))) :
    asked.disposed = false ∧ ∃ record, db.temporaries[temporary]? = some record ∧
      record.index.id = index ∧ record.owners = 1 ∧ record.deleted = false := by
  simp only [dispose, hquery, hshare] at hrefused
  split at hrefused
  · rw [disposeAgain] at hrefused
    split at hrefused
    · split at hrefused <;> cases hrefused
    · cases hrefused
  next hkept =>
    refine ⟨Bool.not_eq_true _ ▸ hkept, ?_⟩
    cases hrecord : db.temporaries[temporary]? with
    | none => simp [inFlight, hrecord] at hbusy
    | some record =>
      rw [inFlight_of_getElem? hrecord] at hbusy
      refine ⟨record, rfl, ?_⟩
      have hreply : (record.releaseOwner (deleteIndex c) db).reply =
          .error (.lifecycle (.inUse index)) := by
        simp only [releaseOwner, onTemporary, hrecord] at hrefused
        split at hrefused
        next heq =>
          cases hrefused
          exact congrArg Prod.snd heq
        next => cases hrefused
      rw [Temporary.releaseOwner] at hreply
      split at hreply
      · cases hreply
      next hthere =>
        split at hreply
        next hlast =>
          cases hreply
          exact ⟨rfl, hlast.1, by simp_all [Temporary.isGone]⟩
        next hmore =>
          rw [if_neg fun hlast => hmore ⟨hlast, hbusy⟩] at hreply
          cases hreply

/-- The query was given up, and the index of its share went with it. -/
structure GivenUp (db : Database σ) (query temporary : Nat) (index : IndexId) : Prop where
  query : ∃ asked, db.queries[query]? = some asked ∧ asked.disposed = true ∧ asked.temporary = none
  record : ∃ record, db.temporaries[temporary]? = some record ∧ record.index.id = index ∧
    record.owners = 0 ∧ record.inFlight = 0 ∧ record.deleted = true
  gone : db.store.hasIndex index = false

/-- The last share of an index that the store deletes is given up. -/
theorem dispose_last {query temporary : Nat} {asked : Query} {store : Store}
    (hquery : db.queries[query]? = some asked) (hkept : asked.disposed = false)
    (hshare : asked.temporary = some temporary)
    (hrecord : db.temporaries[temporary]? = some record) (hlast : record.owners = 1)
    (hfree : record.inFlight = 0) (hthere : record.deleted = false)
    (hstore : db.store.deleteIndex record.index = .ok store) :
    (db.dispose (.silent σ) query).2 = .ok () ∧
      (db.dispose (.silent σ) query).1.GivenUp query temporary record.index.id := by
  have hreleased : record.releaseOwner (deleteIndex (.silent σ)) db =
      ⟨{ record with owners := 0, deleted := true }, { db with store := store }, [.deleted],
        .ok ()⟩ := by
    simp [Temporary.releaseOwner, Temporary.isGone, Temporary.deleteNow, deleteIndex, Client.silent,
      hlast, hfree, hthere, hstore]
  have hdisposed : db.dispose (.silent σ) query =
      ((tell record.index { db with
        store := store
        temporaries := db.temporaries.set temporary { record with owners := 0, deleted := true } }
          .deleted).markDisposed query, .ok ()) := by
    simp only [dispose, hquery, hkept, hshare, releaseOwner, onTemporary, hrecord, hreleased]
    rfl
  rw [hdisposed]
  refine ⟨rfl, ⟨{ asked with temporary := none, disposed := true }, ?_, rfl, rfl⟩,
    ⟨{ record with owners := 0, deleted := true }, ?_, rfl, rfl, hfree, rfl⟩,
    hasIndex_deleteIndex hstore⟩
  · simp [markDisposed, updateQuery, tell, note, count, hquery]
  · exact (getElem?_set_of_some hrecord _ temporary).trans (if_pos rfl)

/-- Scans come to their ends: runs go on, calls are answered, registrations end.  Nothing else is
asked for but the cancellation of runs. -/
inductive Winds : Database σ → Database σ → Prop where
  | endScan {c : Client σ} (hc : c.Passive) (temporary : Nat) (db : Database σ) :
      Winds db (db.endScan c temporary)
  | scan {c : Client σ} (hc : c.Passive) (request : Request) (db : Database σ) :
      Winds db (db.scan c request).1
  | complete (query : Nat) (target : Target) (result : Except IndexError Answer)
      (db : Database σ) : Winds db (db.complete query target result).1
  | endRunScan {c : Client σ} (hc : c.Passive) (run : Nat) (db : Database σ) :
      Winds db (db.endRunScan c run)
  | go {c : Client σ} (hc : c.Passive) (run : Nat) (db : Database σ) :
      Winds db (db.go c (.run run))
  | cancel (run : Nat) (db : Database σ) : Winds db (db.cancel run).1

theorem Winds.dwindles (h : Winds db db') : Dwindles db db' := by
  cases h with
  | endScan hc temporary => exact .single (.endScan hc temporary db)
  | scan hc request => exact dwindles_scan hc request db
  | complete query target result => exact dwindles_complete query target result db
  | endRunScan hc run =>
    rw [Database.endRunScan]
    split
    · exact dwindles_scanRun hc run db
    · exact .refl
  | go hc run =>
    rw [Database.go]
    split
    · have htaken : Dwindles db { db with ready := db.ready.erase (.run run) } :=
        dwindles_of_eq rfl rfl rfl
      exact htaken.trans (dwindles_pollRun hc run _)
    · exact .refl
  | cancel run => exact dwindles_cancel run db

theorem dwindles_of_winds (h : ReflTransGen Winds db db') : Dwindles db db' := by
  induction h with
  | refl => exact .refl
  | tail _ hlast ih => exact ih.trans hlast.dwindles

/-- A query is found again but for what it has seen. -/
theorem Dwindles.exists_query (h : Dwindles db db') {query : Nat} {asked : Query}
    (hquery : db.queries[query]? = some asked) :
    ∃ asked', db'.queries[query]? = some asked' ∧ asked'.unseen = asked.unseen := by
  have hsame := congrArg (fun queries => queries[query]?) h.beside.1
  simp only [List.getElem?_map, hquery, Option.map_some] at hsame
  exact Option.map_eq_some_iff.1 hsame

end Database

namespace Custody

open Database

variable {σ : Type} {c : Client σ} {taken : List IndexId} {m : Moment σ}

/-- Whatever is refused on behalf of a temporary index or of a query over one leaves everything as it
was but for the journal.  A query that could not be given up because of scans is given up once they
have ended if nothing else was asked for; and the last share of its index was its own, so the index
goes too, unless somebody has taken it away past its record or is subscribed to it. -/
theorem Reached.refused_without_trace (h : Reached taken m) (hc : c.Passive) :
    (∀ errand error, (m.db.carryOut c errand).2 = .error error →
      m.db.Unscathed (m.db.carryOut c errand).1) ∧
    ∀ (query temporary : Nat) (asked : Query) (index : IndexId) (later : Database σ),
      m.db.queries[query]? = some asked → asked.temporary = some temporary →
      (m.db.dispose c query).2 = .error (.lifecycle (.inUse index)) →
      0 < m.db.inFlight temporary → index ∉ taken → m.db.store.Unheard index →
      ReflTransGen Winds (m.db.dispose c query).1 later → later.inFlight temporary = 0 →
        later.store.hasIndex index = true ∧ (later.dispose (.silent σ) query).2 = .ok () ∧
          (later.dispose (.silent σ) query).1.GivenUp query temporary index := by
  refine ⟨fun errand error hrefused => unscathed_of_refused hc hrefused, ?_⟩
  intro query temporary asked index later hquery hshare hrefused hbusy huntaken hunheard hwinds
    hended
  obtain ⟨hkept, record, hrecord, rfl, hlast, hthere⟩ :=
    last_share_of_inUse hquery hshare hbusy hrefused
  obtain ⟨journal, heq⟩ := unscathed_dispose hc hrefused
  rw [heq] at hwinds
  have hdwindles := dwindles_of_winds hwinds
  have hidle : record.deleteWhenIdle = false := by
    rw [← Bool.not_eq_true]
    intro hlate
    have hnone := h.kept.idle record (List.mem_of_getElem? hrecord) hlate
    omega
  -- only the count of registered scans has changed, so the next release deletes the index
  obtain ⟨inFlight, hrecord'⟩ := hdwindles.owned hrecord hidle
  obtain ⟨asked', hquery', hunseen⟩ := hdwindles.exists_query hquery
  have hcustody : later.Kept taken :=
    Kept.dwindles (show Kept taken { m.db with journal := journal } from h.kept) hdwindles
  have hindexed := hcustody.there _ (List.mem_of_getElem? hrecord') hthere huntaken
  rw [inFlight_of_getElem? hrecord'] at hended
  have hunheard' : later.store.Unheard record.index.id := by
    rw [Store.Unheard, hdwindles.beside.2]
    exact hunheard
  obtain ⟨store, hstore⟩ := deleteIndex_of_unheard hindexed hunheard'
  have hkept' := congrArg Query.disposed hunseen
  have hshare' := congrArg Query.temporary hunseen
  rw [Query.unseen_disposed, Query.unseen_disposed] at hkept'
  rw [Query.unseen_temporary, Query.unseen_temporary] at hshare'
  have hgiven := dispose_last hquery' (hkept'.trans hkept) (hshare'.trans hshare) hrecord' hlast
    hended hthere hstore
  exact ⟨hindexed, hgiven⟩

/-- A query is to be given up while a run of it scans, and the scan ends: then it is given up, and its
index is gone. -/
theorem given_up_after_scan : ∃ (m : Moment Unit) (later : Database Unit), Reached [] m ∧
    0 < m.db.inFlight 0 ∧ m.db.store.Unheard ⟨1⟩ ∧
      (m.db.dispose (.silent Unit) 0).2 = .error (.lifecycle (.inUse ⟨1⟩)) ∧
        m.db.Unscathed (m.db.dispose (.silent Unit) 0).1 ∧
          ReflTransGen Winds (m.db.dispose (.silent Unit) 0).1 later ∧ later.inFlight 0 = 0 ∧
            later.store.hasIndex ⟨1⟩ = true ∧ (later.dispose (.silent Unit) 0).2 = .ok () ∧
              (later.dispose (.silent Unit) 0).1.GivenUp 0 0 ⟨1⟩ := by
  have hsilent := Client.passive_silent Unit
  have hmade := @Reached.create Unit {} .info 0 () _ rfl
  have hqueried := hmade.step (.act hsilent (.queryMap Store.bodyById))
  have hsubmitted := hqueried.step (.act hsilent (.submit 0 .handle))
  have hrunning := hsubmitted.step (.act hsilent (.go (.run 0)))
  obtain ⟨hunscathed, hgiven⟩ := hrunning.refused_without_trace hsilent
  have hended : ∀ db : Database Unit, ReflTransGen Winds db (db.endRunScan (.silent Unit) 0) :=
    fun db => .single (.endRunScan hsilent 0 db)
  exact ⟨_, _, hrunning, by decide, List.forall_mem_nil _, rfl,
    hunscathed (.disposeQuery 0) _ rfl, hended _, rfl,
    hgiven 0 0 _ ⟨1⟩ _ rfl rfl rfl (by decide) (by decide) (List.forall_mem_nil _) (hended _) rfl⟩

/-- The index is taken away past its record while a scan of it is registered: the scan ends and the
query is still not given up. -/
theorem refused_for_good : ∃ (m : Moment Unit) (asked : Query) (later : Database Unit),
    Reached [⟨1⟩] m ∧ m.db.queries[0]? = some asked ∧ asked.temporary = some 0 ∧
      (m.db.dispose (.silent Unit) 0).2 = .error (.lifecycle (.inUse ⟨1⟩)) ∧
        0 < m.db.inFlight 0 ∧ m.db.store.Unheard ⟨1⟩ ∧
          ReflTransGen Winds (m.db.dispose (.silent Unit) 0).1 later ∧ later.inFlight 0 = 0 ∧
            (later.dispose (.silent Unit) 0).2 = .error (.lifecycle (.alreadyDeleted ⟨1⟩)) := by
  have hsilent := Client.passive_silent Unit
  have hmade := @Reached.create Unit {} .info 0 () _ rfl
  have hqueried := hmade.step (.act hsilent (.queryMap Store.bodyById))
  have hbegun := hqueried.step (.act hsilent (.beginScan 0))
  have htaken := hbegun.step (.act hsilent (.deleteIndex (.ephemeral ⟨1⟩)))
  exact ⟨_, _, _, htaken, rfl, rfl, rfl, by decide, List.forall_mem_nil _,
    .single (.endScan hsilent 0 _), rfl, rfl⟩

end Custody

end Viewbase
