import Viewbase.Proofs.Database.Upkeep

/-!
Temporary indexes and the queries that live on them.

As long as a client leaves temporary indexes to queries, each is there exactly as long as a query
over it was not given up or a scan is registered with it; and its deletion is counted at the step
that leaves neither (`Reached.accounted`).
-/

namespace Viewbase

/-! ## Moments -/

namespace Moment

variable {σ : Type} {m m' : Moment σ} {deed : Deed σ}

/-- What the accounts of temporary indexes rely on at a moment. -/
structure Steady (m : Moment σ) : Prop where
  placed : Stance.Placed ⟨m, none⟩
  attended : Stance.Attended ⟨m, none⟩
  booked : m.db.Booked

theorem Steady.does (h : m.Steady) (hdoes : m.Does deed m') : m'.Steady := by
  obtain ⟨hplaced, hattended⟩ := h.attended.moves h.placed (hdoes.step.moves h.placed.runsApart)
  exact ⟨hplaced, hattended, booked_does h.booked hdoes⟩

theorem Steady.beside (h : m.Steady) {db : Database σ} (hbeside : m.db.Beside db)
    (hshares : m.db.Shares → db.Shares) : Steady { m with db := db } := by
  obtain ⟨hplaced, hattended⟩ := h.attended.moves h.placed (Stance.moves_beside hbeside hshares)
  exact ⟨hplaced, hattended, h.booked.calm hbeside.aside.calm⟩

theorem Steady.tended (h : m.Steady) : m.db.Tended where
  booked := h.booked
  backed := by
    intro live hlive hstarted
    obtain ⟨id, hid⟩ := List.mem_iff_getElem?.1 hlive
    obtain ⟨query, hquery, hattends⟩ := h.attended.attends id live hid
    refine ⟨query, hquery, Bool.of_not_eq_true fun hdisposed => ?_, hattends.index⟩
    exact hstarted (hattends.disposed hdisposed).1
  apart := h.attended.queries
  held := by
    intro live hlive
    obtain ⟨id, hid⟩ := List.mem_iff_getElem?.1 hlive
    obtain ⟨query, -, hattends⟩ := h.attended.attends id live hid
    exact hattends.held

theorem Steady.lined (h : m.Steady) : m.db.Lined := by
  intro id hwaiting run hrun
  obtain ⟨found, hfound, hstage, -⟩ := h.placed.of_waiting hwaiting
  have hsame : some run = some found := hrun.symm.trans hfound
  cases hsame
  exact hstage

end Moment

/-- The client leaves temporary indexes to the queries over them. -/
def Deed.Orderly {σ : Type} (db : Database σ) : Deed σ → Prop
  | .act action => db.Orderly action
  | _ => True

namespace Database

open Moment

variable {σ : Type} {m m' : Moment σ} {n : Nat} {earlier : List Temporary} {others : Nat → Nat}

/-- What is done in a step keeps the accounts of temporary indexes, and deletes at most one. -/
theorem Tally.does (h : Tally n earlier others m.db) (hsteady : m.Steady) {deed : Deed σ}
    (horderly : deed.Orderly m.db) (hdoes : m.Does deed m') :
    Tally (n + 1) earlier others m'.db := by
  have hstays : ∀ {db : Database σ}, Tally n earlier others db → Tally (n + 1) earlier others db :=
    fun h => Squares.mono h (Nat.le_succ n)
  cases hdoes with
  | act action hpermitted htells =>
    exact h.perform hsteady.tended hsteady.lined hsteady.placed.runsApart hpermitted htells horderly
  | write hedit hwrite =>
    exact hstays (Squares.spares h (h.ledger.houses.same (Store.same_write hwrite)))
  | tell observer change => exact hstays (h.notifyOne change observer)
  | @takeIn _ task run refresh submitted hready htask hstage hrun =>
    have htaken : Tally n earlier others
        { m.db with ready := m.db.ready.erase (.refresh task) } := h
    exact hstays (htaken.finishLive refresh.live refresh.epoch submitted.answer)
  | @retire _ task refresh htelling htask =>
    have hover : Tally n earlier others
        (m.db.updateRefresh task fun refresh => { refresh with stage := .over }) := h
    exact hover.reap (hsteady.tended.congr rfl rfl rfl) refresh.live
  | touch client => exact hstays h

/-- The queries over an index that were not given up. -/
def family (db : Database σ) (index : Descriptor) : Nat :=
  db.queries.countP fun query => !query.disposed && query.index == some index

/-- The shares of a temporary index are those of its family. -/
theorem Tally.family {db : Database σ} (h : Tally n earlier others db) {id : Nat}
    {record : Temporary} (hrecord : db.temporaries[id]? = some record) :
    db.family record.index = sharers db.queries id := by
  refine List.countP_congr fun query hquery => ?_
  obtain ⟨hshared, hapart⟩ := h.kin query hquery
  simp only [Bool.and_eq_true, Bool.not_eq_true', beq_iff_eq]
  constructor
  · rintro ⟨hdisposed, hindex⟩
    cases hshare : query.temporary with
    | none =>
      have hother := (hapart hshare hdisposed _ hindex).2 record (List.mem_of_getElem? hrecord)
      exact absurd rfl hother
    | some other =>
      obtain ⟨-, found, hfound, hreads⟩ := hshared other hshare
      rw [hindex, Option.some.injEq] at hreads
      rw [h.ledger.distinct hrecord hfound (by rw [hreads])]
  · intro hshare
    obtain ⟨hdisposed, found, hfound, hreads⟩ := hshared id hshare
    rw [hrecord] at hfound
    cases hfound
    exact ⟨hdisposed, hreads⟩

end Database

/-! ## Tenancies -/

/-- A moment, and the scans that are registered with temporary indexes on threads of their own. -/
structure Tenancy (σ : Type) extends Moment σ where
  /-- The records that the scans are registered with. -/
  held : List Nat

namespace Tenancy

open Database Moment

variable {σ : Type} {t t' : Tenancy σ} {id : Nat}

/-- What can happen next, if the client leaves temporary indexes to queries.  A query may be run at
once in a step; or it registers its scan, anything else happens, and the scan ends. -/
inductive Step : Tenancy σ → Tenancy σ → Prop where
  | deed {t : Tenancy σ} {m : Moment σ} {deed : Deed σ} (horderly : deed.Orderly t.db)
      (hdoes : t.toMoment.Does deed m) : Step t ⟨m, t.held⟩
  | register {t : Tenancy σ} {query temporary : Nat} (howns : t.db.OwnsQuery query)
      (hregister : (t.db.register query).2 = .ok (some temporary)) :
      Step t { t with db := (t.db.register query).1, held := temporary :: t.held }
  | finish {t : Tenancy σ} {query temporary : Nat} (target : Target)
      (result : Except IndexError Answer) (hheld : temporary ∈ t.held)
      (howns : t.db.OwnsQuery query) :
      Step t
        { t with
          db := ((t.db.endScan (.silent σ) temporary).complete query target result).1
          held := t.held.erase temporary }

/-- The tenancies that steps lead to from a new database. -/
inductive Reached : Tenancy σ → Prop where
  | create {config : Config} {least : Severity} {numbered : Nat} {client : σ} {db : Database σ}
      (hcreate : Database.create config least numbered client = .ok db) :
      Reached ⟨⟨db, [], []⟩, []⟩
  | step {t t' : Tenancy σ} (hreached : Reached t) (hstep : Step t t') : Reached t'

theorem step_act (t : Tenancy σ) (action : Action) (horderly : t.db.Orderly action)
    (hpermitted : t.db.Permits action) (htells : t.db.TellsNobody action) :
    t.Step { t with db := t.db.perform (.silent σ) action } :=
  @Step.deed σ t _ (.act action) horderly (.act action hpermitted htells)

/-- How many scans are registered with a temporary index, those of background runs among them. -/
def guards (t : Tenancy σ) (id : Nat) : Nat :=
  guardsOf t.db.runs (fun id => t.held.count id) id

/-- There was a temporary index, and neither a query over it nor a scan is left. -/
def Spent (t : Tenancy σ) (id : Nat) : Prop :=
  ∃ record, t.db.temporaries[id]? = some record ∧ t.db.family record.index = 0 ∧ t.guards id = 0

/-- The accounts square at a tenancy. -/
structure Square (n : Nat) (earlier : List Temporary) (t : Tenancy σ) : Prop where
  steady : t.toMoment.Steady
  tally : t.db.Tally n earlier fun id => t.held.count id

theorem bump_count (held : List Nat) (temporary : Nat) :
    bump (fun id => held.count id) (some temporary) = fun id => (temporary :: held).count id := by
  funext id
  simp [bump, List.count_cons]

theorem bump_count_erase {held : List Nat} {temporary : Nat} (hheld : temporary ∈ held) :
    bump (fun id => (held.erase temporary).count id) (some temporary) =
      fun id => held.count id := by
  funext id
  have hone := List.count_pos_iff.2 hheld
  simp only [bump, List.count_erase, Option.some.injEq, beq_iff_eq]
  split
  next heq =>
    subst heq
    omega
  next => rfl

theorem Square.step (h : t.Square 0 t.db.temporaries) (hstep : t.Step t') :
    t'.Square 1 t.db.temporaries := by
  obtain ⟨hsteady, htally⟩ := h
  cases hstep with
  | deed horderly hdoes => exact ⟨hsteady.does hdoes, htally.does hsteady horderly hdoes⟩
  | @register query temporary howns hregister =>
    refine ⟨hsteady.beside (beside_register query t.db) fun h => shares_register h query, ?_⟩
    have hregistered := htally.register query
    rw [hregister, registered?, bump_count] at hregistered
    exact hregistered.mono (Nat.zero_le 1)
  | @finish query temporary target result hheld howns =>
    have hbeside := beside_endScan temporary t.db
    refine ⟨hsteady.beside (hbeside.trans ((howns.beside hbeside).beside_complete target result))
      fun h => shares_complete (shares_endScan h temporary) query target result, ?_⟩
    rw [← bump_count_erase hheld] at htally
    exact (htally.endRegistration hsteady.tended.attested).complete query target result

theorem Square.refl {n : Nat} {earlier : List Temporary} (h : t.Square n earlier) :
    t.Square 0 t.db.temporaries :=
  ⟨h.steady, Turn.refl _, h.tally.ledger, h.tally.kin⟩

theorem square_create {config : Config} {least : Severity} {numbered : Nat} {client : σ}
    {db : Database σ} (hcreate : Database.create config least numbered client = .ok db) :
    Square 0 db.temporaries ⟨⟨db, [], []⟩, []⟩ := by
  refine ⟨⟨Stance.placed_create hcreate, Stance.attended_create hcreate, booked_create hcreate⟩, ?_⟩
  rw [Database.create] at hcreate
  split at hcreate
  · cases hcreate
  · cases hcreate
    refine ⟨.refl _, ⟨?_, ?_, Store.houses_empty numbered, ?_, rfl⟩, ?_⟩
    · intro id record hrecord
      cases hrecord
    · intro id _
      exact ⟨rfl, rfl⟩
    · intro record hrecord
      cases hrecord
    · intro query hquery
      cases hquery

theorem Reached.square (h : t.Reached) : t.Square 0 t.db.temporaries := by
  induction h with
  | create hcreate => exact square_create hcreate
  | step _ hstep ih => exact (ih.step hstep).refl

/-! ## What the accounts say -/

theorem Square.inOrder {n : Nat} {earlier : List Temporary} (h : t.Square n earlier)
    {record : Temporary} (hrecord : t.db.temporaries[id]? = some record) :
    record.InOrder (t.db.family record.index) (t.guards id) := by
  rw [h.tally.family hrecord]
  exact h.tally.ledger.order id record hrecord

theorem Square.spent_iff {n : Nat} {earlier : List Temporary} (h : t.Square n earlier) :
    t.Spent id ↔ ∃ record, t.db.temporaries[id]? = some record ∧ record.deleted = true := by
  constructor
  · rintro ⟨record, hrecord, hspent⟩
    exact ⟨record, hrecord, (h.inOrder hrecord).deleted.2 hspent⟩
  · rintro ⟨record, hrecord, hdeleted⟩
    exact ⟨record, hrecord, (h.inOrder hrecord).deleted.1 hdeleted⟩

/-- As many items have the property at most as have it in their places elsewhere. -/
theorem countP_le_of_places {α : Type} {items items' : List α} {p : α → Bool}
    (h : ∀ (i : Nat) (a : α), items[i]? = some a → p a = true →
      ∃ a', items'[i]? = some a' ∧ p a' = true) : items.countP p ≤ items'.countP p := by
  induction items generalizing items' with
  | nil => exact Nat.zero_le _
  | cons a rest ih =>
    cases items' with
    | nil =>
      have hnone : ∀ b ∈ a :: rest, ¬p b = true := by
        intro b hb hp
        obtain ⟨i, hi⟩ := List.mem_iff_getElem?.1 hb
        obtain ⟨b', hb', -⟩ := h i b hi hp
        cases hb'
      rw [List.countP_eq_zero.2 hnone]
      exact Nat.zero_le _
    | cons a' rest' =>
      have hrest := ih fun i b hb hp => h (i + 1) b hb hp
      rw [List.countP_cons, List.countP_cons]
      by_cases hp : p a = true
      · obtain ⟨found, hfound, hp'⟩ := h 0 a rfl hp
        cases hfound
        rw [if_pos hp, if_pos hp']
        omega
      · rw [if_neg hp]
        omega

theorem Square.deletions_le {n : Nat} {earlier : List Temporary} (h : t.Square n earlier)
    (h' : t'.Square 1 t.db.temporaries) (hnew : ∀ other, t'.Spent other → t.Spent other) :
    t'.db.metrics.temporariesDeleted ≤ t.db.metrics.temporariesDeleted := by
  rw [h.tally.ledger.deletions, h'.tally.ledger.deletions]
  exact countP_le_of_places fun other record hrecord hdeleted =>
    h.spent_iff.1 (hnew other (h'.spent_iff.2 ⟨record, hrecord, hdeleted⟩))

theorem Square.deletions_mono {n : Nat} {earlier : List Temporary} (h : t.Square n earlier)
    (h' : t'.Square 1 t.db.temporaries) :
    t.db.metrics.temporariesDeleted ≤ t'.db.metrics.temporariesDeleted := by
  rw [h.tally.ledger.deletions, h'.tally.ledger.deletions]
  refine countP_le_of_places fun other record hrecord hdeleted => ?_
  obtain ⟨record', hrecord', hgoes⟩ := h'.tally.turn.goes other record hrecord
  exact ⟨record', hrecord', hgoes.2 hdeleted⟩

/-- A step that leaves a temporary index neither queries nor scans counts its deletion, and no
other. -/
theorem Square.deletions_spent {n : Nat} {earlier : List Temporary} (h : t.Square n earlier)
    (h' : t'.Square 1 t.db.temporaries) {record : Temporary}
    (hrecord : t.db.temporaries[id]? = some record) (hleft : ¬t.Spent id) (hspent : t'.Spent id) :
    t'.db.metrics.temporariesDeleted = t.db.metrics.temporariesDeleted + 1 := by
  have hkept : record.deleted = false :=
    Bool.of_not_eq_true fun hdeleted => hleft (h.spent_iff.2 ⟨record, hrecord, hdeleted⟩)
  obtain ⟨record', hrecord', hdeleted⟩ := h'.spent_iff.1 hspent
  have hmost := h'.tally.turn.deleted
  have hone := countP_set hrecord record' Temporary.deleted
  rw [hkept, hdeleted, if_neg (by simp), if_pos rfl] at hone
  have hleast : (t.db.temporaries.set id record').countP Temporary.deleted ≤
      t'.db.temporaries.countP Temporary.deleted := by
    refine countP_le_of_places fun other found hfound hp => ?_
    rcases eq_or_of_set hrecord hfound with ⟨rfl, rfl⟩ | ⟨-, hold⟩
    · exact ⟨found, hrecord', hdeleted⟩
    · obtain ⟨found', hfound', hgoes⟩ := h'.tally.turn.goes other found hold
      exact ⟨found', hfound', hgoes.2 hp⟩
  rw [h.tally.ledger.deletions, h'.tally.ledger.deletions]
  omega

/-- The shares of a temporary index are the queries over it that were not given up, and it is there
exactly as long as there is one or a scan is registered with it.  What is spent stays spent; a step
counts one deletion if it leaves an index neither, and none if it does so to no index. -/
theorem Reached.accounted (h : t.Reached) {record : Temporary}
    (hrecord : t.db.temporaries[id]? = some record) :
    record.owners = t.db.family record.index ∧ record.inFlight = t.guards id ∧
      (t.db.store.hasIndex record.index.id = true ↔
        0 < t.db.family record.index ∨ 0 < t.guards id) ∧
      ∀ t', t.Step t' →
        (∃ record', t'.db.temporaries[id]? = some record' ∧ record'.index = record.index) ∧
        (t.Spent id → t'.Spent id) ∧
        (¬t.Spent id → t'.Spent id →
          t'.db.metrics.temporariesDeleted = t.db.metrics.temporariesDeleted + 1) ∧
        ((∀ other, t'.Spent other → t.Spent other) →
          t'.db.metrics.temporariesDeleted = t.db.metrics.temporariesDeleted) := by
  have hsquare := h.square
  have horder := hsquare.inOrder hrecord
  refine ⟨horder.owners, horder.inFlight, ?_, fun t' hstep => ?_⟩
  · rw [hsquare.tally.ledger.there record (List.mem_of_getElem? hrecord), Bool.not_eq_true',
      ← Bool.not_eq_true, horder.deleted]
    omega
  · have hsquare' := hsquare.step hstep
    obtain ⟨record', hrecord', hindex, hgoes⟩ := hsquare'.tally.turn.goes id record hrecord
    refine ⟨⟨record', hrecord', hindex⟩, fun hspent => ?_, hsquare.deletions_spent hsquare' hrecord,
      fun hnew => Nat.le_antisymm (hsquare.deletions_le hsquare' hnew)
        (hsquare.deletions_mono hsquare')⟩
    obtain ⟨found, hfound, hdeleted⟩ := hsquare.spent_iff.1 hspent
    rw [hrecord] at hfound
    cases hfound
    exact hsquare'.spent_iff.2 ⟨record', hrecord', hgoes hdeleted⟩

/-- A query is dropped while a run of it scans: the index stays until the scan has ended, and then
its deletion is counted. -/
theorem deleted_after_scan : ∃ (t t' : Tenancy Unit) (record : Temporary),
    t.Reached ∧ t.Step t' ∧ t.db.temporaries[0]? = some record ∧ record.owners = 0 ∧
      record.inFlight = 1 ∧ t.db.store.hasIndex record.index.id = true ∧
        t.db.metrics.temporariesDeleted = 0 ∧ t'.Spent 0 ∧
          t'.db.metrics.temporariesDeleted = 1 := by
  have hmade := @Reached.create Unit {} .info 0 () _ rfl
  have howns : ∀ {db : Database Unit}, 0 < db.queries.length → db.lives = [] → db.OwnsQuery 0 :=
    fun hlength hnone => ⟨hlength, fun live hlive => by rw [hnone] at hlive; cases hlive⟩
  have hqueried := hmade.step (step_act _ (.queryMap Store.bodyById) trivial trivial trivial)
  have hsubmitted := hqueried.step
    (step_act _ (.submit 0 .handle) trivial ⟨howns (by decide) rfl, nofun⟩ trivial)
  have hrunning := hsubmitted.step (step_act _ (.go (.run 0)) trivial trivial trivial)
  have hdropped := hrunning.step
    (step_act _ (.dropQuery 0) trivial (howns (by decide) rfl) trivial)
  obtain ⟨howners, hguards, hthere, hnext⟩ := @Reached.accounted Unit _ 0 hdropped _ rfl
  have hscan := hnext _ (step_act _ (.scanRun 0) trivial trivial trivial)
  obtain ⟨-, -, hcounted, -⟩ := hscan
  refine ⟨_, _, _, hdropped, step_act _ (.scanRun 0) trivial trivial trivial, rfl, rfl, rfl,
    hthere.2 (.inr (by decide)), rfl, ⟨_, rfl, rfl, rfl⟩, ?_⟩
  exact hcounted (by rintro ⟨record, hrecord, -, hnone⟩; cases hnone) ⟨_, rfl, rfl, rfl⟩

end Tenancy

end Viewbase
