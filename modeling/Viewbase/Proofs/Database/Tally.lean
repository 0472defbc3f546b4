import Viewbase.Proofs.Database.Ledger

/-!
The accounts of temporary indexes, and who they are of.

The shares of a temporary index are those of queries over it that were not given up, and its
registered scans are those of runs, and of scans elsewhere (`Tally`).  Whatever is done with queries
and runs keeps that, and deletes at most one index.
-/

namespace Viewbase

/-- How the query stands to temporary indexes: it has a share of the one it reads, unless it was
given up. -/
structure Query.Kin (numbered : Nat) (records : List Temporary) (query : Query) : Prop where
  shared : ∀ id, query.temporary = some id → query.disposed = false ∧
    ∃ record, records[id]? = some record ∧ query.index = some record.index
  apart : query.temporary = none → query.disposed = false → ∀ index, query.index = some index →
    index.id.number ≤ numbered ∧ ∀ record ∈ records, record.index.id ≠ index.id

theorem Query.Kin.enter {numbered numbered' : Nat} {records records' : List Temporary}
    {query : Query} (h : query.Kin numbered records) (hnumbered : numbered ≤ numbered')
    (hindexes : records'.map Temporary.index = records.map Temporary.index) :
    query.Kin numbered' records' where
  shared := by
    intro id hshare
    obtain ⟨hdisposed, record, hrecord, hindex⟩ := h.shared id hshare
    have hsame := congrArg (fun indexes : List Descriptor => indexes[id]?) hindexes
    simp only [List.getElem?_map, hrecord, Option.map_some, Option.map_eq_some_iff] at hsame
    obtain ⟨record', hrecord', heq⟩ := hsame
    exact ⟨hdisposed, record', hrecord', hindex.trans (congrArg some heq.symm)⟩
  apart := by
    intro hnone hdisposed index hindex
    obtain ⟨hknown, hothers⟩ := h.apart hnone hdisposed index hindex
    refine ⟨Nat.le_trans hknown hnumbered, fun record hrecord => ?_⟩
    have hmem := hindexes ▸ List.mem_map_of_mem (f := Temporary.index) hrecord
    obtain ⟨old, hold, heq⟩ := List.mem_map.1 hmem
    exact heq ▸ hothers old hold

/-- An index that is made now is none that a query knew. -/
theorem Query.Kin.push {numbered numbered' : Nat} {records : List Temporary} {query : Query}
    (h : query.Kin numbered records) (hnumbered : numbered ≤ numbered') {index : Descriptor}
    (hnew : numbered < index.id.number) :
    query.Kin numbered' (records ++ [Temporary.new index]) where
  shared := by
    intro id hshare
    obtain ⟨hdisposed, record, hrecord, hindex⟩ := h.shared id hshare
    have hlt := (List.getElem?_eq_some_iff.1 hrecord).1
    exact ⟨hdisposed, record, by rw [List.getElem?_append_left hlt, hrecord], hindex⟩
  apart := by
    intro hnone hdisposed other hother
    obtain ⟨hknown, hothers⟩ := h.apart hnone hdisposed other hother
    refine ⟨Nat.le_trans hknown hnumbered, fun record hrecord => ?_⟩
    rcases List.mem_append.1 hrecord with hold | hrecord
    · exact hothers record hold
    · rw [List.mem_singleton.1 hrecord]
      rintro heq
      rw [← heq] at hknown
      exact absurd hnew (Nat.not_lt.2 hknown)

namespace Database

variable {σ : Type} {db db' : Database σ} {n id : Nat} {earlier : List Temporary}
  {queries : List Query} {shares guards : Nat → Nat}

/-! ## Accounts -/

/-- One more is counted for a record, if any. -/
def bump (count : Nat → Nat) (temporary : Option Nat) (id : Nat) : Nat :=
  count id + if temporary = some id then 1 else 0

@[simp] theorem bump_none (count : Nat → Nat) : bump count none = count := by
  funext id
  simp [bump]

theorem bump_self (count : Nat → Nat) (id : Nat) : bump count (some id) id = count id + 1 := by
  rw [bump, if_pos rfl]

theorem bump_pos (count : Nat → Nat) (id : Nat) : 0 < bump count (some id) id := by
  rw [bump_self]
  exact Nat.succ_pos _

theorem bump_of_ne {other : Nat} (hother : other ≠ id) (count : Nat → Nat) :
    bump count (some id) other = count other := by
  simp [bump, Ne.symm hother]

/-- The records agree with the accounts, and the queries stand to them as they should; so many
indexes were deleted at most since the earlier records. -/
structure Accounts (n : Nat) (earlier : List Temporary) (queries : List Query)
    (shares guards : Nat → Nat) (store : Store) (records : List Temporary) (deletions : Nat) :
    Prop where
  turn : Turn n earlier records
  ledger : Ledger store records deletions shares guards
  kin : ∀ query ∈ queries, query.Kin store.numbered records

/-- The accounts square with the records of the database. -/
def Squares (n : Nat) (earlier : List Temporary) (queries : List Query) (shares guards : Nat → Nat)
    (db : Database σ) : Prop :=
  Accounts n earlier queries shares guards db.store db.temporaries db.metrics.temporariesDeleted

theorem Squares.mono (h : Squares n earlier queries shares guards db) {m : Nat} (hle : n ≤ m) :
    Squares m earlier queries shares guards db :=
  ⟨h.turn.mono hle, h.ledger, h.kin⟩

theorem Squares.exists_record (h : Squares n earlier queries shares guards db)
    (hcounted : 0 < shares id ∨ 0 < guards id) : ∃ record, db.temporaries[id]? = some record := by
  cases hrecord : db.temporaries[id]? with
  | some record => exact ⟨record, rfl⟩
  | none =>
    have hbeyond := h.ledger.beyond id (List.getElem?_eq_none_iff.1 hrecord)
    omega

/-- The accounts change with a record. -/
theorem Squares.enter (h : Squares n earlier queries shares guards db)
    {record record' : Temporary} (hrecord : db.temporaries[id]? = some record)
    (henters : Enters db id record record' db') (hindex : record'.index = record.index)
    {shares' guards' : Nat → Nat} (horder : record'.InOrder (shares' id) (guards' id))
    (hothers : ∀ other, other ≠ id → shares' other = shares other ∧ guards' other = guards other) :
    Squares (n + 1) earlier queries shares' guards' db' ∧
      (record'.deleted = record.deleted → Squares n earlier queries shares' guards' db') := by
  have hledger := h.ledger.enter hrecord hindex henters horder hothers
  have hkin : ∀ query ∈ queries, query.Kin db'.store.numbered db'.temporaries :=
    fun query hquery => (h.kin query hquery).enter henters.numbered
      (henters.temporaries ▸ map_index_set hrecord hindex fun index => index)
  refine ⟨⟨?_, hledger, hkin⟩, fun hkept => ⟨?_, hledger, hkin⟩⟩
  · exact henters.temporaries ▸ h.turn.set hrecord (henters.goes hindex)
  · exact henters.temporaries ▸ h.turn.set_kept hrecord hindex hkept

/-! ## Operations on records -/

/-- If nothing is left of the accounts of a record, nobody is subscribed to its index. -/
def Unneeded (shares guards : Nat → Nat) (id : Nat) (db : Database σ) : Prop :=
  shares id = 0 → guards id = 0 → ∀ record, db.temporaries[id]? = some record →
    db.store.Unheard record.index.id

theorem Squares.acquireOwner (h : Squares n earlier queries shares guards db)
    (hshares : 0 < shares id) : (db.acquireOwner id).2 = .ok () ∧
      Squares n earlier queries (bump shares (some id)) guards (db.acquireOwner id).1 := by
  obtain ⟨record, hrecord⟩ := h.exists_record (.inl hshares)
  have hbefore := h.ledger.order id record hrecord
  obtain ⟨hreply, record', henters, hindex, horder⟩ :=
    enters_acquireOwner hrecord hbefore hshares
  refine ⟨hreply, (h.enter hrecord henters hindex (bump_self shares id ▸ horder)
    fun other hother => ⟨bump_of_ne hother shares, rfl⟩).2 ?_⟩
  rw [Bool.eq_iff_iff, horder.deleted, hbefore.deleted]
  omega

theorem Squares.beginScan (h : Squares n earlier queries shares guards db)
    (hshares : 0 < shares id) : (db.beginScan id).2 = .ok () ∧
      Squares n earlier queries shares (bump guards (some id)) (db.beginScan id).1 := by
  obtain ⟨record, hrecord⟩ := h.exists_record (.inl hshares)
  have hbefore := h.ledger.order id record hrecord
  obtain ⟨hreply, record', henters, hindex, horder⟩ := enters_beginScan hrecord hbefore hshares
  refine ⟨hreply, (h.enter hrecord henters hindex (bump_self guards id ▸ horder)
    fun other hother => ⟨rfl, bump_of_ne hother guards⟩).2 ?_⟩
  rw [Bool.eq_iff_iff, horder.deleted, hbefore.deleted]
  omega

theorem Squares.there (h : Squares n earlier queries shares guards db) {record : Temporary}
    (hrecord : db.temporaries[id]? = some record) :
    db.store.hasIndex record.index.id = !record.deleted :=
  h.ledger.there record (List.mem_of_getElem? hrecord)

theorem Squares.endScan (h : Squares n earlier queries shares (bump guards (some id)) db)
    (hunneeded : Unneeded shares guards id db) :
    Squares (n + 1) earlier queries shares guards (db.endScan (.silent σ) id) := by
  obtain ⟨record, hrecord⟩ := h.exists_record (.inr (bump_pos guards id))
  obtain ⟨record', henters, hindex, horder⟩ :=
    enters_endScan hrecord (bump_self guards id ▸ h.ledger.order id record hrecord)
      (h.there hrecord) fun hshares hguards => hunneeded hshares hguards record hrecord
  exact (h.enter hrecord henters hindex horder
    fun other hother => ⟨rfl, (bump_of_ne hother guards).symm⟩).1

theorem Squares.endRegistration {temporary : Option Nat}
    (h : Squares n earlier queries shares (bump guards temporary) db)
    (hunneeded : ∀ id, temporary = some id → Unneeded shares guards id db) :
    Squares (n + 1) earlier queries shares guards (db.endRegistration (.silent σ) temporary) := by
  cases temporary with
  | none => exact Squares.mono (bump_none guards ▸ h) (Nat.le_succ n)
  | some id => exact h.endScan (hunneeded id rfl)

theorem Squares.releaseDeferred (h : Squares n earlier queries (bump shares (some id)) guards db)
    (hunneeded : Unneeded shares guards id db) :
    Squares (n + 1) earlier queries shares guards (db.releaseDeferred (.silent σ) id) := by
  obtain ⟨record, hrecord⟩ := h.exists_record (.inl (bump_pos shares id))
  obtain ⟨record', henters, hindex, horder⟩ :=
    enters_releaseDeferred hrecord (bump_self shares id ▸ h.ledger.order id record hrecord)
      (h.there hrecord) fun hshares hguards => hunneeded hshares hguards record hrecord
  exact (h.enter hrecord henters hindex horder
    fun other hother => ⟨(bump_of_ne hother shares).symm, rfl⟩).1

/-- The share is given up only if the reply is good. -/
theorem Squares.releaseOwner (h : Squares n earlier queries (bump shares (some id)) guards db)
    (hunneeded : Unneeded shares guards id db) :
    ((db.releaseOwner (.silent σ) id).2 = .ok () ∧
        Squares (n + 1) earlier queries shares guards (db.releaseOwner (.silent σ) id).1) ∨
      ((∃ error, (db.releaseOwner (.silent σ) id).2 = .error error) ∧
        Squares n earlier queries (bump shares (some id)) guards
          (db.releaseOwner (.silent σ) id).1) := by
  obtain ⟨record, hrecord⟩ := h.exists_record (.inl (bump_pos shares id))
  obtain ⟨record', henters, hindex, ⟨hreply, horder⟩ | ⟨hreply, hkept, horder⟩⟩ :=
    enters_releaseOwner hrecord (bump_self shares id ▸ h.ledger.order id record hrecord)
      (h.there hrecord) fun hshares hguards => hunneeded hshares hguards record hrecord
  · exact .inl ⟨hreply, (h.enter hrecord henters hindex horder
      fun other hother => ⟨(bump_of_ne hother shares).symm, rfl⟩).1⟩
  · exact .inr ⟨hreply, (h.enter hrecord henters hindex (bump_self shares id ▸ horder)
      fun other _ => ⟨rfl, rfl⟩).2 hkept⟩

/-! ## Whose accounts they are -/

/-- How many runs have a scan registered with a temporary index. -/
def registrants (runs : List Run) (id : Nat) : Nat :=
  runs.countP fun run => run.registered? == some id

/-- The registered scans of runs, and others. -/
def guardsOf (runs : List Run) (others : Nat → Nat) (id : Nat) : Nat :=
  registrants runs id + others id

/-- The shares are those of queries, and the registered scans those of runs and the others. -/
def Tally (n : Nat) (earlier : List Temporary) (others : Nat → Nat) (db : Database σ) : Prop :=
  Squares n earlier db.queries (sharers db.queries) (guardsOf db.runs others) db

variable {others : Nat → Nat}

theorem sharers_push (queries : List Query) (query : Query) :
    sharers (queries ++ [query]) = bump (sharers queries) query.temporary := by
  funext id
  simp [sharers, bump, List.countP_append, List.countP_singleton]

theorem guardsOf_push (runs : List Run) (run : Run) (others : Nat → Nat) :
    guardsOf (runs ++ [run]) others = guardsOf runs (bump others run.registered?) := by
  funext id
  simp [guardsOf, registrants, bump, List.countP_append, List.countP_singleton]
  omega

theorem bump_guardsOf (runs : List Run) (others : Nat → Nat) (temporary : Option Nat) :
    guardsOf runs (bump others temporary) = bump (guardsOf runs others) temporary := by
  funext id
  simp only [guardsOf, bump]
  omega

/-- What a run has registered moves to the others when the run goes on without. -/
theorem guardsOf_modify {runs : List Run} {i : Nat} {run : Run} (hrun : runs[i]? = some run)
    (change : Run → Run) (others : Nat → Nat) :
    guardsOf (runs.modify i change) (bump others run.registered?) =
      guardsOf runs (bump others (change run).registered?) := by
  funext id
  have hcount := countP_modify hrun change fun run => run.registered? == some id
  simp only [beq_iff_eq] at hcount
  simp only [guardsOf, registrants, bump]
  omega

theorem countP_modify_kept {α : Type} {items : List α} {i : Nat} {change : α → α} {p : α → Bool}
    (h : ∀ a, items[i]? = some a → p (change a) = p a) :
    (items.modify i change).countP p = items.countP p := by
  cases hitem : items[i]? with
  | none => rw [List.modify_eq_self (List.getElem?_eq_none_iff.1 hitem)]
  | some a =>
    have hcount := countP_modify hitem change p
    rw [h a hitem] at hcount
    omega

/-- A run that keeps its registration counts as before. -/
theorem guardsOf_modify_kept {runs : List Run} {i : Nat} {change : Run → Run}
    (h : ∀ run, runs[i]? = some run → (change run).registered? = run.registered?)
    (others : Nat → Nat) : guardsOf (runs.modify i change) others = guardsOf runs others := by
  funext id
  rw [guardsOf, registrants, countP_modify_kept fun run hrun => by rw [h run hrun]]
  rfl

/-! ## Queries -/

theorem exists_of_mem_modify {α : Type} {items : List α} {i : Nat} {change : α → α} {a : α}
    (h : a ∈ items.modify i change) : a ∈ items ∨ ∃ b ∈ items, a = change b := by
  obtain ⟨j, hj⟩ := List.mem_iff_getElem?.1 h
  rw [List.getElem?_modify] at hj
  obtain ⟨b, hb, rfl⟩ := Option.map_eq_some_iff.1 hj
  split
  · exact .inr ⟨b, List.mem_of_getElem? hb, rfl⟩
  · exact .inl (List.mem_of_getElem? hb)

/-- A query may change in what the accounts do not depend on. -/
theorem Tally.updateQuery (h : Tally n earlier others db) (id : Nat) {change : Query → Query}
    (hchange : ∀ query, (change query).temporary = query.temporary ∧
      (change query).index = query.index ∧ (change query).disposed = query.disposed) :
    Tally n earlier others (db.updateQuery id change) := by
  have hsharers : sharers (db.updateQuery id change).queries = sharers db.queries := by
    funext temporary
    exact countP_modify_kept fun query _ => by rw [(hchange query).1]
  rw [Tally, hsharers]
  refine ⟨h.turn, h.ledger, fun query hquery => ?_⟩
  rcases exists_of_mem_modify hquery with hold | ⟨old, hold, rfl⟩
  · exact h.kin query hold
  · obtain ⟨htemporary, hindex, hdisposed⟩ := hchange old
    obtain ⟨hshared, hapart⟩ := h.kin old hold
    exact ⟨by rw [htemporary, hindex, hdisposed]; exact hshared,
      by rw [htemporary, hindex, hdisposed]; exact hapart⟩

/-- A query is added for which a share was taken, if it has one. -/
theorem Squares.addQuery {query : Query}
    (h : Squares n earlier db.queries (bump (sharers db.queries) query.temporary)
      (guardsOf db.runs others) db) (hkin : query.Kin db.store.numbered db.temporaries) :
    Tally n earlier others (addQuery query db).1 := by
  refine ⟨h.turn, ?_, fun query' hquery' => ?_⟩
  · show Ledger _ _ _ (sharers (db.queries ++ [query])) _
    rw [sharers_push]
    exact h.ledger
  · rcases mem_addQuery hquery' with hold | rfl
    · exact h.kin query' hold
    · exact hkin

theorem Tally.addQuery (h : Tally n earlier others db) {query : Query}
    (hnone : query.temporary = none) (hkin : query.Kin db.store.numbered db.temporaries) :
    Tally n earlier others (addQuery query db).1 :=
  Squares.addQuery (by rw [hnone, bump_none]; exact h) hkin

/-- A query that is there and has a share is counted. -/
theorem sharers_pos {query : Query} (hquery : query ∈ queries)
    (hshare : query.temporary = some id) : 0 < sharers queries id :=
  List.countP_pos_iff.2 ⟨query, hquery, by simp [hshare]⟩

theorem queries_acquireOwner (id : Nat) (db : Database σ) :
    (db.acquireOwner id).1.queries = db.queries :=
  queries_onTemporary id (fair_acquireOwner db)

theorem Tally.copyQuery (h : Tally n earlier others db) (id : Nat) :
    Tally n earlier others (db.copyQuery id).1 := by
  rw [Database.copyQuery]
  split
  · exact h
  next query hquery =>
    have hmem := List.mem_of_getElem? hquery
    split
    · exact h
    cases hshare : query.temporary with
    | none =>
      simp only [shareTemporary, hshare]
      exact h.addQuery hshare (h.kin query hmem)
    | some temporary =>
      obtain ⟨hreply, hacquired⟩ := Squares.acquireOwner h (sharers_pos hmem hshare)
      have hqueries := queries_acquireOwner temporary db
      have hruns := (beside_acquireOwner temporary db).runs
      simp only [shareTemporary, hshare]
      cases hacquire : db.acquireOwner temporary with
      | mk acquired reply =>
        rw [hacquire] at hreply hacquired hqueries hruns
        dsimp only at hreply hacquired hqueries hruns
        subst hreply
        rw [← hqueries, ← hruns, ← hshare] at hacquired
        exact hacquired.addQuery (hacquired.kin query (hqueries ▸ hmem))

/-- A temporary index is made, and the query over it has the first share. -/
theorem Accounts.create {store : Store} {records : List Temporary} {deletions : Nat}
    (h : Accounts n earlier queries shares guards store records deletions) (map : MapFunction)
    {query : Query} (hshare : query.temporary = some records.length)
    (hindex : query.index = some (store.createEphemeral map).1)
    (hdisposed : query.disposed = false) :
    Accounts n earlier (queries ++ [query]) (bump shares query.temporary) guards
      (store.createEphemeral map).2
      (records ++ [Temporary.new (store.createEphemeral map).1]) deletions := by
  obtain ⟨hspares, hhouses, hthere⟩ := h.ledger.houses.createEphemeral map
  have hnew := h.ledger.beyond records.length (Nat.le_refl _)
  refine ⟨h.turn.push _, ⟨?_, ?_, by simpa [Temporary.new] using hhouses, ?_, ?_⟩, ?_⟩
  · intro id record hrecord
    rw [getElem?_push] at hrecord
    split at hrecord
    next hid =>
      cases hrecord
      rw [hid, hshare, bump_self, hnew.1, hnew.2]
      exact Temporary.inOrder_new _
    next hid =>
      rw [hshare, bump_of_ne hid]
      exact h.ledger.order id record hrecord
  · intro id hle
    rw [List.length_append, List.length_singleton] at hle
    rw [hshare, bump_of_ne (by omega)]
    exact h.ledger.beyond id (by omega)
  · intro record hrecord
    rcases List.mem_append.1 hrecord with hold | hrecord
    · rw [hspares.there _ (List.mem_map_of_mem hold)]
      exact h.ledger.there record hold
    · rw [List.mem_singleton.1 hrecord]
      exact hthere
  · rw [List.countP_append, h.ledger.deletions]
    simp [Temporary.new]
  · intro query' hquery'
    rcases List.mem_append.1 hquery' with hold | hquery'
    · exact (h.kin query' hold).push (Nat.le_succ _) (Nat.lt_succ_self _)
    · rw [List.mem_singleton.1 hquery']
      refine ⟨fun id hid => ⟨hdisposed, ?_⟩,
        fun hnone => absurd (hnone.symm.trans hshare) (by simp)⟩
      rw [hshare] at hid
      cases hid
      exact ⟨_, List.getElem?_concat_length, hindex⟩

theorem Tally.queryMap (h : Tally n earlier others db) (map : MapFunction) :
    Tally n earlier others (db.queryMap (.silent σ) map).1 := by
  have hcreated : Accounts n earlier
      (db.queries ++ [Query.new (some (db.store.createEphemeral map).1)
        (some db.temporaries.length)]) _ _ _ _ _ := Accounts.create h map rfl rfl rfl
  rw [← sharers_push] at hcreated
  exact hcreated

/-! ## Giving up -/

/-- Whoever is subscribed to an index is a client, or a live query that is started and whose query
reads the index. -/
def Attested (db : Database σ) : Prop :=
  ∀ sub ∈ db.store.subscriptions, (∃ callback, sub.observer = .client callback) ∨
    ∃ live ∈ db.lives, live.phase ≠ .stopped ∧ ∃ query : Query,
      db.queries[live.query]? = some query ∧ query.disposed = false ∧
        ∃ index, query.index = some index ∧ index.id = sub.index

theorem Attested.congr (h : db.Attested)
    (hsubscriptions : db'.store.subscriptions = db.store.subscriptions)
    (hlives : db'.lives = db.lives) (hqueries : db'.queries = db.queries) : db'.Attested := by
  intro sub hsub
  rw [hlives, hqueries]
  exact h sub (hsubscriptions ▸ hsub)

/-- A live query that is subscribed to a temporary index has a share of it. -/
theorem Attested.exists_share (h : db.Attested)
    (hsquares : Squares n earlier db.queries shares guards db) {sub : Subscription}
    (hsub : sub ∈ db.store.subscriptions) {record : Temporary}
    (hrecord : db.temporaries[id]? = some record) (hindex : sub.index = record.index.id) :
    ∃ live ∈ db.lives, live.phase ≠ .stopped ∧ ∃ query : Query,
      db.queries[live.query]? = some query ∧ query.temporary = some id := by
  have hmem := List.mem_of_getElem? hrecord
  rcases h sub hsub with ⟨callback, hclient⟩ |
    ⟨live, hlive, hstarted, query, hquery, hdisposed, index, hreads, hsame⟩
  · have hapart := (hsquares.ledger.houses.subscriptions sub hsub).2 callback hclient
    exact absurd (List.mem_map.2 ⟨record, hmem, hindex.symm⟩) hapart
  · obtain ⟨hshared, hapart⟩ := hsquares.kin query (List.mem_of_getElem? hquery)
    refine ⟨live, hlive, hstarted, query, hquery, ?_⟩
    cases hshare : query.temporary with
    | none =>
      have hother := (hapart hshare hdisposed index hreads).2 record hmem
      exact absurd (hindex.symm.trans hsame.symm) hother
    | some temporary =>
      obtain ⟨-, found, hfound, hfoundIndex⟩ := hshared temporary hshare
      rw [hreads, Option.some.injEq] at hfoundIndex
      rw [hsquares.ledger.distinct hrecord hfound (by rw [← hfoundIndex, hsame, hindex])]

theorem Attested.unneeded (h : db.Attested)
    (hsquares : Squares n earlier db.queries shares guards db) (id : Nat) {guards' : Nat → Nat} :
    Unneeded (sharers db.queries) guards' id db := by
  intro hnone _ record hrecord sub hsub hindex
  obtain ⟨live, -, -, query, hquery, hshare⟩ := h.exists_share hsquares hsub hrecord hindex
  exact absurd (sharers_pos (List.mem_of_getElem? hquery) hshare) (by omega)

/-- No started live query runs the query. -/
def Quiet (query : Nat) (db : Database σ) : Prop :=
  ∀ live ∈ db.lives, live.query = query → live.phase = .stopped

theorem OwnsQuery.quiet (h : db.OwnsQuery id) : Quiet id db :=
  fun live hlive hquery => absurd hquery (h.2 live hlive)

theorem Attested.unneeded_markDisposed (h : db.Attested)
    (hsquares : Squares n earlier db.queries shares guards db) {query : Nat}
    (hquiet : Quiet query db) (id : Nat) {guards' : Nat → Nat} :
    Unneeded (sharers (db.markDisposed query).queries) guards' id db := by
  intro hnone _ record hrecord sub hsub hindex
  obtain ⟨live, hlive, hstarted, other, hother, hshare⟩ :=
    h.exists_share hsquares hsub hrecord hindex
  have hne : query ≠ live.query := fun heq => hstarted (hquiet live hlive heq.symm)
  have hkept : (db.markDisposed query).queries[live.query]? = some other := by
    simp [markDisposed, Database.updateQuery, hne, hother]
  exact absurd (sharers_pos (List.mem_of_getElem? hkept) hshare) (by omega)

theorem kin_markDisposed {numbered : Nat} {records : List Temporary}
    (h : ∀ query ∈ db.queries, query.Kin numbered records) (id : Nat) :
    ∀ query ∈ (db.markDisposed id).queries, query.Kin numbered records := by
  intro query hquery
  rcases exists_of_mem_modify hquery with hold | ⟨old, -, rfl⟩
  · exact h query hold
  · exact ⟨nofun, nofun⟩

theorem bump_sharers_markDisposed (id : Nat) (db : Database σ) :
    bump (sharers (db.markDisposed id).queries) (db.queries[id]?.bind Query.temporary) =
      sharers db.queries := by
  cases hquery : db.queries[id]? with
  | none =>
    rw [markDisposed, Database.updateQuery,
      List.modify_eq_self (List.getElem?_eq_none_iff.1 hquery)]
    exact bump_none _
  | some query =>
    funext temporary
    exact sharers_markDisposed hquery temporary

/-- A query is to be marked as given up, but the share it had still counts. -/
theorem Tally.without (h : Tally n earlier others db) (id : Nat) :
    Squares n earlier db.queries
      (bump (sharers (db.markDisposed id).queries) (db.queries[id]?.bind Query.temporary))
      (guardsOf db.runs others) db := by
  rw [bump_sharers_markDisposed]
  exact h

/-- A query is marked whose share was released. -/
theorem Tally.marked {released : Database σ} {id : Nat} (hqueries : released.queries = db.queries)
    (hruns : released.runs = db.runs)
    (h : Squares n earlier db.queries (sharers (db.markDisposed id).queries)
      (guardsOf db.runs others) released) : Tally n earlier others (released.markDisposed id) := by
  have hkin := kin_markDisposed (hqueries ▸ h.kin) id
  have hmarked : (released.markDisposed id).queries = (db.markDisposed id).queries := by
    rw [markDisposed, markDisposed, Database.updateQuery, Database.updateQuery, hqueries]
  have hsame : (released.markDisposed id).runs = db.runs := hruns
  rw [Tally, hsame]
  exact ⟨h.turn, hmarked ▸ h.ledger, hkin⟩

theorem Tally.release (h : Tally n earlier others db) (hattested : db.Attested) {id : Nat}
    (hquiet : Quiet id db) : Tally (n + 1) earlier others (db.release (.silent σ) id) := by
  have hwithout := h.without id
  rw [Database.release]
  split
  next hnone =>
    rw [hnone, bump_none] at hwithout
    exact Squares.mono (Tally.marked rfl rfl hwithout) (Nat.le_succ n)
  next temporary hshare =>
    rw [hshare] at hwithout
    have hreleased := hwithout.releaseDeferred (hattested.unneeded_markDisposed h hquiet temporary)
    exact Tally.marked (queries_onTemporary temporary (fair_releaseDeferred db))
      (beside_releaseDeferred temporary db).runs hreleased

theorem Tally.dropQuery (h : Tally n earlier others db) (hattested : db.Attested) {id : Nat}
    (hquiet : Quiet id db) : Tally (n + 1) earlier others (db.dropQuery (.silent σ) id) := by
  rw [Database.dropQuery]
  split
  next index _ =>
    have hnoted : Tally n earlier others (db.note .temporaryReleased [("index", index.text),
        ("reason", "query dropped without dispose")]) := h
    exact hnoted.release hattested hquiet
  next => exact h.release hattested hquiet

theorem Tally.dispose (h : Tally n earlier others db) (hattested : db.Attested) {id : Nat}
    (hquiet : Quiet id db) : Tally (n + 1) earlier others (db.dispose (.silent σ) id).1 := by
  have hstays := Squares.mono h (Nat.le_succ n)
  rw [Database.dispose]
  split
  · exact hstays
  next query hquery =>
    split
    · exact hstays
    have hwithout := h.without id
    rw [hquery, Option.bind_some] at hwithout
    cases hshare : query.temporary with
    | none =>
      rw [hshare, bump_none] at hwithout
      exact Squares.mono (Tally.marked rfl rfl hwithout) (Nat.le_succ n)
    | some temporary =>
      rw [hshare] at hwithout
      have hqueries := queries_onTemporary temporary (fair_releaseOwner_one db)
      have hruns := (beside_releaseOwner temporary db).runs
      have hreleased := hwithout.releaseOwner (hattested.unneeded_markDisposed h hquiet temporary)
      dsimp only
      cases hrelease : db.releaseOwner (.silent σ) temporary with
      | mk released reply =>
        rw [← Database.releaseOwner, hrelease] at hqueries
        rw [hrelease] at hruns hreleased
        rcases hreleased with ⟨rfl, hpaid⟩ | ⟨⟨error, rfl⟩, hkept⟩
        · exact Tally.marked hqueries hruns hpaid
        · -- The share is kept when its release is refused.
          have hsharers := bump_sharers_markDisposed id db
          rw [hquery, Option.bind_some, hshare] at hsharers
          rw [Tally, hqueries, hruns]
          exact (hsharers ▸ hkept).mono (Nat.le_succ n)

/-! ## Scans of queries -/

/-- The record that a scan was registered with. -/
def registered? (registration : Except QueryError (Option Nat)) : Option Nat :=
  match registration with
  | .ok temporary => temporary
  | .error _ => none

theorem Tally.register (h : Tally n earlier others db) (id : Nat) :
    Tally n earlier (bump others (registered? (db.register id).2)) (db.register id).1 := by
  have hnone : Tally n earlier (bump others none) db := by rwa [bump_none]
  rw [Database.register]
  split
  · exact hnone
  next query hquery =>
    split
    · exact hnone
    cases hshare : query.temporary with
    | none => exact hnone
    | some temporary =>
      obtain ⟨hreply, hbegun⟩ :=
        Squares.beginScan h (sharers_pos (List.mem_of_getElem? hquery) hshare)
      have hqueries := queries_onTemporary temporary (fair_beginScan db)
      have hruns := (beside_beginScan temporary db).runs
      dsimp only
      cases hbegin : db.beginScan temporary with
      | mk begun reply =>
        rw [← Database.beginScan, hbegin] at hqueries
        rw [hbegin] at hreply hbegun hruns
        dsimp only at hreply hbegun hqueries hruns
        subst hreply
        rw [← bump_guardsOf] at hbegun
        rw [Tally, hqueries, hruns]
        exact hbegun

theorem queries_endRegistration (temporary : Option Nat) (db : Database σ) :
    (db.endRegistration (.silent σ) temporary).queries = db.queries := by
  cases temporary with
  | none => rfl
  | some id => exact queries_onTemporary id (fair_endScan db)

/-- Queries and runs stay while the registration of a scan ends. -/
theorem Tally.endRegistration {temporary : Option Nat}
    (h : Tally n earlier (bump others temporary) db) (hattested : db.Attested) :
    Tally (n + 1) earlier others (db.endRegistration (.silent σ) temporary) := by
  rw [Tally, bump_guardsOf] at h
  have hended := h.endRegistration fun id _ => hattested.unneeded h id
  rw [Tally, queries_endRegistration, (beside_endRegistration temporary db).runs]
  exact hended

/-- The store goes on without touching a temporary index. -/
theorem Squares.spares (h : Squares n earlier queries shares guards db) {store : Store}
    (hspares : Store.Spares (db.temporaries.map fun record => record.index.id) db.store store) :
    Squares n earlier queries shares guards { db with store := store } where
  turn := h.turn
  ledger :=
    { h.ledger with
      houses := hspares.houses
      there := fun record hrecord =>
        (hspares.there _ (List.mem_map_of_mem hrecord)).trans (h.ledger.there record hrecord) }
  kin := fun query hquery => (h.kin query hquery).enter hspares.numbered rfl

theorem Tally.scan (h : Tally n earlier others db) (request : Request) :
    Tally n earlier others (db.scan (.silent σ) request).1 :=
  Squares.spares h (h.ledger.houses.same (Store.same_scan db.store request))

theorem Tally.complete (h : Tally n earlier others db) (query : Nat) (target : Target)
    (result : Except IndexError Answer) :
    Tally n earlier others (db.complete query target result).1 := by
  cases result with
  | ok answer => exact h.updateQuery query fun _ => ⟨rfl, rfl, rfl⟩
  | error error => exact h

theorem attested_register (h : db.Attested) (id : Nat) : (db.register id).1.Attested :=
  h.congr (beside_register id db).store.subscriptions (beside_register id db).lives
    (Stance.queries_register id db)

theorem Tally.runQuery (h : Tally n earlier others db) (hattested : db.Attested) (id : Nat) :
    Tally (n + 1) earlier others (db.runQuery (.silent σ) id).1 := by
  rw [Database.runQuery]
  split
  · exact h.mono (Nat.le_succ n)
  next query _ =>
    have hregistered := h.register id
    have hkept := attested_register hattested id
    cases hregister : db.register id with
    | mk begun registration =>
      rw [hregister] at hregistered hkept
      cases registration with
      | error error =>
        rw [registered?, bump_none] at hregistered
        exact hregistered.mono (Nat.le_succ n)
      | ok temporary =>
        have hscanned := hregistered.scan query.request
        exact (hscanned.endRegistration (hkept.congr (Store.later_scan _ _).subscriptions rfl
          rfl)).complete id _ _

/-! ## Runs -/

theorem Tally.submit (h : Tally n earlier others db) (id : Nat) (recipient : Recipient) :
    Tally n earlier others (db.submit id recipient).1 := by
  have hregistered := h.register id
  cases hregister : db.register id with
  | mk begun registration =>
    rw [hregister] at hregistered
    simp only [Database.submit, hregister]
    have hpushed := guardsOf_push begun.runs
      (.new id (Stance.requestOf id db) registration recipient) others
    have hsame : (Run.new id (Stance.requestOf id db) registration recipient).registered? =
        registered? registration := by
      cases registration <;> rfl
    rw [hsame] at hpushed
    rw [Tally, ← hpushed] at hregistered
    exact hregistered

/-- A run goes on and keeps its registration. -/
theorem Tally.updateRun (h : Tally n earlier others db) {id : Nat} {change : Run → Run}
    (hkept : ∀ run, db.runs[id]? = some run → (change run).registered? = run.registered?) :
    Tally n earlier others (db.updateRun id change) := by
  have hguards : guardsOf (db.updateRun id change).runs others = guardsOf db.runs others :=
    guardsOf_modify_kept hkept others
  rw [Tally, hguards]
  exact h

/-- The registration of a run ends, and the run goes on without. -/
theorem Tally.leave (h : Tally n earlier others db) (hattested : db.Attested) {id : Nat} {run : Run}
    (hrun : db.runs[id]? = some run) {change : Run → Run}
    (hnone : (change run).registered? = none) : Tally (n + 1) earlier others
      ((db.endRegistration (.silent σ) run.registered?).updateRun id change) := by
  obtain ⟨runs, hruns⟩ : ∃ runs, runs = db.runs.modify id change := ⟨_, rfl⟩
  have hguards := guardsOf_modify hrun change others
  rw [hnone, bump_none, ← hruns, bump_guardsOf] at hguards
  rw [Tally, ← hguards] at h
  have hended := h.endRegistration fun id _ => hattested.unneeded h id
  have hafter : ((db.endRegistration (.silent σ) run.registered?).updateRun id change).runs =
      runs := by
    rw [hruns, ← (beside_endRegistration run.registered? db).runs]
    rfl
  rw [← queries_endRegistration run.registered? db] at hended
  rw [Tally, hafter]
  exact hended

theorem Tally.cancel (h : Tally n earlier others db) (id : Nat) :
    Tally n earlier others (db.cancel id).1 := by
  rw [Database.cancel]
  split
  · exact h
  · exact h.updateRun fun _ _ => rfl

/-- Runs that wait for a permit have none. -/
def Lined (db : Database σ) : Prop :=
  ∀ id ∈ db.waiting, ∀ run, db.runs[id]? = some run → run.stage = .waiting

theorem registered?_permitted {run : Run} (hstage : run.stage = .waiting) :
    Run.registered? { run with stage := .admitted } = run.registered? := by
  simp only [Run.registered?, hstage]
  cases run.registration <;> rfl

theorem Tally.takePermit (h : Tally n earlier others db) {id : Nat}
    (hstage : ∀ run, db.runs[id]? = some run → run.stage = .waiting) :
    Tally n earlier others (db.takePermit id) := by
  have hpermitted : Tally n earlier others
      (db.updateRun id fun run => { run with stage := .admitted }) :=
    h.updateRun fun run hrun => registered?_permitted (hstage run hrun)
  rw [Database.takePermit]
  split
  · exact hpermitted
  · exact h

theorem Tally.givePermit (h : Tally n earlier others db) (hlined : db.Lined) :
    Tally n earlier others db.givePermit := by
  rw [Database.givePermit]
  split
  · exact h
  next next rest hwaiting =>
    have hrest : Tally n earlier others { db with waiting := rest } := h
    exact hrest.updateRun fun run hrun =>
      registered?_permitted (hlined next (hwaiting ▸ List.mem_cons_self) run hrun)

theorem Tally.wakeRecipient (h : Tally n earlier others db) (recipient : Recipient) :
    Tally n earlier others (db.wakeRecipient recipient) := by
  cases recipient <;> exact h

/-- The run has no scan registered. -/
def Free (id : Nat) (db : Database σ) : Prop :=
  ∀ run, db.runs[id]? = some run → run.registered? = none

theorem Tally.deliver (h : Tally n earlier others db) {id : Nat} (hfree : Free id db)
    (recipient : Recipient) (outcome : Outcome) :
    Tally n earlier others (db.deliver (.silent σ) id recipient outcome) := by
  have hended : ∀ run : Run,
      Run.registered? { run with stage := .ended, outcome := some outcome } = none := fun _ => rfl
  rw [Stance.deliver_silent]
  exact (h.updateRun fun run hrun => (hended run).trans (hfree run hrun).symm).wakeRecipient
    recipient

theorem free_updateRun (hfree : Free id db) {change : Run → Run}
    (hchange : ∀ run, (change run).registered? = run.registered?) :
    Free id (db.updateRun id change) := by
  intro run hrun
  rw [Database.updateRun, List.getElem?_modify] at hrun
  obtain ⟨old, hold, rfl⟩ := Option.map_eq_some_iff.1 hrun
  rw [if_pos rfl, hchange]
  exact hfree old hold

theorem Tally.conclude (h : Tally n earlier others db) {id : Nat} (hfree : Free id db) (run : Run)
    {outcome : Database σ → Database σ × Outcome}
    (hkept : ∀ {db}, Tally n earlier others db → Tally n earlier others (outcome db).1)
    (hruns : ∀ db, (outcome db).1.runs = db.runs) :
    Tally n earlier others (db.conclude (.silent σ) id run outcome) := by
  rw [Database.conclude]
  split
  next control _ =>
    have hdone : Tally n earlier others
        (db.updateRun id fun run => { run with control := control }) := h.updateRun fun _ _ => rfl
    have hfree' := free_updateRun hfree (fun _ => rfl : ∀ run : Run,
      Run.registered? { run with control := control } = run.registered?)
    refine (hkept hdone).deliver (fun found hfound => hfree' found ?_) run.recipient _
    rw [hruns] at hfound
    exact hfound
  next =>
    have hcounted : Tally n earlier others (db.countCancelled "after_start") := h
    exact hcounted.deliver hfree run.recipient _

theorem free_givePermit {run : Run} (hwaiting : id ∉ db.waiting) (hrun : db.runs[id]? = some run)
    (hnone : run.registered? = none) : Free id db.givePermit := by
  intro found hfound
  rw [Stance.runs_givePermit hwaiting, hrun] at hfound
  cases hfound
  exact hnone

theorem Tally.finishRun (h : Tally n earlier others db) (hlined : db.Lined) {id : Nat}
    (hwaiting : id ∉ db.waiting) {run : Run} (hrun : db.runs[id]? = some run)
    {result : Except IndexError Answer} (hstage : run.stage = .scanned result) :
    Tally n earlier others (db.finishRun (.silent σ) id result) := by
  have hnone : run.registered? = none := by rw [Run.registered?, hstage]
  simp only [Database.finishRun, hrun]
  refine (h.givePermit hlined).conclude (free_givePermit hwaiting hrun hnone) run
    (fun h => h.complete _ _ _) fun db => ?_
  cases result <;> rfl

theorem attested_givePermit (h : db.Attested) : db.givePermit.Attested := by
  rw [Database.givePermit]
  split <;> exact h

theorem Lined.updateRun (h : db.Lined) {id : Nat} (hwaiting : id ∉ db.waiting)
    (change : Run → Run) : (db.updateRun id change).Lined := by
  intro other hother run hrun
  have hne : id ≠ other := fun heq => hwaiting (heq ▸ hother)
  rw [Database.updateRun, List.getElem?_modify_ne _ _ hne] at hrun
  exact h other hother run hrun

/-- A run that was cancelled before it started gives up what it has registered. -/
theorem Tally.abandonRun (h : Tally n earlier others db) (hattested : db.Attested)
    (hlined : db.Lined) {id : Nat} (hwaiting : id ∉ db.waiting) {run : Run}
    (hrun : db.runs[id]? = some run) : Tally (n + 1) earlier others
      ((db.givePermit.endRegistration (.silent σ) run.registered?).abandon id run.recipient) := by
  have hgiven := h.givePermit hlined
  have hrun' : db.givePermit.runs[id]? = some run := (Stance.runs_givePermit hwaiting).trans hrun
  exact (hgiven.leave (attested_givePermit hattested) hrun' rfl).wakeRecipient run.recipient

/-- A run ends at once if its scan was refused when it was submitted. -/
theorem Tally.refuseRun (h : Tally n earlier others db) (hlined : db.Lined) {id : Nat}
    (hwaiting : id ∉ db.waiting) {run : Run} (hrun : db.runs[id]? = some run)
    (hnone : run.registered? = none) (error : QueryError) :
    Tally n earlier others
      (((db.updateRun id fun run => { run with control := .running }).count fun m =>
        { m with failed := m.failed + 1 }).givePermit.conclude (.silent σ) id
          { run with control := .running } fun db => (db, .error error)) := by
  obtain ⟨running, hrunning⟩ : ∃ running, running =
      db.updateRun id fun run => { run with control := .running } := ⟨_, rfl⟩
  have hstarted : Tally n earlier others running := by
    rw [hrunning]
    exact h.updateRun fun _ _ => rfl
  have hlined' : running.Lined := by
    rw [hrunning]
    exact hlined.updateRun hwaiting _
  have hrun' : running.runs[id]? = some { run with control := .running } := by
    simp [hrunning, Database.updateRun, hrun]
  have hwaiting' : id ∉ running.waiting := by
    rw [hrunning]
    exact hwaiting
  have hcounted : Tally n earlier others
      (running.count fun m => { m with failed := m.failed + 1 }) := hstarted
  rw [← hrunning]
  exact (hcounted.givePermit hlined').conclude (free_givePermit hwaiting' hrun' hnone) _
    (fun h => h) fun _ => rfl

theorem Tally.startRun (h : Tally n earlier others db) (hattested : db.Attested)
    (hlined : db.Lined) {id : Nat} (hwaiting : id ∉ db.waiting) {run : Run}
    (hrun : db.runs[id]? = some run) (hstage : run.stage = .admitted) :
    Tally (n + 1) earlier others (db.startRun (.silent σ) id) := by
  have hregistered : run.registered? = registered? run.registration := by
    rw [Run.registered?, hstage]
    cases run.registration <;> rfl
  cases hcontrol : run.control with
  | pending =>
    cases hregistration : run.registration with
    | error error =>
      simp only [Database.startRun, hrun, hcontrol, Control.start, hregistration]
      rw [hregistration] at hregistered
      exact Squares.mono (h.refuseRun hlined hwaiting hrun hregistered error) (Nat.le_succ n)
    | ok temporary =>
      simp only [Database.startRun, hrun, hcontrol, Control.start, hregistration]
      refine Squares.mono (h.updateRun fun found hfound => ?_) (Nat.le_succ n)
      rw [hrun] at hfound
      cases hfound
      simp only [Run.registered?, hstage]
      cases run.registration <;> rfl
  | _ =>
    have hcounted : Tally n earlier others (db.countCancelled "before_start") := h
    have habandoned := hcounted.abandonRun hattested hlined hwaiting hrun
    cases hregistration : run.registration <;>
      simp only [Database.startRun, hrun, hcontrol, Control.start, hregistration] <;>
      simpa only [hregistered, hregistration, registered?, Database.endRegistration]
        using habandoned

theorem Tally.pollRun (h : Tally n earlier others db) (hattested : db.Attested) (hlined : db.Lined)
    {id : Nat} (hwaiting : id ∉ db.waiting) :
    Tally (n + 1) earlier others (db.pollRun (.silent σ) id) := by
  cases hrun : db.runs[id]? with
  | none =>
    simp only [Database.pollRun, hrun, Option.map_none]
    exact h.mono (Nat.le_succ n)
  | some run =>
    simp only [Database.pollRun, hrun, Option.map_some]
    cases hstage : run.stage with
    | waiting =>
      have htaken : Tally n earlier others (db.takePermit id) := h.takePermit fun found hfound => by
        rw [hrun] at hfound
        cases hfound
        exact hstage
      dsimp only
      split
      next hpermits =>
        rw [Database.takePermit, if_pos hpermits] at htaken ⊢
        have hrun' : (db.updateRun id fun run => { run with stage := .admitted }).runs[id]? =
            some { run with stage := .admitted } := by simp [Database.updateRun, hrun]
        exact htaken.startRun hattested (hlined.updateRun hwaiting _) hwaiting hrun' rfl
      next => exact htaken.mono (Nat.le_succ n)
    | admitted => exact h.startRun hattested hlined hwaiting hrun hstage
    | scanned result => exact (h.finishRun hlined hwaiting hrun hstage).mono (Nat.le_succ n)
    | _ => exact h.mono (Nat.le_succ n)

theorem Tally.scanRun (h : Tally n earlier others db) (hattested : db.Attested) (id : Nat) :
    Tally (n + 1) earlier others (db.scanRun (.silent σ) id) := by
  rw [Database.scanRun]
  split
  · exact h.mono (Nat.le_succ n)
  next run hrun =>
    have hcleared : Tally n earlier others
        { db with scanning := db.scanning.filter (· != id) } := h
    have hscanned := hcleared.scan run.request
    exact hscanned.leave (hattested.congr (Store.later_scan _ _).subscriptions rfl rfl) hrun rfl

end Database

end Viewbase
