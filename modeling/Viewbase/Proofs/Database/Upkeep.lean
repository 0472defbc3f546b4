import Viewbase.Proofs.Database.Subscribers
import Viewbase.Proofs.Database.Tally

/-!
The accounts of temporary indexes in what live queries do, and in every action.

A live query has a query of its own, and that query gets a share like any other.  It gives the share
up only once it is stopped, so nobody is subscribed to the index any more when the last share goes
(`Tended`).  Hence every action that leaves temporary indexes to queries keeps the accounts
(`Tally.perform`).
-/

namespace Viewbase

namespace Database

variable {σ : Type} {db db' : Database σ} {n id : Nat} {earlier : List Temporary}
  {others : Nat → Nat}

/-! ## Live queries and their queries -/

/-- What the accounts need to know of live queries: a started one is held and has a query that was
not given up, each has a query of its own, and their subscriptions are theirs. -/
structure Tended (db : Database σ) : Prop where
  booked : db.Booked
  backed : ∀ live ∈ db.lives, live.phase ≠ .stopped → ∃ query : Query,
    db.queries[live.query]? = some query ∧ query.disposed = false ∧ query.index = some live.index
  apart : ∀ (id other : Nat) (live live' : LiveQuery), db.lives[id]? = some live →
    db.lives[other]? = some live' → live.query = live'.query → id = other
  held : ∀ live ∈ db.lives, live.held = false → live.phase = .stopped

theorem Tended.attested (h : db.Tended) : db.Attested := by
  intro sub hsub
  cases hobserver : sub.observer with
  | client callback => exact .inl ⟨callback, rfl⟩
  | live id epoch =>
    obtain ⟨live, hlive, hstarted, -, hindex, -⟩ := h.booked sub hsub id epoch hobserver
    have hmem := List.mem_of_getElem? hlive
    obtain ⟨query, hquery, hdisposed, hreads⟩ := h.backed live hmem hstarted
    exact .inr ⟨live, hmem, hstarted, query, hquery, hdisposed, live.index, hreads, hindex⟩

/-- Nobody else runs the query of a stopped live query. -/
theorem Tended.quiet (h : db.Tended) {live : LiveQuery} (hlive : db.lives[id]? = some live)
    (hstopped : live.phase = .stopped) : Quiet live.query db := by
  intro other hother hquery
  obtain ⟨i, hi⟩ := List.mem_iff_getElem?.1 hother
  have hsame := h.apart i id other live hi hlive hquery
  subst hsame
  rw [hlive] at hi
  cases hi
  exact hstopped

theorem Tended.congr (h : db.Tended) (hlives : db'.lives = db.lives)
    (hsubscriptions : db'.store.subscriptions = db.store.subscriptions)
    (hqueries : db'.queries = db.queries) : db'.Tended where
  booked := by
    intro sub hsub id epoch hobserver
    rw [hlives]
    exact h.booked sub (hsubscriptions ▸ hsub) id epoch hobserver
  backed := by
    rw [hlives, hqueries]
    exact h.backed
  apart := by
    rw [hlives]
    exact h.apart
  held := by
    rw [hlives]
    exact h.held

/-- A live query may be let go of while it is stopped. -/
theorem Tended.updateLive (h : db.Tended) (id : Nat) {change : LiveQuery → LiveQuery}
    (hstays : ∀ live, db.lives[id]? = some live → live.Stays (change live))
    (hheld : ∀ live, db.lives[id]? = some live → (change live).held = false →
      live.phase = .stopped) : (db.updateLive id change).Tended := by
  have hfrom : ∀ {other : Nat} {live' : LiveQuery},
      (db.updateLive id change).lives[other]? = some live' → ∃ live, db.lives[other]? = some live ∧
        live.Stays live' ∧ (live'.held = false → live.phase = .stopped) := by
    intro other live' hlive'
    rw [Database.updateLive, List.getElem?_modify] at hlive'
    obtain ⟨live, hlive, rfl⟩ := Option.map_eq_some_iff.1 hlive'
    refine ⟨live, hlive, ?_⟩
    split
    next heq =>
      subst heq
      exact ⟨hstays live hlive, hheld live hlive⟩
    next => exact ⟨.refl live, h.held live (List.mem_of_getElem? hlive)⟩
  refine ⟨h.booked.calm (calm_updateLive id db hstays), ?_, ?_, ?_⟩
  · intro live' hmem hstarted
    obtain ⟨other, hother⟩ := List.mem_iff_getElem?.1 hmem
    obtain ⟨live, hlive, hstay, -⟩ := hfrom hother
    rw [hstay.query, hstay.index]
    exact h.backed live (List.mem_of_getElem? hlive) fun hstopped =>
      hstarted (hstay.stopped.2 hstopped)
  · intro i j live live' hi hj hsame
    obtain ⟨old, hold, hstay, -⟩ := hfrom hi
    obtain ⟨old', hold', hstay', -⟩ := hfrom hj
    exact h.apart i j old old' hold hold' (hstay.query.symm.trans (hsame.trans hstay'.query))
  · intro live' hmem hfree
    obtain ⟨other, hother⟩ := List.mem_iff_getElem?.1 hmem
    obtain ⟨live, -, hstay, hstopped⟩ := hfrom hother
    exact hstay.stopped.2 (hstopped hfree)

theorem queries_stopLive (id : Nat) (db : Database σ) :
    (db.stopLive id).queries = db.queries := by
  rw [stopLive]
  split
  · rfl
  next live _ =>
    split
    · rfl
    · have hended : ∀ db : Database σ,
          ((db.cancelRunning live.running).endSubscription live.token).queries = db.queries := by
        intro db
        cases live.token <;> cases live.running <;> try rfl
        all_goals
          simp only [endSubscription, cancelRunning, cancel]
          split <;> rfl
      exact hended _

/-- A live query is as before a stop of one, or it was stopped. -/
theorem exists_of_stopLive {other : Nat} {live' : LiveQuery}
    (h : (db.stopLive id).lives[other]? = some live') : ∃ live, db.lives[other]? = some live ∧
      live'.query = live.query ∧ live'.index = live.index ∧ live'.held = live.held ∧
        (live'.phase = live.phase ∨ live'.phase = .stopped) := by
  rw [stopLive] at h
  split at h
  · exact ⟨live', h, rfl, rfl, rfl, .inl rfl⟩
  next stopped _ =>
    split at h
    · exact ⟨live', h, rfl, rfl, rfl, .inl rfl⟩
    · simp only [note, Stance.lives_endSubscription, Stance.lives_cancelRunning,
        Database.updateLive, List.getElem?_modify] at h
      obtain ⟨live, hlive, rfl⟩ := Option.map_eq_some_iff.1 h
      refine ⟨live, hlive, ?_⟩
      split
      · exact ⟨rfl, rfl, rfl, .inr rfl⟩
      · exact ⟨rfl, rfl, rfl, .inl rfl⟩

theorem Tended.stopLive (h : db.Tended) (id : Nat) : (db.stopLive id).Tended where
  booked := h.booked.stopLive id
  backed := by
    intro live' hmem hstarted
    obtain ⟨other, hother⟩ := List.mem_iff_getElem?.1 hmem
    obtain ⟨live, hlive, hquery, hindex, -, hphase⟩ := exists_of_stopLive hother
    rw [queries_stopLive, hquery, hindex]
    exact h.backed live (List.mem_of_getElem? hlive)
      ((hphase.resolve_right hstarted) ▸ hstarted)
  apart := by
    intro i j live live' hi hj hsame
    obtain ⟨old, hold, hquery, -⟩ := exists_of_stopLive hi
    obtain ⟨old', hold', hquery', -⟩ := exists_of_stopLive hj
    exact h.apart i j old old' hold hold' (hquery.symm.trans (hsame.trans hquery'))
  held := by
    intro live' hmem hfree
    obtain ⟨other, hother⟩ := List.mem_iff_getElem?.1 hmem
    obtain ⟨live, hlive, -, -, hheld, hphase⟩ := exists_of_stopLive hother
    rcases hphase with hsame | hstopped
    · exact hsame.trans (h.held live (List.mem_of_getElem? hlive) (hheld ▸ hfree))
    · exact hstopped

/-! ## Starts and stops -/

theorem Tally.makeLive (h : Tally n earlier others db) (query : Nat) :
    Tally n earlier others (db.makeLive query).1 := by
  have hcopied := h.copyQuery query
  rw [Database.makeLive]
  split
  · exact h
  split
  next heq =>
    rw [heq] at hcopied
    exact hcopied
  next heq =>
    rw [heq] at hcopied
    exact hcopied

theorem Tally.startLive (h : Tally n earlier others db) (id : Nat) :
    Tally n earlier others (db.startLive id).1 := by
  rw [Database.startLive]
  split
  · exact h
  next live _ =>
    split
    · exact h
    split
    · exact h
    dsimp only
    split
    next => exact h
    next token store hsubscribe =>
      have hspares := h.ledger.houses.subscribe (fun _ hclient => by cases hclient) hsubscribe
      have hsubscribed : Tally n earlier others { db with store := store } :=
        Squares.spares h hspares
      exact hsubscribed

theorem Tally.stopLive (h : Tally n earlier others db) (id : Nat) :
    Tally n earlier others (db.stopLive id) := by
  have hcancelled : ∀ {db : Database σ} (running : Option Nat), Tally n earlier others db →
      Tally n earlier others (db.cancelRunning running) := by
    rintro db (_ | run) h
    · exact h
    · exact h.cancel run
  have hended : ∀ {db : Database σ} (token : Option Token), Tally n earlier others db →
      Tally n earlier others (db.endSubscription token) := by
    rintro db (_ | token) h
    · exact h
    · exact Squares.spares h (h.ledger.houses.unsubscribe token)
  rw [Database.stopLive]
  split
  · exact h
  next live _ =>
    split
    · exact h
    · have hstopped : ∀ change, Tally n earlier others (db.updateLive id change) := fun _ => h
      exact hended live.token (hcancelled live.running (hstopped _))

theorem Tally.disposeLive (h : Tally n earlier others db) (htended : db.Tended) (id : Nat) :
    Tally (n + 1) earlier others (db.disposeLive (.silent σ) id) := by
  rw [Database.disposeLive]
  split
  · exact h.mono (Nat.le_succ n)
  next live hlive =>
    split
    · exact h.mono (Nat.le_succ n)
    · obtain ⟨marked, hmarked⟩ : ∃ marked,
          marked = db.updateLive id fun live => { live with disposed := true } := ⟨_, rfl⟩
      have hmarkedTally : Tally n earlier others marked := hmarked ▸ h
      have hmarkedTended : marked.Tended := by
        rw [hmarked]
        exact htended.updateLive id (fun _ _ => ⟨rfl, rfl, rfl, rfl, .rfl, fun _ => ⟨rfl, rfl⟩⟩)
          fun live hlive => htended.held live (List.mem_of_getElem? hlive)
      have hlive' : marked.lives[id]? = some { live with disposed := true } := by
        simp [hmarked, Database.updateLive, hlive]
      obtain ⟨stopped, hstopped, hphase, -, hquery⟩ := Stance.lives_stopLive hlive'
      have hended := hmarkedTended.stopLive id
      have hquiet := hended.quiet hstopped hphase
      rw [hquery] at hquiet
      rw [← hmarked]
      exact (hmarkedTally.stopLive id).release hended.attested hquiet

theorem Tally.reap (h : Tally n earlier others db) (htended : db.Tended) (id : Nat) :
    Tally (n + 1) earlier others (db.reap (.silent σ) id) := by
  rw [Database.reap]
  split
  · exact h.mono (Nat.le_succ n)
  next live hlive =>
    split
    · exact h.mono (Nat.le_succ n)
    next hfree =>
      have hheld : live.held = false := by
        rw [Bool.or_eq_true, not_or] at hfree
        exact Bool.of_not_eq_true hfree.1
      exact h.dropQuery htended.attested
        (htended.quiet hlive (htended.held live (List.mem_of_getElem? hlive) hheld))

theorem Tally.dropLive (h : Tally n earlier others db) (htended : db.Tended) (id : Nat) :
    Tally (n + 1) earlier others (db.dropLive (.silent σ) id) := by
  rw [Database.dropLive]
  have hfree : Tally n earlier others
      ((db.stopLive id).updateLive id fun live => { live with held := false }) := h.stopLive id
  refine hfree.reap ((htended.stopLive id).updateLive id
    (fun _ _ => ⟨rfl, rfl, rfl, rfl, .rfl, fun _ => ⟨rfl, rfl⟩⟩) fun live hlive _ => ?_) id
  cases hbefore : db.lives[id]? with
  | none =>
    rw [Database.stopLive, hbefore] at hlive
    rw [hbefore] at hlive
    cases hlive
  | some before =>
    obtain ⟨stopped, hstopped, hphase, -, -⟩ := Stance.lives_stopLive hbefore
    rw [hstopped] at hlive
    cases hlive
    exact hphase

/-! ## Refreshes and changes -/

theorem tended_submit (h : db.Tended) (id : Nat) (recipient : Recipient) :
    (db.submit id recipient).1.Tended := by
  obtain ⟨noted, hbeside, -, hqueries, hsubmit⟩ := Stance.exists_submit id recipient db
  rw [hsubmit]
  exact h.congr hbeside.lives hbeside.store.subscriptions hqueries

theorem tended_executeLive (h : db.Tended) (task id epoch : Nat) :
    (db.executeLive task id epoch).Tended := by
  have hover : ∀ {db : Database σ} (change : Refresh → Refresh), db.Tended →
      (db.updateRefresh task change).Tended := fun _ h => h.congr rfl rfl rfl
  rw [executeLive]
  split
  · exact h
  next live _ =>
    split
    · exact hover _ h
    · have hsubmitted := tended_submit h live.query (.refresh task)
      exact hover _ (hsubmitted.updateLive id
        (fun _ _ => ⟨rfl, rfl, rfl, rfl, .rfl, fun _ => ⟨rfl, rfl⟩⟩)
        fun live hlive => hsubmitted.held live (List.mem_of_getElem? hlive))

theorem Tally.executeLive (h : Tally n earlier others db) (task id epoch : Nat) :
    Tally n earlier others (db.executeLive task id epoch) := by
  rw [Database.executeLive]
  split
  · exact h
  next live _ =>
    split
    · exact h
    · exact h.submit live.query (.refresh task)

theorem Tally.pollRefresh (h : Tally n earlier others db) (htended : db.Tended) {task : Nat}
    (hawaits : ∀ refresh, db.refreshes[task]? = some refresh →
      ∀ run, refresh.stage ≠ .awaiting run) :
    Tally (n + 1) earlier others (db.pollRefresh (.silent σ) task) := by
  have hstays := Squares.mono h (Nat.le_succ n)
  rw [Database.pollRefresh]
  split
  · exact hstays
  next refresh hrefresh =>
    have hexecuted := (h.executeLive task refresh.live refresh.epoch).reap
      (tended_executeLive htended task refresh.live refresh.epoch) refresh.live
    split
    · exact hexecuted
    · exact hstays
    · exact hexecuted
    next run hstage => exact absurd hstage (hawaits refresh hrefresh run)
    · exact hstays
    · exact hstays

theorem Tally.recordVerdict (h : Tally n earlier others db) (live : LiveQuery)
    (verdict : LiveQuery.Verdict) : Tally n earlier others (db.recordVerdict live verdict) := by
  cases verdict <;> exact h

theorem Tally.settleLive (h : Tally n earlier others db) (id : Nat) (live : LiveQuery) :
    Tally n earlier others (db.settleLive id live) := by
  rw [Database.settleLive]
  split <;> exact h

theorem Tally.finishLive (h : Tally n earlier others db) (id epoch : Nat) (outcome : Outcome) :
    Tally n earlier others (db.finishLive (.silent σ) id epoch outcome) := by
  rw [Database.finishLive]
  split
  · exact h
  next live _ =>
    split
    · exact h
    · have htaken : Tally n earlier others
          ((db.recordVerdict live (live.judge outcome)).updateLive id fun other =>
            { other.absorb (live.judge outcome) with running := none }) :=
        h.recordVerdict live (live.judge outcome)
      have hsettled := htaken.settleLive id live
      simp only [Stance.tellListeners_silent]
      split <;> exact hsettled

theorem Tally.notifyOne (h : Tally n earlier others db) (change : Change) (observer : Observer) :
    Tally n earlier others (db.notifyOne (.silent σ) change observer) := by
  cases observer with
  | client callback => exact h
  | live id epoch =>
    rw [Database.notifyOne, changeLive]
    split
    · exact h
    split
    · exact h
    split <;> exact h

theorem Tally.fireNext (h : Tally n earlier others db) : Tally n earlier others db.fireNext := by
  obtain ⟨clock, timers, refreshes, ready, heq, -⟩ := exists_fireNext db
  rw [heq]
  exact h

/-! ## Actions -/

/-- The index is not a temporary one. -/
def Foreign (db : Database σ) (index : Descriptor) : Prop :=
  ∀ record ∈ db.temporaries, record.index.id ≠ index.id

/-- The client leaves temporary indexes to the queries over them: it deletes no temporary index and
subscribes to none, takes and releases no share but through queries, and makes a query by its index
only over another index that the store has numbered. -/
def Orderly (db : Database σ) : Action → Prop
  | .deleteIndex index => db.Foreign index
  | .subscribe index _ => db.Foreign index
  | .queryIndex index => index.id.number ≤ db.store.numbered ∧ db.Foreign index
  | .acquireOwner _ => False
  | .releaseOwner _ => False
  | .releaseDeferred _ => False
  | .deleteTemporary _ => False
  | .beginScan _ => False
  | .endScan _ => False
  | _ => True

theorem Foreign.not_mem {index : Descriptor} (h : db.Foreign index) :
    index.id ∉ db.temporaries.map fun record => record.index.id := by
  intro hmem
  obtain ⟨record, hrecord, heq⟩ := List.mem_map.1 hmem
  exact h record hrecord heq

theorem Tally.deleteIndex (h : Tally n earlier others db) {index : Descriptor}
    (hforeign : db.Foreign index) :
    Tally n earlier others (db.deleteIndex (.silent σ) index).1 := by
  simp only [Database.deleteIndex, Client.silent]
  split
  next store hstore => exact Squares.spares h (h.ledger.houses.deleteOther hforeign.not_mem hstore)
  next => exact h

theorem Tally.subscribe (h : Tally n earlier others db) {index : Descriptor}
    (hforeign : db.Foreign index) (callback : Nat) :
    Tally n earlier others (db.command (.subscribe index (.client callback))) := by
  simp only [command, Store.perform]
  split
  next hsubscribe =>
    exact Squares.spares h (h.ledger.houses.subscribe (fun _ _ => hforeign.not_mem) hsubscribe)
  next => exact h

theorem Tally.queryIndex (h : Tally n earlier others db) {index : Descriptor}
    (hknown : index.id.number ≤ db.store.numbered) (hforeign : db.Foreign index) :
    Tally n earlier others (db.queryIndex index).1 := by
  refine h.addQuery rfl ⟨nofun, fun _ _ other hother => ?_⟩
  cases hother
  exact ⟨hknown, hforeign⟩

theorem Tally.go (h : Tally n earlier others db) (htended : db.Tended) (hlined : db.Lined)
    (hapart : Stance.RunsApart db) {job : Job} (htells : db.TellsNobody (.go job)) :
    Tally (n + 1) earlier others (db.go (.silent σ) job) := by
  rw [Database.go]
  split
  next hready =>
    have htaken : Tally n earlier others { db with ready := db.ready.erase job } := h
    cases job with
    | run id => exact htaken.pollRun htended.attested hlined (hapart id (by simpa using hready))
    | refresh task => exact htaken.pollRefresh (htended.congr rfl rfl rfl) htells
  next => exact h.mono (Nat.le_succ n)

/-- An action that leaves temporary indexes to queries deletes at most one, and only if nothing of
its accounts is left. -/
theorem Tally.perform (h : Tally n earlier others db) (htended : db.Tended) (hlined : db.Lined)
    (hapart : Stance.RunsApart db) {action : Action} (hpermitted : db.Permits action)
    (htells : db.TellsNobody action) (horderly : db.Orderly action) :
    Tally (n + 1) earlier others (db.perform (.silent σ) action) := by
  have hstays : ∀ {db : Database σ}, Tally n earlier others db → Tally (n + 1) earlier others db :=
    fun h => Squares.mono h (Nat.le_succ n)
  cases action with
  | put | delete | addConflict | resolveConflicts => exact htells.elim
  | acquireOwner | releaseOwner | releaseDeferred | deleteTemporary | beginScan | endScan =>
    exact horderly.elim
  | defineView name map reduce =>
    exact hstays (Squares.spares h (h.ledger.houses.defineView name map reduce))
  | deleteIndex index => exact hstays (h.deleteIndex horderly)
  | subscribe index callback => exact hstays (h.subscribe horderly callback)
  | unsubscribe token => exact hstays (Squares.spares h (h.ledger.houses.unsubscribe token))
  | scan request => exact hstays (h.scan request)
  | queryIndex index => exact hstays (h.queryIndex horderly.1 horderly.2)
  | queryDocuments => exact hstays (h.addQuery rfl ⟨nofun, nofun⟩)
  | queryMap map => exact hstays (h.queryMap map)
  | copyQuery query => exact hstays (h.copyQuery query)
  | configure query change => exact hstays (h.updateQuery query fun _ => ⟨rfl, rfl, rfl⟩)
  | disposeQuery query => exact h.dispose htended.attested hpermitted.quiet
  | dropQuery query => exact h.dropQuery htended.attested hpermitted.quiet
  | runQuery query => exact h.runQuery htended.attested query
  | submit query recipient => exact hstays (h.submit query recipient)
  | cancel run => exact hstays (h.cancel run)
  | makeLive query => exact hstays (h.makeLive query)
  | startLive live => exact hstays (h.startLive live)
  | stopLive live => exact hstays (h.stopLive live)
  | disposeLive live => exact h.disposeLive htended live
  | dropLive live => exact h.dropLive htended live
  | addListener live callback => exact hstays h
  | removeListener live callback =>
    simp only [Database.perform, removeListener]
    split
    · exact hstays h
    · exact hstays h
  | go job => exact h.go htended hlined hapart htells
  | scanRun run =>
    simp only [Database.perform, endRunScan]
    split
    · exact h.scanRun htended.attested run
    · exact hstays h
  | fire => exact hstays h.fireNext

end Database

end Viewbase
