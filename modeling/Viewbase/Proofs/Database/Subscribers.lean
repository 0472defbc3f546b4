import Viewbase.Proofs.Database.Resting

/-!
The subscriptions of live queries.

A subscription of a live query is the one that it holds, in its present epoch, and is there only
while the live query is started (`Booked`).  So news is told to no epoch that is yet to come.
-/

namespace Viewbase

namespace Database

variable {σ : Type} {db db' : Database σ} {id : Nat}

/-- Every subscription of a live query belongs to one that is started, in the epoch of the
subscription. -/
def Booked (db : Database σ) : Prop :=
  ∀ sub ∈ db.store.subscriptions, ∀ id epoch, sub.observer = .live id epoch →
    ∃ live, db.lives[id]? = some live ∧ live.phase ≠ .stopped ∧ live.token = some sub.token ∧
      live.index.id = sub.index ∧ live.epoch = epoch

theorem getElem?_updateLive_ne {other : Nat} (hother : other ≠ id) (change : LiveQuery → LiveQuery)
    (db : Database σ) : (db.updateLive id change).lives[other]? = db.lives[other]? := by
  simp [updateLive, Ne.symm hother]

theorem Booked.calm (h : db.Booked) (hcalm : Calm db db') : db'.Booked := by
  intro sub hsub id epoch hobserver
  rw [hcalm.subscriptions] at hsub
  obtain ⟨live, hlive, hstarted, htoken, hindex, hepoch⟩ := h sub hsub id epoch hobserver
  obtain ⟨live', hlive', hstays⟩ := hcalm.lives id live hlive
  exact ⟨live', hlive', fun hstopped => hstarted (hstays.stopped.1 hstopped),
    hstays.token.trans htoken, by rw [hstays.index, hindex], hstays.epoch.trans hepoch⟩

theorem Booked.begins (h : db.Booked) (hbegins : Begins db db') : db'.Booked := by
  intro sub hsub id epoch hobserver
  rw [hbegins.subscriptions] at hsub
  rw [hbegins.lives]
  exact h sub hsub id epoch hobserver

theorem Booked.subscribe (h : db.Booked) (index : Descriptor) (callback : Nat) :
    (db.command (.subscribe index (.client callback))).Booked := by
  simp only [command, Store.perform]
  split
  next hsubscribe =>
    obtain ⟨-, -, rfl⟩ := Store.subscribe_eq_ok hsubscribe
    intro sub hsub id epoch hobserver
    rcases List.mem_append.1 hsub with hold | hnew
    · exact h sub hold id epoch hobserver
    · cases List.mem_singleton.1 hnew
      cases hobserver
  next => exact h

theorem Booked.unsubscribe (h : db.Booked) (token : Token) :
    Booked { db with store := db.store.unsubscribe token } := by
  intro sub hsub id epoch hobserver
  exact h sub (List.mem_filter.1 hsub).1 id epoch hobserver

/-- A live query that is stopped has no subscription any more. -/
theorem Booked.stopLive (h : db.Booked) (id : Nat) : (db.stopLive id).Booked := by
  cases hlive : db.lives[id]? with
  | none => rwa [Database.stopLive, hlive]
  | some live =>
    simp only [Database.stopLive, hlive]
    split
    · exact h
    · intro sub hsub other epoch hobserver
      obtain ⟨stopped, hstopped⟩ : ∃ stopped, stopped = db.updateLive id fun live =>
          { live with epoch := live.epoch + 1, phase := .stopped, running := none, token := none } :=
        ⟨_, rfl⟩
      rw [← hstopped] at hsub ⊢
      have hcancelled := aside_cancelRunning live.running stopped
      have hold : sub ∈ db.store.subscriptions ∧ live.token ≠ some sub.token := by
        have hsame : (stopped.cancelRunning live.running).store.subscriptions =
            db.store.subscriptions := by rw [hcancelled.subscriptions, hstopped]; rfl
        cases htoken : live.token with
        | none =>
          rw [htoken] at hsub
          exact ⟨hsame ▸ hsub, by simp⟩
        | some token =>
          rw [htoken] at hsub
          obtain ⟨hmem, hne⟩ := List.mem_filter.1 hsub
          exact ⟨hsame ▸ hmem, fun heq => by simp_all⟩
      obtain ⟨holder, hholder, hbooked⟩ := h sub hold.1 other epoch hobserver
      have hother : other ≠ id := by
        rintro rfl
        rw [hlive] at hholder
        cases hholder
        exact hold.2 hbooked.2.1
      refine ⟨holder, ?_, hbooked⟩
      show ((stopped.cancelRunning live.running).endSubscription live.token).lives[other]? = _
      rw [Stance.lives_endSubscription, hcancelled.lives, hstopped,
        getElem?_updateLive_ne hother, hholder]

theorem Booked.startLive (h : db.Booked) (id : Nat) : (db.startLive id).1.Booked := by
  cases hlive : db.lives[id]? with
  | none => rwa [Database.startLive, hlive]
  | some live =>
    simp only [Database.startLive, hlive]
    split
    · exact h
    split
    · exact h
    next hrunning =>
      have hstopped : live.phase = .stopped := by simpa [LiveQuery.isRunning] using hrunning
      -- So no subscription is one of this live query.
      have hnone : ∀ sub ∈ db.store.subscriptions, ∀ other epoch, sub.observer = .live other epoch →
          other ≠ id := by
        rintro sub hsub other epoch hobserver rfl
        obtain ⟨holder, hholder, hstarted, -⟩ := h sub hsub other epoch hobserver
        rw [hlive] at hholder
        cases hholder
        exact hstarted hstopped
      split
      next =>
        intro sub hsub other epoch hobserver
        obtain ⟨holder, hholder, hbooked⟩ := h sub hsub other epoch hobserver
        have hother := hnone sub hsub other epoch hobserver
        exact ⟨holder, (getElem?_updateLive_ne hother _ db).trans hholder, hbooked⟩
      next token store hsubscribe =>
        obtain ⟨-, rfl, rfl⟩ := Store.subscribe_eq_ok (s := db.store) hsubscribe
        intro sub hsub other epoch hobserver
        have hlives : ∀ other, (((db.updateLive id fun live' =>
            { live' with epoch := live.epoch + 1 }).updateLive id fun live =>
              { live with
                token := some ⟨db.store.tokens + 1⟩
                phase := .awaitingInitial false }).lives[other]?) =
            if other = id then some { live with
              epoch := live.epoch + 1
              token := some ⟨db.store.tokens + 1⟩
              phase := .awaitingInitial false }
            else db.lives[other]? := by
          intro other
          simp only [updateLive, List.modify_modify_eq]
          exact getElem?_modify_of_some hlive _ other
        rcases List.mem_append.1 hsub with hold | hnew
        · obtain ⟨holder, hholder, hbooked⟩ := h sub hold other epoch hobserver
          refine ⟨holder, ?_, hbooked⟩
          have hother := hnone sub hold other epoch hobserver
          exact (hlives other).trans (by rw [if_neg hother, hholder])
        · cases List.mem_singleton.1 hnew
          cases hobserver
          exact ⟨_, (hlives id).trans (if_pos rfl), by simp, rfl, rfl, rfl⟩

theorem Booked.perform (h : db.Booked) {action : Action} (hpermitted : db.Permits action)
    (htells : db.TellsNobody action) : (db.perform (.silent σ) action).Booked := by
  have hmark : ∀ {db : Database σ} (id : Nat) (change : LiveQuery → LiveQuery),
      (∀ live : LiveQuery, live.Stays (change live)) → db.Booked →
        (db.updateLive id change).Booked :=
    fun {db} id _ hstays h => h.calm (calm_updateLive id db fun live _ => hstays live)
  cases hstirs : action.stirs with
  | false => exact h.calm (aside_perform hpermitted htells hstirs).calm
  | true =>
    cases action with
    | subscribe index callback => exact h.subscribe index callback
    | unsubscribe token => exact h.unsubscribe token
    | makeLive query => exact h.calm (calm_makeLive query db)
    | startLive id => exact h.startLive id
    | stopLive id => exact h.stopLive id
    | disposeLive id =>
      simp only [Database.perform, disposeLive]
      split
      · exact h
      split
      · exact h
      next live _ _ =>
        have hmarked := hmark id (fun live => { live with disposed := true })
          (fun live => ⟨rfl, rfl, rfl, rfl, .rfl, fun _ => ⟨rfl, rfl⟩⟩) h
        exact (hmarked.stopLive id).calm (aside_release live.query _).calm
    | dropLive id =>
      have hmarked := hmark id (fun live => { live with held := false })
        (fun live => ⟨rfl, rfl, rfl, rfl, .rfl, fun _ => ⟨rfl, rfl⟩⟩) (h.stopLive id)
      exact hmarked.calm (aside_reap id _).calm
    | addListener id callback =>
      exact h.calm (calm_listen id (fun live => live.listeners ++ [callback]) db)
    | removeListener id callback =>
      simp only [Database.perform, removeListener]
      split
      · exact h
      · exact h.calm (calm_listen id (fun live => live.listeners.filter (· != callback)) db)
    | go job =>
      cases job with
      | run run => exact h.begins (begins_go run db)
      | refresh task => exact h.calm (calm_go htells)
    | scanRun run => exact h.begins (begins_endRunScan run db)
    | fire => exact h.calm (calm_fireNext db).1
    | _ => cases hstirs

theorem booked_create {config : Config} {least : Severity} {numbered : Nat} {client : σ}
    (hcreate : create config least numbered client = .ok db) : db.Booked := by
  rw [create] at hcreate
  split at hcreate
  · cases hcreate
  · cases hcreate
    intro sub hsub
    cases hsub

end Database

namespace Moment

variable {σ : Type} {m m' : Moment σ} {deed : Deed σ}

theorem booked_does (h : m.db.Booked) (hdoes : m.Does deed m') : m'.db.Booked := by
  cases hdoes with
  | act action hpermitted htells => exact h.perform hpermitted htells
  | write hedit hwrite =>
    intro sub hsub
    exact h sub ((Store.views_write hwrite).2.2.1 ▸ hsub)
  | tell observer change => exact h.calm (Database.calm_notifyOne change observer _)
  | takeIn hready htask hstage hrun => exact h.calm (calm_takeIn (.takeIn hready htask hstage hrun))
  | retire htelling htask => exact h.calm (calm_retire (.retire htelling htask))
  | touch client => exact h

/-- News that is to be told to a live query is of its present epoch or an earlier one. -/
def Dated (m : Moment σ) : Prop :=
  ∀ id epoch change, (.live id epoch, change) ∈ m.pending →
    ∃ live, m.db.lives[id]? = some live ∧ epoch ≤ live.epoch

theorem Dated.onward (h : m.Dated) (honward : m.Onward m')
    (hpending : ∀ entry ∈ m'.pending, entry ∈ m.pending) : m'.Dated := by
  intro id epoch change hentry
  obtain ⟨live, hlive, hepoch⟩ := h id epoch change (hpending _ hentry)
  obtain ⟨live', hlive', hgoes⟩ := honward.lives id live hlive
  exact ⟨live', hlive', Nat.le_trans hepoch hgoes.epoch⟩

theorem dated_does (h : m.Dated) (hbooked : m.db.Booked) (honward : m.Onward m')
    (hdoes : m.Does deed m') : m'.Dated := by
  cases hdoes with
  | @write _ command docId edit store doc hedit hwrite =>
    intro id epoch change hentry
    rcases List.mem_append.1 hentry with hold | hnew
    · exact h id epoch change hold
    · obtain ⟨observer, hobserver, heq⟩ := List.mem_map.1 hnew
      cases heq
      obtain ⟨sub, hsub, hlive⟩ := List.mem_map.1 hobserver
      have hsub' : sub ∈ m.db.store.subscriptions :=
        (Store.views_write hwrite).2.2.1 ▸ (List.mem_filter.1 hsub).1
      obtain ⟨live, hholder, -, -, -, hepoch⟩ := hbooked sub hsub' id epoch hlive
      exact ⟨live, hholder, Nat.le_of_eq hepoch.symm⟩
  | tell observer change =>
    refine h.onward honward fun entry hentry => ?_
    rcases List.mem_append.1 hentry with hearlier | hlater
    · exact List.mem_append_left _ hearlier
    · exact List.mem_append_right _ (List.mem_cons_of_mem _ hlater)
  | _ => exact h.onward honward fun entry hentry => hentry

theorem Reached.booked (h : m.Reached) : m.db.Booked ∧ m.Dated := by
  induction h with
  | create hcreate =>
    exact ⟨Database.booked_create hcreate, fun id epoch change hentry => by cases hentry⟩
  | @step m m' hreached hstep ih =>
    obtain ⟨hbooked, hdated⟩ := ih
    obtain ⟨deed, hdoes⟩ := step_iff.1 hstep
    exact ⟨booked_does hbooked hdoes,
      dated_does hdated hbooked (hreached.onward (.single hstep)) hdoes⟩

end Moment

end Viewbase
