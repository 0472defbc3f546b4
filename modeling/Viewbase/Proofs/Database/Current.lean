import Viewbase.Proofs.Database.Outcome

/-!
A live query at rest shows what its query answers.

Main statement: `idle_shows_current`.  It comes from what holds at every moment: background work is
where it should be, live queries can rely on what they rely on, and temporary indexes count the
shares that queries hold.
-/

namespace Viewbase

variable {σ : Type}

/-! ## Shares at every moment -/

namespace Stance

open Database

variable {s s' : Stance σ}

/-- A move keeps the count of shares. -/
theorem shares_move (h : s.db.Shares) (hmove : Move s s') : s'.db.Shares := by
  cases hmove with
  | beside _ hshares => exact hshares h
  | subscriptions _ _ => exact Sharing.of_views h rfl rfl
  | permit _ _ _ _ => exact shares_takePermit h _
  | queue _ _ _ _ => exact shares_takePermit h _
  | grant => exact shares_givePermit h
  | cancel _ _ => exact shares_cancel h _
  | abandon _ _ _ _ => exact shares_wakeRecipient.2 h
  | @scan _ run _ _ => exact Sharing.later h (Store.later_scan s.db.store run.request)
  | @conclude _ run _ outcome _ _ _ =>
    refine shares_wakeRecipient.2 ?_
    cases outcome with
    | ok answer => exact shares_updateQuery h run.query fun _ => ⟨rfl, rfl⟩
    | error error => exact h
  | makeLive _ hshares _ _ => exact hshares h
  | startLive _ _ _ _ hsubscribe =>
    obtain ⟨-, -, rfl⟩ := Store.subscribe_eq_ok hsubscribe
    exact Sharing.of_views h rfl rfl
  | @stop id live _ _ =>
    have hstopped : (s.db.updateLive id fun other =>
        { other with
          epoch := other.epoch + 1
          phase := .stopped
          running := none
          token := none }).Shares := h
    have hcancelled := shares_cancelRunning hstopped live.running
    exact shares_endSubscription hcancelled live.token
  | giveUp _ hshares _ _ => exact hshares h
  | write _ hwrite =>
    obtain ⟨hviews, hnumbered, -⟩ := Store.views_write hwrite
    exact Sharing.of_views h hviews hnumbered
  | @takeIn _ _ _ _ live _ _ _ _ _ _ =>
    rw [settleLive]
    split
    · exact h
    · exact h
  | _ => exact h

theorem shares_moves (h : s.db.Shares) (hmoves : Moves s s') : s'.db.Shares := by
  induction hmoves with
  | refl => exact h
  | tail _ hmove ih => exact shares_move ih hmove

end Stance

/-! ## Queries over fresh answers -/

namespace Database

/-- A query whose answer is fresh already runs to that answer. -/
theorem runQuery_of_fresh {db : Database σ} (hsound : db.store.Sound) (hshares : db.Shares)
    {id : Nat}
    {query : Query} {index : Descriptor} {answer : Answer} (hquery : db.queries[id]? = some query)
    (hdisposed : query.disposed = false) (hindex : query.index = some index)
    (hstale : query.request.stale = .refreshBefore)
    (hfresh : db.store.Fresh index.id query.request answer)
    (hgeneration : answer.generation = db.store.generation)
    (hthere : db.store.hasIndex index.id) : (db.runQuery (.silent σ) id).2 = .ok answer := by
  have htarget : query.request.target = .index index.id := by
    rw [Query.request, hindex]
    rfl
  obtain ⟨view, hview⟩ := Option.isSome_iff_exists.1 hthere
  obtain ⟨past, hfollows⟩ := hsound.follows
  have hscan : (db.store.scan query.request).2 = .ok answer := by
    rw [hfollows.scan_refreshBefore htarget hstale hview]
    exact hfresh.anew hgeneration view hview
  obtain ⟨temporaries, hregister⟩ := register_eq hshares hquery hdisposed hindex hthere
  simp only [runQuery, hquery, hregister, scan_silent, hscan]
  rfl

end Database

/-! ## Moments -/

namespace Moment.Reached

open Stance

variable {m : Moment σ}

/-- What holds at every moment. -/
theorem attended (h : m.Reached) : Placed ⟨m, none⟩ ∧ Attended ⟨m, none⟩ ∧ m.db.Shares := by
  induction h with
  | create hcreate =>
    exact ⟨placed_create hcreate, attended_create hcreate, Database.shares_create hcreate⟩
  | step _ hstep ih =>
    obtain ⟨hplaced, hattended, hshares⟩ := ih
    have hmoves := hstep.moves hplaced.runsApart
    obtain ⟨hplaced', hattended'⟩ := hattended.moves hplaced hmoves
    exact ⟨hplaced', hattended', shares_moves hshares hmoves⟩

/-- As long as a live query is started its index is not deleted; it goes only if it is redefined. -/
theorem deleteIndex_of_started (h : m.Reached) {id : Nat} {live : LiveQuery}
    (hlive : m.db.lives[id]? = some live) (hstarted : live.phase ≠ .stopped) {index : Descriptor}
    (hindex : index.id = live.index.id) : ∃ error, m.db.store.deleteIndex index = .error error := by
  obtain ⟨-, hattended, -⟩ := h.attended
  obtain ⟨query, -, hattends⟩ := hattended.attends id live hlive
  obtain ⟨token, -, hsubscribed⟩ := hattends.subscribed hstarted
  have hused : m.db.store.subscriptions.any (fun sub => decide (sub.index = index.id)) :=
    List.any_eq_true.2 ⟨_, hsubscribed, by simp [hindex]⟩
  rw [Store.deleteIndex, if_pos hused]
  split
  · exact ⟨_, rfl⟩
  · exact ⟨_, rfl⟩

/-- A live query that is idle, has been told of all changes and whose last run was good shows the
rows that its query answers now. -/
theorem idle_shows_current (h : m.Reached) {id : Nat} {live : LiveQuery} {query : Query}
    (hlive : m.db.lives[id]? = some live) (hquery : m.db.queries[live.query]? = some query)
    (hstale : query.settings.stale = .refreshBefore) (hthere : m.db.store.hasIndex live.index.id)
    (hidle : live.phase = .idle) (hheard : ∀ change, (.live id live.epoch, change) ∉ m.pending)
    (hgood : live.lastError = none) :
    ∃ rows answer, live.rows = some rows ∧
      (m.db.runQuery (.silent σ) live.query).2 = .ok answer ∧
        (rows = answer ∨ rows.sameRows answer) := by
  obtain ⟨-, hattended, hshares⟩ := h.attended
  obtain ⟨other, hother, hattends⟩ := hattended.attends id live hlive
  rw [hquery] at hother
  cases hother
  have hprogress := hattends.progress
  rw [Progress, hidle] at hprogress
  obtain ⟨rows, answer, hrows, hsame, hkept, -⟩ := hprogress.2.2 hgood
  obtain ⟨hfresh, hbehind⟩ := hkept hstale
  -- The answer is of an earlier generation only if a change has yet to be told.
  have hgeneration : answer.generation = m.db.store.generation := by
    by_contra hne
    have hlt : answer.generation < m.db.store.generation := Nat.lt_of_le_of_ne hfresh.reached hne
    rcases hbehind hthere hlt with hagain | ⟨change, hpending, -⟩
    · rw [hidle] at hagain
      cases hagain
    · exact hheard change hpending
  have hdisposed : query.disposed = false := by
    by_contra hdisposed
    have hstopped := (hattends.disposed (by simpa using hdisposed)).1
    rw [hidle] at hstopped
    cases hstopped
  have hrun := Database.runQuery_of_fresh hattended.sound hshares hquery hdisposed hattends.index
    hstale hfresh hgeneration hthere
  exact ⟨rows, answer, hrows, hrun, hsame⟩

/-- A write between the end of the first scan and what follows from it is shown after one more
run. -/
theorem idle_after_write : ∃ (m : Moment Unit) (live : LiveQuery) (rows answer : Answer),
    m.Reached ∧ m.db.store.generation = 1 ∧ m.db.lives[0]? = some live ∧ live.phase = .idle ∧
      live.rows = some rows ∧ (m.db.runQuery (.silent Unit) live.query).2 = .ok answer ∧
        (rows = answer ∨ rows.sameRows answer) := by
  have hmade := @create Unit {} .info 0 () _ rfl
  have hdefined := hmade.step (.act (.defineView "v" Store.bodyById none) trivial trivial)
  have hqueried := hdefined.step (.act (.queryIndex (.named ⟨1⟩ "v" false)) trivial trivial)
  have hlive := hqueried.step (.act (.makeLive 0) trivial trivial)
  have hstarted := hlive.step (.act (.startLive 0) (by rintro live ⟨⟩; rfl) trivial)
  have hlaunched := hstarted.step (.act (.go (.refresh 0)) trivial (by rintro refresh ⟨⟩ run ⟨⟩))
  have hrunning := hlaunched.step (.act (.go (.run 0)) trivial trivial)
  have hscanned := hrunning.step (.act (.scanRun 0) trivial trivial)
  have hwritten := hscanned.step
    (@Step.write _ _ (.put "a" (.bool true)) "a" (Store.putEdit "a" (.bool true)) _ _ rfl rfl)
  have htold := hwritten.step (@Step.tell _ _ [] [] _ (.live 0 1) ⟨1, ["a"]⟩)
  have hended := htold.step (.act (.go (.run 0)) trivial trivial)
  have htaken := hended.step (@Step.takeIn _ _ 0 0 _ _ (by decide) rfl rfl rfl)
  -- The change was remembered, so a second run follows after the delay.
  have hsleeping := htaken.step (.act (.go (.refresh 1)) trivial (by rintro refresh ⟨⟩ run ⟨⟩))
  have hfired := hsleeping.step (.act .fire trivial trivial)
  have hrelaunched := hfired.step (.act (.go (.refresh 1)) trivial (by rintro refresh ⟨⟩ run ⟨⟩))
  have hrerunning := hrelaunched.step (.act (.go (.run 1)) trivial trivial)
  have hrescanned := hrerunning.step (.act (.scanRun 1) trivial trivial)
  have hreended := hrescanned.step (.act (.go (.run 1)) trivial trivial)
  have hretaken := hreended.step (@Step.takeIn _ _ 1 1 _ _ (by decide) rfl rfl rfl)
  obtain ⟨rows, answer, hcurrent⟩ :=
    @idle_shows_current Unit _ hretaken 0 _ _ rfl rfl rfl rfl rfl (by simp) rfl
  exact ⟨_, _, rows, answer, hretaken, rfl, rfl, rfl, hcurrent⟩

end Moment.Reached

end Viewbase
