import Viewbase.Proofs.Database.Move

/-!
Every step is made of moves.

Main statement: `Step.moves`.  It needs to know that a run that can go on does not wait for a
permit; then the permit that a run gives back goes to another.
-/

namespace Viewbase.Stance

variable {σ : Type} {s : Stance σ}

open Database Relation

theorem moves_beside {db : Database σ} (h : s.db.Beside db) (hshares : s.db.Shares → db.Shares) :
    Moves s { s with db := db } :=
  .single (.beside h hshares)

/-! ## Runs -/

theorem deliver_silent (id : Nat) (recipient : Recipient) (outcome : Outcome) (db : Database σ) :
    db.deliver (.silent σ) id recipient outcome =
      (db.updateRun id fun run =>
        { run with stage := .ended, outcome := some outcome }).wakeRecipient recipient := by
  cases recipient <;> rfl

/-- A run that does not wait for a permit stays as it is when one is given back. -/
theorem runs_givePermit {db : Database σ} {id : Nat} (hid : id ∉ db.waiting) :
    db.givePermit.runs[id]? = db.runs[id]? := by
  rw [givePermit]
  split
  · rfl
  next next rest heq =>
    have hother : next ≠ id := by
      rintro rfl
      exact hid (by simp [heq])
    simp [wake, updateRun, hother]

theorem updateRun_updateRun (db : Database σ) (id : Nat) (change change' : Run → Run) :
    (db.updateRun id change).updateRun id change' = db.updateRun id (change' ∘ change) := by
  simp [updateRun, List.modify_modify_eq]

theorem updateRun_congr {db : Database σ} {id : Nat} {run : Run} (hrun : db.runs[id]? = some run)
    {change change' : Run → Run} (h : change run = change' run) :
    db.updateRun id change = db.updateRun id change' := by
  have hruns : db.runs.modify id change = db.runs.modify id change' := by
    apply List.ext_getElem?
    intro other
    by_cases hother : id = other
    · subst hother
      simp [hrun, h]
    · simp [hother]
  simp only [updateRun, hruns]

theorem givePermit_updateRun {db : Database σ} {id : Nat} (hid : id ∉ db.waiting)
    (change : Run → Run) :
    (db.updateRun id change).givePermit = db.givePermit.updateRun id change := by
  have hwaiting : (db.updateRun id change).waiting = db.waiting := rfl
  rw [givePermit, givePermit, hwaiting]
  split
  · rfl
  next next rest heq =>
    have hother : id ≠ next := by
      rintro rfl
      exact hid (by simp [heq])
    simp only [wake, updateRun, List.modify_modify_ne _ _ _ hother]

theorem keepGeneration_updateRun (query : Nat) (outcome : Outcome) (db : Database σ) (id : Nat)
    (change : Run → Run) :
    (db.updateRun id change).keepGeneration query outcome =
      (db.keepGeneration query outcome).updateRun id change := by
  cases outcome <;> rfl

theorem concludes_of_complete {run : Run} {result : Except IndexError Answer} (db : Database σ)
    (hstage : run.stage = .scanned result) (hcontrol : run.control = .running) :
    run.Concludes .done (db.complete run.query run.request.target result).2 := by
  cases result with
  | ok answer => exact .answered hstage hcontrol
  | error error => exact .failed _ hstage hcontrol

theorem beside_complete_keepGeneration (query : Nat) (target : Target)
    (result : Except IndexError Answer) (db : Database σ) :
    (db.keepGeneration query (db.complete query target result).2).Beside
      (db.complete query target result).1 := by
  have h := beside_complete query target result db
  cases result with
  | ok answer => exact h
  | error error => exact h

theorem shares_of_keepGeneration (db : Database σ) (query : Nat) (target : Target)
    (result : Except IndexError Answer)
    (h : (db.keepGeneration query (db.complete query target result).2).Shares) :
    (db.complete query target result).1.Shares := by
  cases result with
  | ok answer => exact h
  | error error => exact h

/-- A run that was started and not cancelled meanwhile is done with whatever it came to. -/
theorem moves_conclude {id : Nat} {run : Run} (outcome : Database σ → Database σ × Outcome)
    (hhand : s.hand = some (.run id)) (hrun : s.db.runs[id]? = some run)
    (hconcludes : ∀ db, run.Concludes .done (outcome db).2)
    (hbeside : ∀ db, (keepGeneration run.query (outcome db).2 db).Beside (outcome db).1)
    (hshares : ∀ db, (keepGeneration run.query (outcome db).2 db).Shares → (outcome db).1.Shares) :
    Moves s
      { s with
        db := (outcome (s.db.updateRun id fun run => { run with control := .done })).1.deliver
          (.silent σ) id run.recipient
          (outcome (s.db.updateRun id fun run => { run with control := .done })).2
        hand := none } := by
  obtain ⟨done, hdone⟩ :
      ∃ done, done = s.db.updateRun id fun run => { run with control := .done } := ⟨_, rfl⟩
  have hmove : Move s _ := .conclude hhand hrun (hconcludes done)
  have hsame := ((hbeside done).updateRun id fun run =>
    { run with stage := .ended, outcome := some (outcome done).2 }).wakeRecipient run.recipient
  rw [← hdone, deliver_silent]
  refine (ReflTransGen.single hmove).tail (.beside ?_ fun h => ?_)
  · rw [hdone, keepGeneration_updateRun, updateRun_updateRun, ← hdone] at hsame
    exact hsame
  · have hkept : (keepGeneration run.query (outcome done).2 done).Shares := by
      rw [hdone, keepGeneration_updateRun, ← hdone]
      have hended := shares_wakeRecipient.1 h
      exact hended
    exact shares_wakeRecipient.2 (hshares done hkept)

/-- A run that was cancelled delivers that. -/
theorem moves_discard {id : Nat} {run : Run} {result : Except IndexError Answer}
    (hhand : s.hand = some (.run id)) (hrun : s.db.runs[id]? = some run)
    (hstage : run.stage = .scanned result) (hcontrol : run.control ≠ .running) :
    Moves s
      { s with
        db := (s.db.countCancelled "after_start").deliver (.silent σ) id run.recipient
          (.error .cancelled)
        hand := none } := by
  have hmove : Move s _ := .conclude hhand hrun (.discarded hstage hcontrol)
  have hsame := ((beside_countCancelled s.db "after_start").updateRun id fun run =>
    { run with stage := .ended, outcome := some (.error .cancelled) }).wakeRecipient run.recipient
  have hkept : (s.db.updateRun id fun other =>
      { other with control := run.control, stage := .ended, outcome := some (.error .cancelled) }) =
      s.db.updateRun id fun other =>
        { other with stage := .ended, outcome := some (.error .cancelled) } := by
    exact updateRun_congr hrun rfl
  rw [deliver_silent]
  refine (ReflTransGen.single hmove).tail (.beside ?_ fun h => ?_)
  · simp only [keepGeneration]
    rw [hkept]
    exact hsame
  · have hended := shares_wakeRecipient.1 h
    have hbefore : s.db.Shares := hended
    exact shares_wakeRecipient.2 hbefore

theorem moves_finishRun {id : Nat} {run : Run} {result : Except IndexError Answer}
    (hwaiting : id ∉ s.db.waiting) (hhand : s.hand = some (.run id))
    (hrun : s.db.runs[id]? = some run) (hstage : run.stage = .scanned result) :
    Moves s { s with db := s.db.finishRun (.silent σ) id result, hand := none } := by
  have hgranted : Moves s { s with db := s.db.givePermit } := .single .grant
  have hrun' : s.db.givePermit.runs[id]? = some run := (runs_givePermit hwaiting).trans hrun
  simp only [finishRun, hrun]
  rw [conclude]
  cases hcontrol : run.control with
  | running =>
    exact hgranted.trans (moves_conclude (s := { s with db := s.db.givePermit }) _ hhand hrun'
      (fun db => concludes_of_complete db hstage hcontrol)
      (fun db => beside_complete_keepGeneration run.query run.request.target result db)
      fun db => shares_of_keepGeneration db run.query run.request.target result)
  | _ =>
    have hother : run.control ≠ .running := by
      rw [hcontrol]
      simp
    exact hgranted.trans (moves_discard (s := { s with db := s.db.givePermit }) hhand hrun' hstage
      hother)

/-- A run that was cancelled before it started gives its permit back and ends. -/
theorem moves_abandon {id : Nat} {run : Run} {ended : Database σ} (hwaiting : id ∉ s.db.waiting)
    (hhand : s.hand = some (.run id)) (hrun : s.db.runs[id]? = some run)
    (hstage : run.stage = .admitted) (hcontrol : run.control ≠ .pending)
    (hended : (s.db.countCancelled "before_start").givePermit.Beside ended)
    (hshares : (s.db.countCancelled "before_start").givePermit.Shares → ended.Shares) :
    Moves s { s with db := ended.abandon id run.recipient, hand := none } := by
  have hbeside := beside_countCancelled s.db "before_start"
  have hreleased : Moves s { s with db := ended } :=
    ((moves_beside hbeside fun h => h).tail .grant).tail (.beside hended hshares)
  have hrun' : ended.runs[id]? = some run := by
    rw [hended.runs, runs_givePermit (hbeside.waiting ▸ hwaiting), hbeside.runs, hrun]
  exact hreleased.tail (.abandon hhand hrun' hstage hcontrol)

theorem moves_startRun {id : Nat} {run : Run} (hwaiting : id ∉ s.db.waiting)
    (hhand : s.hand = some (.run id)) (hrun : s.db.runs[id]? = some run)
    (hstage : run.stage = .admitted) :
    Moves s { s with db := s.db.startRun (.silent σ) id, hand := none } := by
  simp only [startRun, hrun]
  cases hcontrol : run.control with
  | pending =>
    simp only [Control.start]
    split
    next heq => cases heq
    next error heq hregistration =>
      cases heq
      obtain ⟨counted, hcounted⟩ :
          ∃ counted, counted = s.db.count fun m => { m with failed := m.failed + 1 } := ⟨_, rfl⟩
      have hbeside : s.db.Beside counted := by
        rw [hcounted]
        exact beside_count s.db rfl
      have hgranted : Moves s { s with db := counted.givePermit } :=
        (moves_beside hbeside fun h => hcounted ▸ h).tail .grant
      have hwaiting' : id ∉ counted.waiting := hbeside.waiting ▸ hwaiting
      have hrun' : counted.givePermit.runs[id]? = some run :=
        (runs_givePermit hwaiting').trans (hbeside.runs ▸ hrun)
      have hconcluded := moves_conclude (s := { s with db := counted.givePermit })
        (fun db => (db, .error error)) hhand hrun'
        (fun _ => .refused hstage hcontrol hregistration) (fun db => .refl db)
        (fun _ h => h)
      have hstarted : ((s.db.updateRun id fun run => { run with control := .running }).count
          fun m => { m with failed := m.failed + 1 }) =
          counted.updateRun id fun run => { run with control := .running } := by
        rw [hcounted]
        rfl
      simp only [conclude, Control.finish]
      rw [hstarted, givePermit_updateRun hwaiting', updateRun_updateRun]
      exact hgranted.trans hconcluded
    next heq hregistration =>
      cases heq
      exact .single (.startRun hhand hrun hstage hcontrol ⟨_, hregistration⟩)
  | _ =>
    have hother : run.control ≠ .pending := by
      rw [hcontrol]
      simp
    simp only [Control.start]
    cases run.registration with
    | ok temporary =>
      exact moves_abandon hwaiting hhand hrun hstage hother (beside_endRegistration temporary _)
        fun h => shares_endRegistration h temporary
    | error error => exact moves_abandon hwaiting hhand hrun hstage hother (.refl _) fun h => h

theorem moves_pollRun {id : Nat} (hwaiting : id ∉ s.db.waiting) (hhand : s.hand = some (.run id)) :
    Moves s { s with db := s.db.pollRun (.silent σ) id, hand := none } := by
  cases hrun : s.db.runs[id]? with
  | none =>
    simp only [pollRun, hrun, Option.map_none]
    refine .single (.drop hhand (.run fun run h => ?_))
    rw [hrun] at h
    cases h
  | some run =>
    simp only [pollRun, hrun, Option.map_some]
    cases hstage : run.stage with
    | waiting =>
      dsimp only
      by_cases hpermits : 0 < s.db.permits
      · rw [if_pos hpermits]
        have hadmitted : Moves s { s with db := s.db.takePermit id } :=
          .single (.permit hhand hrun hstage hpermits)
        have htaken : s.db.takePermit id =
            { s.db.updateRun id fun run => { run with stage := .admitted } with
              permits := s.db.permits - 1 } := if_pos hpermits
        have hrun' : (s.db.takePermit id).runs[id]? = some { run with stage := .admitted } := by
          rw [htaken]
          simp [updateRun, hrun]
        have hwaiting' : id ∉ (s.db.takePermit id).waiting := by
          rw [htaken]
          exact hwaiting
        exact hadmitted.trans (moves_startRun (s := { s with db := s.db.takePermit id }) hwaiting'
          hhand hrun' rfl)
      · rw [if_neg hpermits]
        exact .single (.queue hhand hrun hstage hpermits)
    | admitted => exact moves_startRun hwaiting hhand hrun hstage
    | scanned result => exact moves_finishRun hwaiting hhand hrun hstage
    | scanning =>
      refine .single (.drop hhand (.run fun other h => ?_))
      rw [hrun] at h
      cases h
      exact .inl hstage
    | ended =>
      refine .single (.drop hhand (.run fun other h => ?_))
      rw [hrun] at h
      cases h
      exact .inr hstage

/-- Ending the scan registration of a run has no part in how the run goes on. -/
theorem moves_scanRun {id : Nat} (hscanning : id ∈ s.db.scanning) :
    Moves s { s with db := s.db.scanRun (.silent σ) id } := by
  cases hrun : s.db.runs[id]? with
  | none =>
    simp only [scanRun, hrun]
    exact .refl
  | some run =>
    simp only [scanRun, hrun, scan_silent]
    have hmove : Move s _ := .scan hscanning hrun
    have hended := beside_endRegistration run.registered?
      { s.db with
        store := (s.db.store.scan run.request).1
        scanning := s.db.scanning.filter (· != id) }
    refine (ReflTransGen.single hmove).tail (.beside ((hended.updateRun id _).wake (.run id)) ?_)
    exact fun h => @shares_endRegistration σ { s.db with
      store := (s.db.store.scan run.request).1
      scanning := s.db.scanning.filter (· != id) } h run.registered?

/-! ## Refreshes -/

theorem queries_register (id : Nat) (db : Database σ) :
    (db.register id).1.queries = db.queries := by
  obtain ⟨temporaries, heq⟩ := exists_register id db
  rw [heq]

/-- A scan is refused for other reasons than that it was cancelled. -/
theorem register_ne_cancelled (id : Nat) (db : Database σ) :
    (db.register id).2 ≠ .error .cancelled := by
  have hbegun : ∀ temporary, (db.beginScan temporary).2 ≠ .error .cancelled := by
    intro temporary
    rw [beginScan, onTemporary]
    split
    · simp
    · rw [Temporary.beginScan]
      split <;> simp
  rw [register]
  split
  · simp
  split
  · split <;> simp
  split
  · simp
  next temporary _ =>
    have h := hbegun temporary
    split
    next heq =>
      rw [heq] at h
      intro hcancelled
      cases hcancelled
      exact h rfl
    next => simp

/-- What a query is submitted with. -/
def requestOf (id : Nat) (db : Database σ) : Request :=
  match db.queries[id]? with
  | some query => query.request
  | none => (Query.new none none).request

/-- What comes before a run is entered that a query is submitted for. -/
theorem exists_submit (id : Nat) (recipient : Recipient) (db : Database σ) :
    ∃ noted, db.Beside noted ∧ (db.Shares → noted.Shares) ∧ noted.queries = db.queries ∧
      db.submit id recipient =
        (noted.enter (.new id (requestOf id db) (db.register id).2 recipient),
          noted.runs.length) := by
  refine ⟨((db.register id).1.count fun m => { m with submitted := m.submitted + 1 }).note
    .querySubmitted [("target", (requestOf id db).target.label)], ?_, ?_,
    queries_register id db, rfl⟩
  · exact ((beside_register id db).trans (beside_count _ rfl)).trans (beside_note _ _ _)
  · exact fun h => shares_register h id

/-- A live query that is neither held nor refreshed any more gives its query up. -/
theorem moves_reap (id : Nat) : Moves s { s with db := s.db.reap (.silent σ) id } := by
  rw [reap]
  split
  · exact .refl
  next live hlive =>
    split
    · exact .refl
    next hfree =>
      have hheld : live.held = false := by
        rw [Bool.not_eq_true, Bool.or_eq_false_iff] at hfree
        exact hfree.1
      obtain ⟨released, hbeside, heq⟩ := exists_dropQuery live.query s.db
      rw [heq]
      exact .single (.giveUp hbeside (fun h => heq ▸ shares_dropQuery h live.query) hlive
        (.inl hheld))

theorem moves_executeLive {task : Nat} {refresh : Refresh} (hhand : s.hand = some (.refresh task))
    (htask : s.db.refreshes[task]? = some refresh) (hstage : refresh.stage.IsEarly) :
    Moves s { s with
      db := s.db.executeLive task refresh.live refresh.epoch
      hand := none } := by
  cases hlive : s.db.lives[refresh.live]? with
  | none =>
    simp only [executeLive, hlive]
    refine .single (.drop hhand (.refresh fun other h => ?_))
    rw [htask] at h
    cases h
    exact .inr (.inr hlive)
  | some live =>
    simp only [executeLive, hlive]
    cases hcurrent : live.isCurrent refresh.epoch with
    | false => exact .single (.lapse hhand htask hstage hlive hcurrent)
    | true =>
      obtain ⟨noted, hbeside, hshares, hqueries, hsubmit⟩ :=
        exists_submit live.query (.refresh task) s.db
      simp only [Bool.not_true, Bool.false_eq_true, if_false, hsubmit]
      refine (moves_beside hbeside hshares).tail ?_
      refine .execute hhand (hbeside.refreshes ▸ htask) hstage (hbeside.lives ▸ hlive) hcurrent ?_
        (register_ne_cancelled live.query s.db)
      intro query hquery
      rw [requestOf, ← hqueries, hquery]

/-- A refresh that awaits no run goes on. -/
theorem moves_pollRefresh {task : Nat} (hhand : s.hand = some (.refresh task))
    (hawaits : ∀ refresh, s.db.refreshes[task]? = some refresh →
      ∀ run, refresh.stage ≠ .awaiting run) :
    Moves s { s with db := s.db.pollRefresh (.silent σ) task, hand := none } := by
  have hreaped : ∀ {refresh : Refresh}, s.db.refreshes[task]? = some refresh →
      refresh.stage.IsEarly → Moves s { s with
        db := (s.db.executeLive task refresh.live refresh.epoch).reap (.silent σ) refresh.live
        hand := none } := by
    intro refresh htask hstage
    exact (moves_executeLive hhand htask hstage).trans (moves_reap refresh.live)
  cases htask : s.db.refreshes[task]? with
  | none =>
    simp only [pollRefresh, htask]
    refine .single (.drop hhand (.refresh fun refresh h => ?_))
    rw [htask] at h
    cases h
  | some refresh =>
    have hdropped : refresh.stage = .sleeping ∨ refresh.stage = .over →
        Moves s { s with hand := none } := by
      intro hstage
      refine .single (.drop hhand (.refresh fun other h => ?_))
      rw [htask] at h
      cases h
      rcases hstage with hstage | hstage
      · exact .inl hstage
      · exact .inr (.inl hstage)
    simp only [pollRefresh, htask]
    cases hstage : refresh.stage with
    | launched delay =>
      cases delay with
      | zero => exact hreaped htask (hstage ▸ .launched 0)
      | succ delay => exact .single (.sleep hhand htask hstage)
    | due => exact hreaped htask (hstage ▸ .due)
    | awaiting run => exact absurd hstage (hawaits refresh htask run)
    | sleeping => exact hdropped (.inl hstage)
    | _ => exact hdropped (.inr hstage)

theorem tellListeners_silent (change : Refreshed) (listeners : List Nat) (db : Database σ) :
    db.tellListeners (.silent σ) change listeners = db := by
  induction listeners generalizing db with
  | nil => rfl
  | cons listener listeners ih => exact ih db

theorem beside_recordVerdict (live : LiveQuery) (verdict : LiveQuery.Verdict) (db : Database σ) :
    db.Beside (db.recordVerdict live verdict) := by
  cases verdict with
  | unchanged =>
    have h : db.Beside (db.count fun m => { m with liveRefreshes := m.liveRefreshes + 1 }) :=
      beside_count db rfl
    exact h
  | refreshed answer => exact (beside_count db rfl).trans (beside_note _ _ _)
  | failed error => exact beside_note db _ _
  | cancelled => exact .refl db

theorem shares_recordVerdict {db : Database σ} (h : db.Shares) (live : LiveQuery)
    (verdict : LiveQuery.Verdict) : (db.recordVerdict live verdict).Shares := by
  cases verdict <;> exact h

theorem moves_takeIn {task id : Nat} {refresh : Refresh} {run : Run}
    (hhand : s.hand = some (.refresh task)) (htask : s.db.refreshes[task]? = some refresh)
    (hstage : refresh.stage = .awaiting id) (hrun : s.db.runs[id]? = some run) :
    Moves s { s with
      db := s.db.finishLive (.silent σ) refresh.live refresh.epoch run.answer
      telling := task :: s.telling
      hand := none } := by
  cases hlive : s.db.lives[refresh.live]? with
  | none =>
    simp only [finishLive, hlive]
    refine .single (.ignore hhand htask hstage fun live h => ?_)
    rw [hlive] at h
    cases h
  | some live =>
    simp only [finishLive, hlive]
    cases hcurrent : live.isCurrent refresh.epoch with
    | false =>
      refine .single (.ignore hhand htask hstage fun other h => ?_)
      rw [hlive] at h
      cases h
      exact hcurrent
    | true =>
      have hbeside := beside_recordVerdict live (live.judge run.answer) s.db
      have hrecorded := moves_beside hbeside fun h => shares_recordVerdict h live _
      have htaken := hrecorded.tail (.takeIn hhand (hbeside.refreshes ▸ htask) hstage
        (hbeside.runs ▸ hrun) (hbeside.lives ▸ hlive) hcurrent)
      simp only [Bool.not_true, Bool.false_eq_true, if_false, tellListeners_silent]
      split
      · exact htaken
      · exact htaken

/-! ## Timers -/

/-- The timers that are due ring in turn. -/
theorem moves_ring (now : Nat) (kept rest : List Timer) (htimers : s.db.timers = kept ++ rest) :
    Moves s { s with
      db := ((rest.filter fun timer => decide (timer.due ≤ now)).map Timer.refresh).foldl
        (fun db task => (db.updateRefresh task fun refresh =>
          { refresh with stage := .due }).wake (.refresh task))
        { s.db with timers := kept ++ rest.filter fun timer => decide (now < timer.due) } } := by
  induction rest generalizing s kept with
  | nil =>
    rw [List.append_nil] at htimers
    simp only [List.filter_nil, List.map_nil, List.foldl_nil, List.append_nil, ← htimers]
    exact .refl
  | cons timer rest ih =>
    by_cases hdue : timer.due ≤ now
    · have hfired : (timer :: rest).filter (fun timer => decide (timer.due ≤ now)) =
          timer :: rest.filter (fun timer => decide (timer.due ≤ now)) :=
        List.filter_cons_of_pos (by simpa using hdue)
      have hlater : (timer :: rest).filter (fun timer => decide (now < timer.due)) =
          rest.filter (fun timer => decide (now < timer.due)) :=
        List.filter_cons_of_neg (by simpa using hdue)
      rw [hfired, hlater]
      have hrung : Move s _ := .ring htimers
      exact (ReflTransGen.single hrung).trans (ih kept rfl)
    · have hfired : (timer :: rest).filter (fun timer => decide (timer.due ≤ now)) =
          rest.filter (fun timer => decide (timer.due ≤ now)) :=
        List.filter_cons_of_neg (by simpa using hdue)
      have hlater : (timer :: rest).filter (fun timer => decide (now < timer.due)) =
          timer :: rest.filter (fun timer => decide (now < timer.due)) :=
        List.filter_cons_of_pos (by simpa using hdue)
      rw [hfired, hlater]
      have hkept := ih (s := s) (kept ++ [timer]) (by simp [htimers])
      rw [List.append_assoc, List.singleton_append] at hkept
      exact hkept

theorem moves_fireNext : Moves s { s with db := s.db.fireNext } := by
  rw [fireNext]
  split
  next due _ =>
    have hclock : s.db.Beside { s.db with clock := due } := { Beside.refl s.db with }
    exact (moves_beside hclock fun h => h).trans (moves_ring due [] s.db.timers rfl)
  next => exact .refl

/-! ## Live queries -/

theorem moves_makeLive (query : Nat) : Moves s { s with db := (s.db.makeLive query).1 } := by
  rw [makeLive]
  split
  · exact .refl
  next index hindex =>
    rw [copyQuery]
    obtain ⟨source, hsource, hsourceIndex⟩ := Option.bind_eq_some_iff.1 hindex
    rw [hsource]
    dsimp only
    by_cases hdisposed : source.disposed
    · rw [if_pos hdisposed]
    · rw [if_neg hdisposed]
      have hshared := beside_shareTemporary source s.db
      split
      next heq =>
        split at heq
        next heq' =>
          have hshares : s.db.Shares → (s.db.shareTemporary source).1.Shares :=
            fun h => shares_shareTemporary h source
          rw [heq'] at hshared hshares
          cases heq
          exact moves_beside hshared hshares
        next => cases heq
      next heq =>
        split at heq
        next => cases heq
        next heq' =>
          have hqueries := queries_shareTemporary source s.db
          rw [heq'] at hshared hqueries
          cases heq
          refine .single (.makeLive hshared (fun h => ?_) hsourceIndex
            (Bool.of_not_eq_true hdisposed))
          rw [hqueries]
          exact sharing_shareTemporary h (List.mem_of_getElem? hsource) heq'

theorem moves_startLive {id : Nat} (hheld : ∀ live, s.db.lives[id]? = some live → live.held) :
    Moves s { s with db := (s.db.startLive id).1 } := by
  cases hlive : s.db.lives[id]? with
  | none =>
    simp only [startLive, hlive]
    exact .refl
  | some live =>
    simp only [startLive, hlive]
    by_cases hdisposed : live.disposed = true
    · rw [if_pos hdisposed]
    · rw [if_neg hdisposed]
      by_cases hrunning : live.isRunning = true
      · rw [if_pos hrunning]
      · rw [if_neg hrunning]
        have hstopped : live.phase = .stopped := by simpa [LiveQuery.isRunning] using hrunning
        have hstore : (s.db.updateLive id fun other => { other with epoch := live.epoch + 1 }).store
            = s.db.store := rfl
        simp only [hstore]
        split
        next => exact .single (.startInVain hlive hstopped)
        next token store hsubscribe =>
          have hmove : Move s _ := .startLive hlive (hheld live hlive)
            (Bool.of_not_eq_true hdisposed) hstopped hsubscribe
          have hstarted : ({ s.db.updateLive id fun other => { other with epoch := live.epoch + 1 }
                with store := store }).updateLive id
                (fun live => { live with token := some token, phase := .awaitingInitial false }) =
              ({ s.db with store := store }).updateLive id fun other =>
                { other with
                  epoch := live.epoch + 1
                  token := some token
                  phase := .awaitingInitial false } := by
            simp only [updateLive, List.modify_modify_eq]
            rfl
          rw [hstarted]
          exact (ReflTransGen.single hmove).tail (.beside (beside_note _ _ _) fun h => h)

theorem moves_stopLive (id : Nat) : Moves s { s with db := s.db.stopLive id } := by
  rw [stopLive]
  split
  · exact .refl
  next live hlive =>
    split
    · exact .refl
    next hrunning =>
      have hphase : live.phase ≠ .stopped := by simpa [LiveQuery.isRunning] using hrunning
      have hmove : Move s _ := .stop hlive hphase
      exact (ReflTransGen.single hmove).tail (.beside (beside_note _ _ _) fun h => h)

theorem lives_cancelRunning (running : Option Nat) (db : Database σ) :
    (db.cancelRunning running).lives = db.lives := by
  cases running with
  | none => rfl
  | some run =>
    rw [cancelRunning, cancel]
    split <;> rfl

theorem runs_endSubscription (token : Option Token) (db : Database σ) :
    (db.endSubscription token).runs = db.runs := by
  cases token <;> rfl

theorem refreshes_endSubscription (token : Option Token) (db : Database σ) :
    (db.endSubscription token).refreshes = db.refreshes := by
  cases token <;> rfl

theorem lives_endSubscription (token : Option Token) (db : Database σ) :
    (db.endSubscription token).lives = db.lives := by
  cases token <;> rfl

/-- Stopping a live query keeps who it is. -/
theorem lives_stopLive {id : Nat} {db : Database σ} {live : LiveQuery}
    (hlive : db.lives[id]? = some live) :
    ∃ stopped, (db.stopLive id).lives[id]? = some stopped ∧ stopped.phase = .stopped ∧
      stopped.disposed = live.disposed ∧ stopped.query = live.query := by
  rw [stopLive, hlive]
  dsimp only
  split
  next hrunning =>
    have hstopped : live.phase = .stopped := by simpa [LiveQuery.isRunning] using hrunning
    exact ⟨live, hlive, hstopped, rfl, rfl⟩
  next =>
    have hlives : ∀ db : Database σ, ((db.cancelRunning live.running).endSubscription
        live.token).lives = db.lives :=
      fun db => (lives_endSubscription _ _).trans (lives_cancelRunning _ db)
    refine ⟨{ live with epoch := live.epoch + 1, phase := .stopped, running := none, token := none
      }, ?_, rfl, rfl, rfl⟩
    simp only [note, hlives, updateLive, List.getElem?_modify_eq, hlive]
    rfl

theorem moves_disposeLive (id : Nat) :
    Moves s { s with db := s.db.disposeLive (.silent σ) id } := by
  rw [disposeLive]
  split
  · exact .refl
  next live hlive =>
    split
    · exact .refl
    · obtain ⟨disposed, hdisposed⟩ : ∃ disposed,
          disposed = s.db.updateLive id fun live => { live with disposed := true } := ⟨_, rfl⟩
      have hmarked : Moves s { s with db := disposed } := by
        rw [hdisposed]
        exact .single (.dispose id)
      have hlive' : disposed.lives[id]? = some { live with disposed := true } := by
        simp [hdisposed, updateLive, hlive]
      obtain ⟨stopped, hstopped, hphase, hflag, hquery⟩ := lives_stopLive hlive'
      obtain ⟨released, hbeside, heq⟩ := exists_release live.query (disposed.stopLive id)
      have hended : Moves s { s with db := disposed.stopLive id } :=
        hmarked.trans (moves_stopLive (s := { s with db := disposed }) id)
      rw [← hdisposed, heq, ← hquery]
      refine hended.tail (.giveUp hbeside (fun h => ?_) hstopped (.inr ⟨hflag, hphase⟩))
      rw [hquery, ← heq]
      exact shares_release h live.query

theorem moves_dropLive (id : Nat) : Moves s { s with db := s.db.dropLive (.silent σ) id } := by
  rw [dropLive]
  have hstopped : Moves s { s with db := s.db.stopLive id } := moves_stopLive id
  refine (hstopped.tail (.letGo fun live hlive => ?_)).trans (moves_reap id)
  cases hbefore : s.db.lives[id]? with
  | none =>
    rw [stopLive, hbefore] at hlive
    rw [hbefore] at hlive
    cases hlive
  | some before =>
    obtain ⟨stopped, hstopped, hphase, -, -⟩ := lives_stopLive hbefore
    rw [hstopped] at hlive
    cases hlive
    exact hphase

/-! ## Changes -/

theorem moves_tell {earlier later : List (Observer × Change)} {observer : Observer}
    {change : Change} (hpending : s.pending = earlier ++ (observer, change) :: later) :
    Moves s { s with
      db := s.db.notifyOne (.silent σ) change observer
      pending := earlier ++ later } := by
  cases observer with
  | client callback =>
    have hsame : s.db.notifyOne (.silent σ) change (.client callback) = s.db := rfl
    rw [hsame]
    exact .single (.overhear hpending fun _ _ _ heq => by cases heq)
  | live id epoch =>
    have hunheard : (∀ live, s.db.lives[id]? = some live → live.epoch = epoch →
        LiveQuery.react live.phase (s.db.lastGeneration live.query) change.generation = .ignore) →
        Moves s { s with pending := earlier ++ later } := by
      intro hignored
      refine .single (.overhear hpending fun other otherEpoch live heq hlive hepoch => ?_)
      cases heq
      exact hignored live hlive hepoch
    simp only [notifyOne]
    cases hlive : s.db.lives[id]? with
    | none =>
      simp only [changeLive, hlive]
      refine hunheard fun other h _ => ?_
      rw [hlive] at h
      cases h
    | some live =>
      simp only [changeLive, hlive]
      by_cases hepoch : live.epoch = epoch
      · subst hepoch
        rw [if_neg (fun h => h rfl)]
        cases hreact : LiveQuery.react live.phase (s.db.lastGeneration live.query)
            change.generation with
        | ignore =>
          refine hunheard fun other h _ => ?_
          rw [hlive] at h
          cases h
          exact hreact
        | launch => exact .single (.launch hpending hlive hreact)
        | remember => exact .single (.remember hpending hlive hreact)
        | coalesce => exact .single (.coalesce hpending hlive hreact)
      · rw [if_pos hepoch]
        refine hunheard fun other h hsame => ?_
        rw [hlive] at h
        cases h
        exact absurd hsame hepoch

/-! ## Actions -/

/-- A run that can go on does not wait for a permit. -/
def RunsApart (db : Database σ) : Prop :=
  ∀ id, .run id ∈ db.ready → id ∉ db.waiting

theorem moves_go {job : Job} (hhand : s.hand = none) (hapart : RunsApart s.db)
    (htells : s.db.TellsNobody (.go job)) : Moves s { s with db := s.db.go (.silent σ) job } := by
  obtain ⟨m, hand⟩ := s
  subst hhand
  rw [go]
  split
  next hready =>
    have hready : job ∈ m.db.ready := by simpa using hready
    obtain ⟨taken, htaken⟩ : ∃ taken, taken = { m.db with ready := m.db.ready.erase job } :=
      ⟨_, rfl⟩
    have hmove : Move ⟨m, none⟩ ⟨{ m with db := taken }, some job⟩ := by
      rw [htaken]
      exact .takeUp rfl hready
    rw [← htaken]
    refine (ReflTransGen.single hmove).trans ?_
    cases job with
    | run id =>
      have hwaiting : id ∉ taken.waiting := by
        rw [htaken]
        exact hapart id hready
      exact moves_pollRun (s := ⟨{ m with db := taken }, some (.run id)⟩) hwaiting rfl
    | refresh task =>
      have hrefreshes : taken.refreshes = m.db.refreshes := by rw [htaken]
      refine moves_pollRefresh (s := ⟨{ m with db := taken }, some (.refresh task)⟩) rfl ?_
      intro refresh htask
      exact htells refresh (hrefreshes ▸ htask)
  next => exact .refl

theorem move_subscribe {index : Descriptor} {observer : Observer} {token : Token} {store : Store}
    (h : s.db.store.subscribe index observer = .ok (token, store)) :
    Move s { s with db := { s.db with store := store } } := by
  obtain ⟨-, -, rfl⟩ := Store.subscribe_eq_ok h
  exact .subscriptions (Nat.le_succ _) fun _ _ sub hsub _ => List.mem_append_left _ hsub

theorem moves_act (hhand : s.hand = none) (hapart : RunsApart s.db) (action : Action)
    (hpermitted : s.db.Permits action) (htells : s.db.TellsNobody action) :
    Moves s { s with db := s.db.perform (.silent σ) action } := by
  cases action with
  | put | delete | addConflict | resolveConflicts => exact htells.elim
  | defineView name map reduce =>
    have hlater := Store.later_defineView s.db.store name map reduce
    exact moves_beside (beside_store s.db hlater) fun h => h.later hlater
  | deleteIndex index =>
    exact moves_beside (beside_deleteIndex index s.db) fun h => shares_deleteIndex h index
  | subscribe index callback =>
    simp only [perform, command, Store.perform]
    split
    next hsubscribe => exact .single (move_subscribe hsubscribe)
    next => exact .refl
  | unsubscribe token =>
    refine .single (.subscriptions (Nat.le_refl _) fun live hlive sub hsub hheld => ?_)
    have hother : sub.token ≠ token := fun heq => hpermitted live hlive (heq ▸ hheld)
    exact List.mem_filter.2 ⟨hsub, by simpa using hother⟩
  | scan request => exact moves_beside (beside_scan request s.db) fun h => shares_scan h request
  | queryIndex index => exact moves_beside (beside_addQuery _ s.db) fun h => shares_addQuery h rfl
  | queryDocuments => exact moves_beside (beside_addQuery _ s.db) fun h => shares_addQuery h rfl
  | queryMap map => exact moves_beside (beside_queryMap map s.db) fun h => shares_queryMap h map
  | copyQuery query =>
    exact moves_beside (beside_copyQuery query s.db) fun h => shares_copyQuery h query
  | configure query change =>
    exact moves_beside (beside_updateQuery hpermitted _) fun h =>
      shares_updateQuery h query fun _ => ⟨rfl, rfl⟩
  | disposeQuery query =>
    exact moves_beside (beside_dispose hpermitted) fun h => shares_dispose h query
  | dropQuery query =>
    exact moves_beside (beside_dropQuery hpermitted) fun h => shares_dropQuery h query
  | runQuery query =>
    exact moves_beside (beside_runQuery hpermitted) fun h => shares_runQuery h query
  | submit query recipient =>
    obtain ⟨noted, hbeside, hshares, -, hsubmit⟩ := exists_submit query recipient s.db
    simp only [perform, hsubmit]
    exact (moves_beside hbeside hshares).tail (.submit (hpermitted.1.beside hbeside) hpermitted.2)
  | cancel run =>
    cases hrun : s.db.runs[run]? with
    | none =>
      simp only [perform, cancel, hrun]
      exact .refl
    | some submitted => exact .single (.cancel hrun (hpermitted submitted hrun))
  | acquireOwner temporary =>
    exact moves_beside (beside_acquireOwner temporary s.db) fun h => shares_acquireOwner h temporary
  | releaseOwner temporary =>
    exact moves_beside (beside_releaseOwner temporary s.db) fun h => shares_releaseOwner h
      hpermitted
  | releaseDeferred temporary =>
    exact moves_beside (beside_releaseDeferred temporary s.db) fun h =>
      shares_releaseDeferred h hpermitted
  | deleteTemporary temporary =>
    exact moves_beside (beside_deleteTemporary temporary s.db) fun h => shares_deleteTemporary h
      temporary
  | beginScan temporary =>
    exact moves_beside (beside_beginScan temporary s.db) fun h => shares_beginScan h temporary
  | endScan temporary =>
    exact moves_beside (beside_endScan temporary s.db) fun h => shares_endScan h temporary
  | makeLive query => exact moves_makeLive query
  | startLive live => exact moves_startLive hpermitted
  | stopLive live => exact moves_stopLive live
  | disposeLive live => exact moves_disposeLive live
  | dropLive live => exact moves_dropLive live
  | addListener live callback =>
    exact .single (.listen live fun live => live.listeners ++ [callback])
  | removeListener live callback =>
    simp only [perform, removeListener]
    split
    · exact .refl
    · exact .single (.listen live fun live => live.listeners.filter (· != callback))
  | go job => exact moves_go hhand hapart htells
  | scanRun run =>
    simp only [perform, endRunScan]
    split
    next hscanning => exact moves_scanRun (by simpa using hscanning)
    next => exact .refl
  | fire => exact moves_fireNext

end Viewbase.Stance

namespace Viewbase.Moment.Step

variable {σ : Type} {m m' : Moment σ}

open Stance Relation

/-- Every step is made of moves. -/
theorem moves (hapart : RunsApart m.db) (hstep : Step m m') : Moves ⟨m, none⟩ ⟨m', none⟩ := by
  cases hstep with
  | act action hpermitted htells => exact moves_act rfl hapart action hpermitted htells
  | write hedit hwrite => exact .single (.write (s := ⟨m, none⟩) hedit hwrite)
  | tell observer change => exact moves_tell rfl
  | @takeIn _ task run refresh submitted hready htask hstage hrun =>
    have htaken : Move ⟨m, none⟩ _ := .takeUp rfl hready
    exact (ReflTransGen.single htaken).trans (moves_takeIn rfl htask hstage hrun)
  | @retire _ task refresh htelling htask =>
    have hover : Move ⟨m, none⟩ _ := .retire htelling
    exact (ReflTransGen.single hover).trans (moves_reap refresh.live)
  | touch client => exact moves_beside (Database.beside_client m.db client) fun h => h

end Viewbase.Moment.Step
