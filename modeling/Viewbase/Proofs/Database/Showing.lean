import Viewbase.Proofs.Database.Resting

/-!
What live queries show.

A live query shows rows and the error of its last run, and tells its listeners.  Nothing but the
outcome of a run changes what it shows (`Database.Shows`, `Database.shows_perform`), and an outcome
changes only the live query that takes it in (`Database.lives_finishLive`).
-/

namespace Viewbase

/-- A live query shows what it showed, to the same listeners. -/
structure LiveQuery.Shows (live live' : LiveQuery) : Prop where
  rows : live'.rows = live.rows
  lastError : live'.lastError = live.lastError
  listeners : live'.listeners = live.listeners

theorem LiveQuery.Shows.refl (live : LiveQuery) : live.Shows live :=
  ⟨rfl, rfl, rfl⟩

theorem LiveQuery.Shows.trans {a b c : LiveQuery} (h : a.Shows b) (h' : b.Shows c) : a.Shows c :=
  ⟨h'.rows.trans h.rows, h'.lastError.trans h.lastError, h'.listeners.trans h.listeners⟩

namespace Database

variable {σ : Type} {db db' db'' : Database σ} {id : Nat}

/-- All live queries show what they showed, to the same listeners. -/
def Shows (db db' : Database σ) : Prop :=
  Follows LiveQuery.Shows db.lives db'.lives

theorem shows_of_lives (h : db'.lives = db.lives) : Shows db db' :=
  .of_eq LiveQuery.Shows.refl h

theorem Shows.trans (h : Shows db db') (h' : Shows db' db'') : Shows db db'' :=
  Follows.trans LiveQuery.Shows.trans h h'

theorem shows_updateLive (id : Nat) {change : LiveQuery → LiveQuery}
    (h : ∀ live : LiveQuery, live.Shows (change live)) (db : Database σ) :
    Shows db (db.updateLive id change) :=
  .modify LiveQuery.Shows.refl fun live _ => h live

/-! ## Requests of the client -/

theorem shows_makeLive (query : Nat) (db : Database σ) : Shows db (db.makeLive query).1 := by
  have hcopied := (beside_copyQuery query db).lives
  rw [makeLive]
  split
  · exact shows_of_lives rfl
  split
  next heq =>
    rw [heq] at hcopied
    exact shows_of_lives hcopied
  next heq =>
    rw [heq] at hcopied
    exact (shows_of_lives hcopied).trans (.push LiveQuery.Shows.refl _ _)

theorem shows_startLive (id : Nat) (db : Database σ) : Shows db (db.startLive id).1 := by
  rw [startLive]
  split
  · exact shows_of_lives rfl
  next live _ =>
    split
    · exact shows_of_lives rfl
    split
    · exact shows_of_lives rfl
    obtain ⟨opened, hopenedEq⟩ : ∃ opened, opened =
      db.updateLive id fun other => { other with epoch := live.epoch + 1 } := ⟨_, rfl⟩
    have hopened : Shows db opened := by
      rw [hopenedEq]
      refine shows_updateLive id ?_ db
      exact fun _ => ⟨rfl, rfl, rfl⟩
    dsimp only
    rw [← hopenedEq]
    split
    · exact hopened
    next token store _ =>
      have hstarted : Shows { opened with store := store }
          ({ opened with store := store }.updateLive id fun other =>
            { other with token := some token, phase := .awaitingInitial false }) := by
        refine shows_updateLive id ?_ _
        exact fun _ => ⟨rfl, rfl, rfl⟩
      exact hopened.trans hstarted

theorem shows_stopLive (id : Nat) (db : Database σ) : Shows db (db.stopLive id) := by
  rw [stopLive]
  split
  · exact shows_of_lives rfl
  next live _ =>
    split
    · exact shows_of_lives rfl
    · have hstopped : Shows db (db.updateLive id fun other =>
          { other with
            epoch := other.epoch + 1, phase := .stopped, running := none, token := none }) := by
        refine shows_updateLive id ?_ db
        exact fun _ => ⟨rfl, rfl, rfl⟩
      refine hstopped.trans (shows_of_lives ?_)
      exact (Stance.lives_endSubscription live.token _).trans
        (Stance.lives_cancelRunning live.running _)

theorem shows_disposeLive (id : Nat) (db : Database σ) :
    Shows db (db.disposeLive (.silent σ) id) := by
  rw [disposeLive]
  split
  · exact shows_of_lives rfl
  next live _ =>
    split
    · exact shows_of_lives rfl
    · have hmarked : Shows db (db.updateLive id fun other => { other with disposed := true }) := by
        refine shows_updateLive id ?_ db
        exact fun _ => ⟨rfl, rfl, rfl⟩
      exact (hmarked.trans (shows_stopLive id _)).trans
        (shows_of_lives (aside_release live.query _).lives)

theorem shows_dropLive (id : Nat) (db : Database σ) : Shows db (db.dropLive (.silent σ) id) := by
  have hgiven : Shows (db.stopLive id)
      ((db.stopLive id).updateLive id fun other => { other with held := false }) := by
    refine shows_updateLive id ?_ _
    exact fun _ => ⟨rfl, rfl, rfl⟩
  exact ((shows_stopLive id db).trans hgiven).trans (shows_of_lives (aside_reap id _).lives)

/-! ## Changes and refreshes -/

theorem shows_changeLive (id epoch : Nat) (change : Change) (db : Database σ) :
    Shows db (db.changeLive id epoch change) := by
  have hphase : ∀ phase : Phase → Phase,
      Shows db (db.updateLive id fun live => { live with phase := phase live.phase }) := by
    intro phase
    refine shows_updateLive id ?_ db
    exact fun _ => ⟨rfl, rfl, rfl⟩
  rw [changeLive]
  split
  · exact shows_of_lives rfl
  split
  · exact shows_of_lives rfl
  split
  · exact shows_of_lives rfl
  · exact hphase fun _ => .requerying false
  · exact hphase LiveQuery.remembering
  · exact shows_of_lives rfl

theorem shows_notifyOne (change : Change) (observer : Observer) (db : Database σ) :
    Shows db (db.notifyOne (.silent σ) change observer) := by
  cases observer with
  | client callback => exact shows_of_lives rfl
  | live id epoch => exact shows_changeLive id epoch change db

theorem shows_executeLive (task id epoch : Nat) (db : Database σ) :
    Shows db (db.executeLive task id epoch) := by
  rw [executeLive]
  split
  · exact shows_of_lives rfl
  next live _ =>
    split
    · exact shows_of_lives rfl
    · have hsubmitted := (aside_submit live.query (.refresh task) db).lives
      cases hsubmit : db.submit live.query (.refresh task) with
      | mk submitted run =>
        rw [hsubmit] at hsubmitted
        have hrunning : Shows submitted
            (submitted.updateLive id fun live => { live with running := some run }) := by
          refine shows_updateLive id ?_ submitted
          exact fun _ => ⟨rfl, rfl, rfl⟩
        exact (shows_of_lives hsubmitted).trans hrunning

theorem shows_pollRefresh {task : Nat} (hawaits : ∀ refresh, db.refreshes[task]? = some refresh →
    ∀ run, refresh.stage ≠ .awaiting run) : Shows db (db.pollRefresh (.silent σ) task) := by
  rw [pollRefresh]
  split
  · exact shows_of_lives rfl
  next refresh hrefresh =>
    have hexecuted := (shows_executeLive task refresh.live refresh.epoch db).trans
      (shows_of_lives (aside_reap refresh.live _).lives)
    split
    · exact hexecuted
    · exact shows_of_lives rfl
    · exact hexecuted
    next run hstage => exact absurd hstage (hawaits refresh hrefresh run)
    · exact shows_of_lives rfl
    · exact shows_of_lives rfl

/-- No action changes what a live query shows, and only those on listeners change who listens. -/
theorem shows_perform {action : Action} (hpermitted : db.Permits action)
    (htells : db.TellsNobody action) (hadd : ∀ id callback, action ≠ .addListener id callback)
    (hremove : ∀ id callback, action ≠ .removeListener id callback) :
    Shows db (db.perform (.silent σ) action) := by
  cases hstirs : action.stirs with
  | false => exact shows_of_lives (aside_perform hpermitted htells hstirs).lives
  | true =>
    cases action with
    | subscribe index callback => exact shows_of_lives rfl
    | unsubscribe token => exact shows_of_lives rfl
    | makeLive query => exact shows_makeLive query db
    | startLive id => exact shows_startLive id db
    | stopLive id => exact shows_stopLive id db
    | disposeLive id => exact shows_disposeLive id db
    | dropLive id => exact shows_dropLive id db
    | addListener id callback => exact absurd rfl (hadd id callback)
    | removeListener id callback => exact absurd rfl (hremove id callback)
    | go job =>
      cases job with
      | run run => exact shows_of_lives (begins_go run db).lives
      | refresh task =>
        simp only [perform, go]
        split
        · have htaken : Shows db { db with ready := db.ready.erase (.refresh task) } :=
            shows_of_lives rfl
          exact htaken.trans (shows_pollRefresh htells)
        · exact shows_of_lives rfl
    | scanRun run => exact shows_of_lives (begins_endRunScan run db).lives
    | fire => exact shows_of_lives (calm_fireNext db).2
    | _ => cases hstirs

/-- Listeners come to a live query and go; it shows what it showed. -/
theorem exists_listen {live : LiveQuery} (hlive : db.lives[id]? = some live) (other : Nat)
    (change : List Nat → List Nat) :
    ∃ now, (db.updateLive other fun live =>
        { live with listeners := change live.listeners }).lives[id]? = some now ∧
      now.rows = live.rows ∧ now.lastError = live.lastError ∧
      now.listeners = if other = id then change live.listeners else live.listeners := by
  by_cases hother : other = id
  · exact ⟨{ live with listeners := change live.listeners },
      by simp [updateLive, hother, hlive], rfl, rfl, (if_pos hother).symm⟩
  · exact ⟨live, by simp [updateLive, hother, hlive], rfl, rfl, (if_neg hother).symm⟩

/-! ## Outcomes -/

/-- An outcome of the current epoch is taken in by its live query and concerns no other. -/
theorem lives_finishLive {live : LiveQuery} {epoch : Nat} (hlive : db.lives[id]? = some live)
    (hcurrent : live.isCurrent epoch = true) (outcome : Outcome) : ∃ phase,
      (db.finishLive (.silent σ) id epoch outcome).lives = db.lives.modify id fun other =>
        { other.absorb (live.judge outcome) with running := none, phase := phase } := by
  have hsettled : ∀ db : Database σ, ∃ phase, (db.settleLive id live).lives =
      db.lives.modify id fun other => { other with phase := phase } := by
    intro db
    rw [settleLive]
    split
    · exact ⟨.requerying false, rfl⟩
    · exact ⟨.idle, rfl⟩
  obtain ⟨absorbed, habsorbed⟩ : ∃ absorbed, absorbed =
    (db.recordVerdict live (live.judge outcome)).updateLive id fun other =>
      { other.absorb (live.judge outcome) with running := none } := ⟨_, rfl⟩
  have hlives : absorbed.lives = db.lives.modify id fun other =>
      { other.absorb (live.judge outcome) with running := none } := by
    rw [habsorbed, updateLive, (Stance.beside_recordVerdict live (live.judge outcome) db).lives]
  obtain ⟨phase, hphase⟩ := hsettled absorbed
  rw [hlives, List.modify_modify_eq] at hphase
  refine ⟨phase, ?_⟩
  simp only [finishLive, hlive, hcurrent, Bool.not_true, Bool.false_eq_true, if_false,
    Stance.tellListeners_silent, ← habsorbed]
  split <;> exact hphase

/-- An outcome of another epoch is ignored. -/
theorem finishLive_of_lapsed {live : LiveQuery} {epoch : Nat} (hlive : db.lives[id]? = some live)
    (hlapsed : live.isCurrent epoch = false) (outcome : Outcome) :
    db.finishLive (.silent σ) id epoch outcome = db := by
  simp only [finishLive, hlive, hlapsed, Bool.not_false, if_true]

/-- An outcome is nothing to other live queries. -/
theorem getElem?_finishLive_ne {other : Nat} (hother : id ≠ other) (epoch : Nat)
    (outcome : Outcome) (db : Database σ) :
    (db.finishLive (.silent σ) other epoch outcome).lives[id]? = db.lives[id]? := by
  cases hlive : db.lives[other]? with
  | none => simp only [finishLive, hlive]
  | some live =>
    cases hcurrent : live.isCurrent epoch with
    | false => rw [finishLive_of_lapsed hlive hcurrent]
    | true =>
      obtain ⟨phase, hlives⟩ := lives_finishLive hlive hcurrent outcome
      rw [hlives, List.getElem?_modify_ne _ _ (Ne.symm hother)]

end Database

/-! ## Before the first start -/

/-- A live query that is stopped and shows nothing. -/
structure LiveQuery.Blank (live : LiveQuery) : Prop where
  stopped : live.phase = .stopped
  rows : live.rows = none
  lastError : live.lastError = none

/-- Live queries are blank until they are started for the first time. -/
def BlankAtFirst (lives : List LiveQuery) : Prop :=
  ∀ (id : Nat) (live : LiveQuery), lives[id]? = some live → live.epoch = 0 → live.Blank

theorem blankAtFirst_nil : BlankAtFirst [] := by
  intro id live hlive
  rw [List.getElem?_nil] at hlive
  cases hlive

theorem BlankAtFirst.push {lives : List LiveQuery} (h : BlankAtFirst lives) (index : Descriptor)
    (query : Nat) : BlankAtFirst (lives ++ [.new index query]) := by
  intro id live hlive hepoch
  rw [Database.getElem?_push] at hlive
  split at hlive
  · cases hlive
    exact ⟨rfl, rfl, rfl⟩
  · exact h id live hlive hepoch

theorem BlankAtFirst.modify {lives : List LiveQuery} (h : BlankAtFirst lives) {id : Nat}
    {change : LiveQuery → LiveQuery} (hchange : ∀ live : LiveQuery, lives[id]? = some live →
      (change live).epoch = 0 → (live.epoch = 0 → live.Blank) → (change live).Blank) :
    BlankAtFirst (lives.modify id change) := by
  intro other live hlive hepoch
  rw [List.getElem?_modify] at hlive
  obtain ⟨old, hold, heq⟩ := Option.map_eq_some_iff.1 hlive
  split at heq
  next hid =>
    subst hid heq
    exact hchange old hold hepoch (h id old hold)
  next =>
    subst heq
    exact h other old hold hepoch

theorem BlankAtFirst.move {σ : Type} {s s' : Stance σ} (h : BlankAtFirst s.db.lives)
    (hmove : Move s s') : BlankAtFirst s'.db.lives := by
  have hstay : ∀ {lives : List LiveQuery}, lives = s.db.lives → BlankAtFirst lives :=
    fun heq => heq ▸ h
  have hkept : ∀ {id : Nat} {change : LiveQuery → LiveQuery},
      (∀ live : LiveQuery, (change live).epoch = live.epoch ∧ (change live).phase = live.phase ∧
        (change live).rows = live.rows ∧ (change live).lastError = live.lastError) →
        BlankAtFirst (s.db.lives.modify id change) := by
    intro id change hsame
    refine h.modify fun live _ hepoch hblank => ?_
    obtain ⟨hsameEpoch, hphase, hrows, herror⟩ := hsame live
    obtain ⟨hstopped, hnone, hfine⟩ := hblank (hsameEpoch ▸ hepoch)
    exact ⟨hphase.trans hstopped, hrows.trans hnone, herror.trans hfine⟩
  -- A live query that is started has left its first epoch.
  have hstarted : ∀ {id : Nat} {live : LiveQuery} {change : LiveQuery → LiveQuery},
      s.db.lives[id]? = some live → live.phase ≠ .stopped → (change live).epoch = live.epoch →
        BlankAtFirst (s.db.lives.modify id change) := by
    intro id live change hlive hrunning hsame
    refine h.modify fun other hother hepoch hblank => ?_
    obtain rfl : other = live := Option.some.inj (hother.symm.trans hlive)
    exact absurd (hblank (hsame ▸ hepoch)).stopped hrunning
  cases hmove with
  | beside h => exact hstay h.lives
  | @cancel id => exact hstay (Database.aside_cancel id s.db).lives
  | @permit id => exact hstay (Database.aside_takePermit id s.db).lives
  | @queue id => exact hstay (Database.aside_takePermit id s.db).lives
  | grant => exact hstay (Database.aside_givePermit s.db).lives
  | @abandon id run => exact hstay (Database.aside_wakeRecipient run.recipient _).lives
  | @conclude id run control outcome =>
    exact hstay ((Database.aside_wakeRecipient run.recipient _).lives.trans
      (Database.aside_keepGeneration run.query outcome s.db).lives)
  | makeLive hbeside =>
    simp only [hbeside.lives]
    exact h.push _ _
  | listen => exact hkept fun _ => ⟨rfl, rfl, rfl, rfl⟩
  | startInVain => exact h.modify fun _ _ hepoch => absurd hepoch (Nat.succ_ne_zero _)
  | startLive => exact h.modify fun _ _ hepoch => absurd hepoch (Nat.succ_ne_zero _)
  | stop =>
    rw [Stance.lives_endSubscription, Stance.lives_cancelRunning]
    exact h.modify fun _ _ hepoch => absurd hepoch (Nat.succ_ne_zero _)
  | dispose => exact hkept fun _ => ⟨rfl, rfl, rfl, rfl⟩
  | letGo => exact hkept fun _ => ⟨rfl, rfl, rfl, rfl⟩
  | giveUp hbeside => exact hstay hbeside.lives
  | remember hpending hlive hreact =>
    refine hstarted hlive (fun hstopped => ?_) rfl
    rw [hstopped] at hreact
    cases hreact
  | launch hpending hlive hreact =>
    exact hstarted hlive (by simp [LiveQuery.idle_of_launch hreact]) rfl
  | execute hhand htask hstage hlive hcurrent =>
    exact hstarted hlive (LiveQuery.isCurrent_iff.1 hcurrent).2 rfl
  | @takeIn task id refresh run live hhand htask hstage hrun hlive hcurrent =>
    have hrunning := (LiveQuery.isCurrent_iff.1 hcurrent).2
    obtain ⟨-, -, hepoch, -⟩ := Database.absorb_eq live (live.judge run.answer)
    simp only [Database.settleLive]
    split
    · simp only [Database.launch, Database.wake, Database.updateLive, List.modify_modify_eq]
      exact hstarted hlive hrunning hepoch
    · simp only [Database.updateLive, List.modify_modify_eq]
      exact hstarted hlive hrunning hepoch
  | _ => exact hstay rfl

theorem BlankAtFirst.moves {σ : Type} {s s' : Stance σ} (h : BlankAtFirst s.db.lives)
    (hmoves : Moves s s') : BlankAtFirst s'.db.lives := by
  induction hmoves with
  | refl => exact h
  | tail _ hmove ih => exact ih.move hmove

theorem Moment.Reached.blankAtFirst {σ : Type} {m : Moment σ} (h : m.Reached) :
    BlankAtFirst m.db.lives := by
  induction h with
  | create hcreate =>
    rw [Database.create] at hcreate
    split at hcreate <;> cases hcreate
    exact blankAtFirst_nil
  | @step before after hreached hstep ih =>
    obtain ⟨hplaced, -⟩ := hreached.attended
    exact BlankAtFirst.moves ih (hstep.moves hplaced.runsApart)

end Viewbase
