import Viewbase.Proofs.Database.Executions
import Viewbase.Proofs.Database.Subscribers

/-!
Silence after a stop.

Until a stopped live query is started again, none of its listeners is called, what it shows does not
change, and no run of it passes its check for cancellation (`resting`).  What was under way for it
when it was stopped stays without effect for good, also once it has been started again
(`goesOn_in_vain`).

A run that has passed the check is looked at again only when its scan is over.  Its scan may be put
off past the stop and past later writes, and enters the store all the same
(`Reached.enters_after_stop`); it does so once, and what it finds is discarded
(`Reached.enters_in_vain`).
-/

namespace Viewbase

namespace Moment

open Relation

variable {σ : Type} {m m' m'' : Moment σ} {id : Nat} {deed : Deed σ}

/-! ## Runs of a stopped live query -/

/-- All runs of a stopped live query were cancelled or have ended. -/
theorem Reached.not_isOpen_of_stopped (h : m.Reached) {live : LiveQuery}
    (hlive : m.db.lives[id]? = some live) (hstopped : live.phase = .stopped) {run : Nat}
    {submitted : Run} (hrun : m.db.runs[run]? = some submitted)
    (hquery : submitted.query = live.query) : ¬submitted.control.IsOpen := by
  obtain ⟨-, hattended, -⟩ := h.attended
  obtain ⟨query, -, hattends⟩ := hattended.attends id live hlive
  have hnone := hattends.progress
  rw [Stance.Progress, hstopped] at hnone
  intro hopen
  have hrunning := (hattends.runs run submitted hrun hquery).2 hopen
  rw [hnone] at hrunning
  cases hrunning

/-- A scan is under way only for a run that there is. -/
theorem Reached.exists_of_scanning (h : m.Reached) {run : Nat} (hscanning : run ∈ m.db.scanning) :
    ∃ submitted, m.db.runs[run]? = some submitted := by
  obtain ⟨hplaced, -⟩ := h.attended
  have hat := hplaced.runs run
  have hone : 0 < m.db.scanning.count run := List.count_pos_iff.2 hscanning
  cases hrun : m.db.runs[run]? with
  | some submitted => exact ⟨submitted, rfl⟩
  | none =>
    rw [hrun] at hat
    have hnone : m.db.scanning.count run = 0 := hat.2.2
    omega

/-- A run that is cancelled stays so. -/
theorem cancelled_of_goes {run run' : Run} (h : ReflTransGen Run.Goes run run')
    (hcancelled : run.control = .cancelled) : run'.control = .cancelled := by
  induction h with
  | refl => exact hcancelled
  | tail _ hgoes ih =>
    cases hgoes with
    | stay | permit | abandon | scan => exact ih
    | cancel => rw [ih]; rfl
    | start _ hpending => rw [ih] at hpending; cases hpending
    | conclude hconcludes =>
      cases hconcludes with
      | refused _ hpending => rw [ih] at hpending; cases hpending
      | discarded => exact ih
      | failed _ _ hrunning | answered _ hrunning => rw [ih] at hrunning; cases hrunning

theorem not_isOpen_of_goes {run run' : Run} (h : ReflTransGen Run.Goes run run')
    (hclosed : ¬run.control.IsOpen) : run'.control.IsOpen → False := by
  induction h with
  | refl => exact hclosed
  | tail _ hgoes ih => exact hgoes.not_isOpen ih

/-- A scan that is under way later for a run that was cancelled is under way already. -/
theorem Reached.scanning_of_closed (h : m.Reached) (hsteps : ReflTransGen Step m m') {run : Nat}
    {submitted : Run} (hrun : m.db.runs[run]? = some submitted)
    (hclosed : ¬submitted.control.IsOpen) (hscanning : run ∈ m'.db.scanning) :
    run ∈ m.db.scanning := by
  induction hsteps with
  | refl => exact hscanning
  | tail hsteps hstep ih =>
    obtain ⟨deed, hdoes⟩ := step_iff.1 hstep
    rcases scanning_does hdoes run hscanning with hbefore | ⟨before, hbefore, hpending⟩
    · exact ih hbefore
    · obtain ⟨later, hlater, hgoes⟩ := (h.onward hsteps).runs run submitted hrun
      rw [hbefore] at hlater
      cases hlater
      exact (not_isOpen_of_goes hgoes hclosed (.inl hpending)).elim

/-- A run that is cancelled answers that it was. -/
theorem Reached.answer_of_cancelled (h : m.Reached) {run : Nat} {submitted : Run}
    (hrun : m.db.runs[run]? = some submitted) (hcancelled : submitted.control = .cancelled) :
    submitted.answer = .error .cancelled := by
  obtain ⟨history, hshows⟩ := h.traced submitted (List.mem_of_getElem? hrun)
  rw [hshows.answer]
  exact (Execution.sound_after history).answer_of_cancelled (hshows.control ▸ hcancelled)

/-- A run whose scan is under way was cancelled if it is not open. -/
theorem Reached.cancelled_of_scanning (h : m.Reached) {run : Nat} {submitted : Run}
    (hrun : m.db.runs[run]? = some submitted) (hscanning : run ∈ m.db.scanning)
    (hclosed : ¬submitted.control.IsOpen) : submitted.control = .cancelled := by
  obtain ⟨hplaced, -⟩ := h.attended
  obtain ⟨history, hshows⟩ := h.traced submitted (List.mem_of_getElem? hrun)
  have hplace := hshows.place
  rw [(hplaced.of_scanning hscanning hrun).1] at hplace
  have hopen := (Execution.sound_after history).of_started hplace.eq_started
  rw [hshows.control] at hclosed ⊢
  exact hopen.resolve_left fun hrunning => hclosed (.inr hrunning)

/-- The scan of a run that has passed its check enters the store. -/
def Enters (m : Moment σ) (run : Nat) (m' : Moment σ) : Prop :=
  run ∈ m.db.scanning ∧ m.Does (.act (.scanRun run)) m'

/-- A scan that was carried out is not under way any more. -/
theorem Reached.not_scanning_of_enters (h : m.Reached) {run : Nat} (henters : m.Enters run m') :
    run ∉ m'.db.scanning := by
  obtain ⟨hscanning, hdoes⟩ := henters
  obtain ⟨submitted, hrun⟩ := h.exists_of_scanning hscanning
  cases hdoes with
  | act action hpermitted htells =>
    simp only [Database.perform, Database.endRunScan, List.contains_iff_mem.2 hscanning, if_true,
      (Database.aside_scanRun hrun).scanning]
    simp

/-- The scan of a run that was cancelled enters the store once at most, and the run answers that it
was cancelled, whatever is found. -/
theorem Reached.enters_in_vain (h : m.Reached) {run : Nat} {submitted : Run}
    (hrun : m.db.runs[run]? = some submitted) (hcancelled : submitted.control = .cancelled)
    {before after later : Moment σ} (hsteps : ReflTransGen Step m before)
    (henters : before.Enters run after) (hlater : ReflTransGen Step after later) :
    run ∉ later.db.scanning ∧
      ∀ done, later.db.runs[run]? = some done → done.answer = .error .cancelled := by
  have hbefore := h.steps hsteps
  have hafter := hsteps.tail henters.2.step
  have hreached := h.steps hafter
  have hkept {now : Moment σ} (hsteps : ReflTransGen Step m now) :
      ∃ done, now.db.runs[run]? = some done ∧ done.control = .cancelled := by
    obtain ⟨done, hdone, hgoes⟩ := (h.onward hsteps).runs run submitted hrun
    exact ⟨done, hdone, cancelled_of_goes hgoes hcancelled⟩
  constructor
  · intro hscanning
    obtain ⟨done, hdone, hclosed⟩ := hkept hafter
    exact hbefore.not_scanning_of_enters henters
      (hreached.scanning_of_closed hlater hdone (by simp [hclosed, Control.IsOpen]) hscanning)
  · intro done hdone
    obtain ⟨found, hfound, hclosed⟩ := hkept (hafter.trans hlater)
    obtain rfl : found = done := Option.some.inj (hfound.symm.trans hdone)
    exact (hreached.steps hlater).answer_of_cancelled hdone hclosed

/-! ## Until the next start -/

/-- Steps without a successful start of a live query. -/
abbrev RestsUntil (id : Nat) : Moment σ → Moment σ → Prop :=
  ReflTransGen fun m m' => ∃ deed, m.Does deed m' ∧ ¬m.Starts id deed

theorem RestsUntil.steps (h : RestsUntil id m m') : ReflTransGen Step m m' := by
  induction h with
  | refl => exact .refl
  | tail _ hlast ih =>
    obtain ⟨deed, hdoes, -⟩ := hlast
    exact ih.tail hdoes.step

/-- Until it is started again a stopped live query shows what it showed, and only scans that were
under way when it was stopped are under way for it. -/
theorem Reached.resting (h : m.Reached) {live : LiveQuery} (hlive : m.db.lives[id]? = some live)
    (hstopped : live.phase = .stopped) (hrests : RestsUntil id m m') :
    (∃ now, m'.db.lives[id]? = some now ∧ now.phase = .stopped ∧ now.query = live.query ∧
      now.rows = live.rows ∧ now.lastError = live.lastError) ∧
    ∀ run submitted, m'.db.runs[run]? = some submitted → submitted.query = live.query →
      run ∈ m'.db.scanning → run ∈ m.db.scanning := by
  induction hrests with
  | refl => exact ⟨⟨live, hlive, hstopped, rfl, rfl, rfl⟩, fun _ _ _ _ hrun => hrun⟩
  | @tail before after hrests hlast ih =>
    obtain ⟨deed, hdoes, hstart⟩ := hlast
    obtain ⟨⟨then', hthen, hphase, hquery, hrows, herror⟩, hscans⟩ := ih
    have hbefore := h.steps (RestsUntil.steps hrests)
    have hspares := spares_does hdoes hstart
    obtain ⟨now, hnow, hphase', hquery', hrows', herror'⟩ := hspares.shown then' hthen hphase
    refine ⟨⟨now, hnow, hphase', hquery'.trans hquery, hrows'.trans hrows, herror'.trans herror⟩,
      fun run submitted hrun hof hscanning => ?_⟩
    have honward := hbefore.onward (.single hdoes.step)
    rcases hspares.scanning run hscanning with hold | ⟨old, hold, hpending⟩
    · obtain ⟨old, hrun'⟩ := hbefore.exists_of_scanning hold
      obtain ⟨other, hother, hgoes⟩ := honward.runs run old hrun'
      rw [hrun] at hother
      cases hother
      exact hscans run old hrun' ((Run.kept hgoes).1.symm.trans hof) hold
    · obtain ⟨other, hother, hgoes⟩ := honward.runs run old hold
      rw [hrun] at hother
      cases hother
      have hof' := ((Run.kept hgoes).1.symm.trans hof).trans hquery.symm
      exact absurd (.inl hpending) (hbefore.not_isOpen_of_stopped hthen hphase hold hof')

/-! ## What was under way -/

/-- No epoch of the live query up to the given one can come again. -/
def Past (m : Moment σ) (id epoch : Nat) : Prop :=
  ∃ live, m.db.lives[id]? = some live ∧
    (epoch < live.epoch ∨ live.epoch = epoch ∧ live.phase = .stopped)

theorem Past.onward {epoch : Nat} (h : m.Past id epoch) (honward : m.Onward m') :
    m'.Past id epoch := by
  obtain ⟨live, hlive, hpast⟩ := h
  obtain ⟨live', hlive', hgoes⟩ := honward.lives id live hlive
  refine ⟨live', hlive', ?_⟩
  have hle := hgoes.epoch
  rcases hpast with hlt | ⟨rfl, hstopped⟩
  · exact .inl (by omega)
  · rcases Nat.lt_or_eq_of_le hle with hlt | heq
    · exact .inl hlt
    · exact .inr ⟨heq.symm, hgoes.stopped heq.symm hstopped⟩

theorem Past.lapsed {epoch : Nat} (h : m.Past id epoch) {earlier : Nat} (hle : earlier ≤ epoch) :
    ∃ live, m.db.lives[id]? = some live ∧ live.isCurrent earlier = false ∧
      (live.epoch = earlier → live.phase = .stopped) := by
  obtain ⟨live, hlive, hpast⟩ := h
  refine ⟨live, hlive, ?_, ?_⟩
  · rcases hpast with hlt | ⟨-, hstopped⟩
    · have hne : ¬live.epoch = earlier := by omega
      rw [LiveQuery.isCurrent, beq_false_of_ne hne, Bool.false_and]
    · exact LiveQuery.isCurrent_of_stopped hstopped earlier
  · intro heq
    rcases hpast with hlt | ⟨-, hstopped⟩
    · omega
    · exact hstopped

end Moment

/-! ## What is past is without effect -/

namespace Database

variable {σ : Type} {db : Database σ} {id task : Nat}

/-- A refresh of an epoch that is over ends without effect. -/
theorem lives_go_refresh (hlapsed : ∀ refresh, db.refreshes[task]? = some refresh →
      ∃ live, db.lives[refresh.live]? = some live ∧ live.isCurrent refresh.epoch = false) :
    (db.go (.silent σ) (.refresh task)).lives = db.lives := by
  rw [go]
  split
  · obtain ⟨taken, htaken⟩ : ∃ taken, taken = { db with ready := db.ready.erase (.refresh task) } :=
      ⟨_, rfl⟩
    have hlives : taken.lives = db.lives := by rw [htaken]
    rw [← htaken, poll, pollRefresh]
    split
    · exact hlives
    next refresh hrefresh =>
      obtain ⟨live, hlive, hcurrent⟩ := hlapsed refresh (by rw [← hrefresh, htaken])
      rw [← hlives] at hlive
      have hexecuted : ((taken.executeLive task refresh.live refresh.epoch).reap (.silent σ)
          refresh.live).lives = db.lives := by
        rw [(aside_reap _ _).lives]
        simp only [executeLive, hlive, hcurrent, Bool.not_false, if_true]
        exact hlives
      split
      · exact hexecuted
      · exact hlives
      · exact hexecuted
      · split
        · exact hlives
        · rw [(aside_reap _ _).lives]
          simp only [finishLive, hlive, hcurrent, Bool.not_false, if_true]
          exact hlives
      · exact hlives
      · exact hlives
  · rfl

/-- A change told to an epoch that is over, or to a stopped live query, calls for nothing. -/
theorem changeLive_of_past {epoch : Nat} {live : LiveQuery} (hlive : db.lives[id]? = some live)
    (hpast : live.epoch = epoch → live.phase = .stopped) (change : Change) :
    db.changeLive id epoch change = db := by
  simp only [changeLive, hlive]
  split
  · rfl
  next hepoch =>
    rw [hpast (not_not.1 hepoch)]
    rfl

end Database

namespace Moment

open Relation

variable {σ : Type} {m m' m'' : Moment σ} {id : Nat} {deed : Deed σ}

/-- A deed by which something goes on that was under way at an earlier moment: a refresh of a live
query, a timer, a run or its scan, or the news of a change that the live query had yet to be told
of. -/
inductive GoesOn (before : Moment σ) (id : Nat) : Deed σ → Prop where
  | refresh {task : Nat} {refresh : Refresh} (htask : before.db.refreshes[task]? = some refresh)
      (hlive : refresh.live = id) : GoesOn before id (.act (.go (.refresh task)))
  | takeIn {task : Nat} {refresh : Refresh} (htask : before.db.refreshes[task]? = some refresh)
      (hlive : refresh.live = id) : GoesOn before id (.takeIn task)
  | retire {task : Nat} {refresh : Refresh} (htask : before.db.refreshes[task]? = some refresh)
      (hlive : refresh.live = id) : GoesOn before id (.retire task)
  | ring : GoesOn before id (.act .fire)
  | run {run : Nat} {submitted : Run} (hrun : before.db.runs[run]? = some submitted) :
      GoesOn before id (.act (.go (.run run)))
  | scan {run : Nat} {submitted : Run} (hrun : before.db.runs[run]? = some submitted) :
      GoesOn before id (.act (.scanRun run))
  | hear {epoch : Nat} {change : Change} (hpending : (.live id epoch, change) ∈ before.pending) :
      GoesOn before id (.tell (.live id epoch) change)

/-- What was under way for a live query that was stopped changes no live query any more, and calls
no listener of it. -/
theorem Reached.goesOn_in_vain (h : m.Reached) {live : LiveQuery}
    (hlive : m.db.lives[id]? = some live) (hstopped : live.phase = .stopped)
    (hsteps : ReflTransGen Step m m') (hdoes : m'.Does deed m'') (hgoesOn : GoesOn m id deed) :
    m'.calls id deed = [] ∧ m''.db.lives = m'.db.lives := by
  have honward := h.onward hsteps
  have hpast : m'.Past id live.epoch := Past.onward ⟨live, hlive, .inr ⟨rfl, hstopped⟩⟩ honward
  obtain ⟨-, hattended, -⟩ := h.attended
  -- A refresh that there was is of an epoch that is over.
  have hlapsed : ∀ {task : Nat} {refresh later : Refresh}, m.db.refreshes[task]? = some refresh →
      refresh.live = id → m'.db.refreshes[task]? = some later → later.live = id ∧
        ∃ live, m'.db.lives[id]? = some live ∧ live.isCurrent later.epoch = false := by
    intro task refresh later htask hof hlater
    obtain ⟨other, hother, hsame, hepoch⟩ := honward.refreshes task refresh htask
    rw [hlater] at hother
    cases hother
    have hle := hattended.epochs task refresh live htask (hof ▸ hlive)
    obtain ⟨now, hnow, hcurrent, -⟩ := hpast.lapsed (hepoch ▸ hle)
    exact ⟨hsame.trans hof, now, hnow, hcurrent⟩
  cases hgoesOn with
  | @refresh task refresh htask hof =>
    cases hdoes with
    | act action hpermitted htells =>
      refine ⟨rfl, Database.lives_go_refresh fun later hlater => ?_⟩
      obtain ⟨hid, hnow⟩ := hlapsed htask hof hlater
      exact hid.symm ▸ hnow
  | @takeIn task refresh htask hof =>
    cases hdoes with
    | @takeIn _ _ run later submitted hready hlater hstage hrun =>
      obtain ⟨hid, now, hnow, hcurrent⟩ := hlapsed htask hof hlater
      constructor
      · simp only [calls, taken?, hlater, hstage, hrun, Option.map_some, hid, if_true]
        exact Database.tellings_of_lapsed hnow hcurrent _
      · simp only [Database.finishLive, hid, hnow, hcurrent, Bool.not_false, if_true]
  | @retire task refresh htask hof =>
    cases hdoes with
    | @retire _ _ later htelling hlater =>
      exact ⟨rfl, (Database.aside_reap later.live _).lives⟩
  | ring =>
    cases hdoes with
    | act action hpermitted htells => exact ⟨rfl, (Database.calm_fireNext m'.db).2⟩
  | @run run submitted hrun =>
    cases hdoes with
    | act action hpermitted htells => exact ⟨rfl, (Database.begins_go run m'.db).lives⟩
  | @scan run submitted hrun =>
    cases hdoes with
    | act action hpermitted htells => exact ⟨rfl, (Database.begins_endRunScan run m'.db).lives⟩
  | @hear epoch change hpending =>
    obtain ⟨old, hold, hepoch⟩ := h.booked.2 id epoch change hpending
    rw [hlive] at hold
    cases hold
    obtain ⟨now, hnow, -, hphase⟩ := hpast.lapsed hepoch
    cases hdoes with
    | tell observer change =>
      refine ⟨rfl, ?_⟩
      rw [Database.notifyOne, Database.changeLive_of_past hnow hphase]

/-! ## Stop -/

/-- From a stop until the next start that succeeds no listener of the live query is called, its rows
and its last error do not change, and no run of it passes its check; a run that had passed it then
has been cancelled.  What was under way when it was stopped never calls a listener or changes the
live query again, and no run of that time passes its check, whatever comes after.  The scan of one
that had passed it may yet enter the store, once, and what it finds is discarded. -/
theorem Reached.silent_after_stop (h : m.Reached) {live : LiveQuery}
    (hlive : m.db.lives[id]? = some live) (hstop : m.Does (.act (.stopLive id)) m') :
    ∃ stopped, m'.db.lives[id]? = some stopped ∧ stopped.phase = .stopped ∧
      stopped.query = live.query ∧
      (∀ before after deed, RestsUntil id m' before → before.Does deed after →
        ¬before.Starts id deed →
          before.calls id deed = [] ∧
          (∃ now, after.db.lives[id]? = some now ∧ now.rows = stopped.rows ∧
            now.lastError = stopped.lastError) ∧
          ∀ run submitted, after.db.runs[run]? = some submitted → submitted.query = live.query →
            run ∈ after.db.scanning → run ∈ m'.db.scanning ∧ ¬submitted.control.IsOpen) ∧
      (∀ before after deed, ReflTransGen Step m' before → before.Does deed after →
        m'.GoesOn id deed → before.calls id deed = [] ∧ after.db.lives = before.db.lives) ∧
      (∀ later run submitted, ReflTransGen Step m' later → m'.db.runs[run]? = some submitted →
        submitted.query = live.query → run ∈ later.db.scanning → run ∈ m'.db.scanning) ∧
      ∀ before after run submitted, ReflTransGen Step m' before → before.Enters run after →
        m'.db.runs[run]? = some submitted → submitted.query = live.query →
          run ∈ m'.db.scanning ∧ ∀ later, ReflTransGen Step after later →
            run ∉ later.db.scanning ∧
              ∀ done, later.db.runs[run]? = some done → done.answer = .error .cancelled := by
  have hreached : m'.Reached := h.step hstop.step
  obtain ⟨stopped, hstopped, hphase, -, hquery⟩ : ∃ stopped, m'.db.lives[id]? = some stopped ∧
      stopped.phase = .stopped ∧ stopped.disposed = live.disposed ∧ stopped.query = live.query := by
    cases hstop with
    | act action hpermitted htells => exact Stance.lives_stopLive hlive
  have hclosed {run : Nat} {submitted : Run} (hrun : m'.db.runs[run]? = some submitted)
      (hof : submitted.query = live.query) : ¬submitted.control.IsOpen :=
    hreached.not_isOpen_of_stopped hstopped hphase hrun (hof.trans hquery.symm)
  refine ⟨stopped, hstopped, hphase, hquery, ?_, ?_, ?_, ?_⟩
  · intro before after deed hrests hdoes hstart
    obtain ⟨⟨then', hthen, hphase', -⟩, -⟩ := hreached.resting hstopped hphase hrests
    have hrests' : RestsUntil id m' after := hrests.tail ⟨deed, hdoes, hstart⟩
    obtain ⟨⟨now, hnow, hresting, hquery', hrows, herror⟩, hscans⟩ :=
      hreached.resting hstopped hphase hrests'
    refine ⟨calls_of_stopped hthen hphase' deed, ⟨now, hnow, hrows, herror⟩, ?_⟩
    intro run submitted hrun hof hscanning
    have hafter := hreached.steps (RestsUntil.steps hrests')
    refine ⟨hscans run submitted hrun (hof.trans hquery.symm) hscanning, ?_⟩
    exact hafter.not_isOpen_of_stopped hnow hresting hrun
      (hof.trans (hquery.symm.trans hquery'.symm))
  · intro before after deed hsteps hdoes hgoesOn
    exact hreached.goesOn_in_vain hstopped hphase hsteps hdoes hgoesOn
  · intro later run submitted hsteps hrun hof hscanning
    exact hreached.scanning_of_closed hsteps hrun (hclosed hrun hof) hscanning
  · intro before after run submitted hsteps henters hrun hof
    have hscanning := hreached.scanning_of_closed hsteps hrun (hclosed hrun hof) henters.1
    have hcancelled := hreached.cancelled_of_scanning hrun hscanning (hclosed hrun hof)
    exact ⟨hscanning, fun later hlater =>
      hreached.enters_in_vain hrun hcancelled hsteps henters hlater⟩

/-- A stop during the first scan: the scan ends, and what it found is told to nobody. -/
theorem Reached.silent_after_stop_under_scan : ∃ (m stopped before after : Moment Unit)
    (shown : LiveQuery), m.Reached ∧ m.Does (.act (.stopLive 0)) stopped ∧
      0 ∈ stopped.db.scanning ∧ RestsUntil 0 stopped before ∧ before.Does (.takeIn 0) after ∧
        before.calls 0 (.takeIn 0) = [] ∧ after.db.lives[0]? = some shown ∧ shown.rows = none := by
  have hmade := @create Unit {} .info 0 () _ rfl
  have hdefined := hmade.step (.act (.defineView "v" Store.bodyById none) trivial trivial)
  have hqueried := hdefined.step (.act (.queryIndex (.named ⟨1⟩ "v" false)) trivial trivial)
  have hlive := hqueried.step (.act (.makeLive 0) trivial trivial)
  have hlistened := hlive.step (.act (.addListener 0 0) trivial trivial)
  have hstarted := hlistened.step (.act (.startLive 0) (by rintro live ⟨⟩; rfl) trivial)
  have hlaunched := hstarted.step (.act (.go (.refresh 0)) trivial (by rintro refresh ⟨⟩ run ⟨⟩))
  have hrunning := hlaunched.step (.act (.go (.run 0)) trivial trivial)
  obtain ⟨hstop, hreached⟩ := hrunning.act (.stopLive 0) trivial trivial
  obtain ⟨hscanned, hreached'⟩ := hreached.act (.scanRun 0) trivial trivial
  obtain ⟨hended, -⟩ := hreached'.act (.go (.run 0)) trivial trivial
  have hrests : RestsUntil 0 _ _ := (ReflTransGen.single ⟨_, hscanned, fun h => by cases h.1⟩).tail
    ⟨_, hended, fun h => by cases h.1⟩
  obtain ⟨stopped, hstopped, -, -, hsilent, -⟩ := hrunning.silent_after_stop rfl hstop
  obtain ⟨hcalls, ⟨now, hnow, hrows, -⟩, -⟩ :=
    hsilent _ _ _ hrests (@Does.takeIn Unit _ 0 0 _ _ (by decide) rfl rfl rfl)
      (fun h => by cases h.1)
  cases hstopped
  exact ⟨_, _, _, _, now, hrunning, hstop, by decide, hrests,
    @Does.takeIn Unit _ 0 0 _ _ (by decide) rfl rfl rfl, hcalls, hnow, hrows⟩

/-- A live query is stopped between the check of its first run and the scan, and a document is
written.  Then the scan of the stopped live query enters the store, and finds the document. -/
theorem Reached.enters_after_stop : ∃ (m stopped written entered : Moment Unit) (live : LiveQuery)
    (run : Run) (answer : Answer), m.Reached ∧ m.Does (.act (.stopLive 0)) stopped ∧
      RestsUntil 0 stopped written ∧ written.db.lives[0]? = some live ∧ live.phase = .stopped ∧
      written.db.runs[0]? = some run ∧ run.query = live.query ∧ written.Enters 0 entered ∧
      stopped.db.store.generation = 0 ∧ stopped.db.store.scans = 0 ∧
      written.db.store.generation = 1 ∧ written.db.store.scans = 0 ∧
      entered.db.store.scans = 1 ∧
      entered.db.runs[0]?.map Run.stage = some (.scanned (.ok answer)) ∧ answer.generation = 1 := by
  have hmade := @create Unit {} .info 0 () _ rfl
  have hdefined := hmade.step (.act (.defineView "v" Store.bodyById none) trivial trivial)
  have hqueried := hdefined.step (.act (.queryIndex (.named ⟨1⟩ "v" false)) trivial trivial)
  have hlive := hqueried.step (.act (.makeLive 0) trivial trivial)
  have hstarted := hlive.step (.act (.startLive 0) (by rintro live ⟨⟩; rfl) trivial)
  have hlaunched := hstarted.step (.act (.go (.refresh 0)) trivial (by rintro refresh ⟨⟩ run ⟨⟩))
  have hrunning := hlaunched.step (.act (.go (.run 0)) trivial trivial)
  obtain ⟨hstop, hreached⟩ := hrunning.act (.stopLive 0) trivial trivial
  obtain ⟨hwrite, hwritten⟩ := hreached.does (@Does.write Unit _ (.put "a" (.bool true)) "a"
    (Store.putEdit "a" (.bool true)) _ _ rfl rfl)
  obtain ⟨hscan, -⟩ := hwritten.act (.scanRun 0) trivial trivial
  exact ⟨_, _, _, _, _, _, _, hrunning, hstop, .single ⟨_, hwrite, fun h => by cases h.1⟩, rfl, rfl,
    rfl, rfl, ⟨by decide, hscan⟩, rfl, rfl, rfl, rfl, rfl, rfl, rfl⟩

end Moment

end Viewbase
