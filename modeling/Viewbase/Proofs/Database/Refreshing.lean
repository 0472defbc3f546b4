import Viewbase.Proofs.Database.Places

/-!
Refreshes go on from place to place.

With these all moves leave background work where it should be (`Placed.move`).
-/

namespace Viewbase.Stance

variable {σ : Type} {s s' : Stance σ}

/-! ## Refreshes that go on -/

theorem getElem?_updateRefresh {db : Database σ} {task : Nat} {refresh : Refresh}
    (htask : db.refreshes[task]? = some refresh) (change : Refresh → Refresh) (other : Nat) :
    (db.updateRefresh task change).refreshes[other]? =
      if other = task then some (change refresh) else db.refreshes[other]? :=
  Database.getElem?_modify_of_some htask change other

/-- A refresh goes on whose run is over, or yet to be submitted. -/
theorem Placed.of_refresh (h : s.Placed) {task : Nat} {refresh refresh' : Refresh}
    (htask : s.db.refreshes[task]? = some refresh)
    (hover : ∀ (id : Nat) (run : Run), refresh.stage = .awaiting id → s.db.runs[id]? = some run →
      run.isOver)
    (hrefreshes : ∀ other : Nat, s'.db.refreshes[other]? =
      if other = task then some refresh' else s.db.refreshes[other]?)
    (hlive : refresh'.live = refresh.live) (hplace : s'.RefreshAt task (some refresh'.stage))
    (hothers : ∀ other, other ≠ task → s'.queued (.refresh other) = s.queued (.refresh other) ∧
      s'.timed other = s.timed other ∧ (other ∈ s'.telling ↔ other ∈ s.telling))
    (htelling : task ∉ s'.telling) (hqueued : ∀ id, s'.queued (.run id) = s.queued (.run id))
    (hruns : s'.db.runs = s.db.runs) (hwaiting : s'.db.waiting = s.db.waiting)
    (hscanning : s'.db.scanning = s.db.scanning) (hlives : s'.db.lives = s.db.lives) :
    s'.Placed := by
  refine ⟨?_, ?_, ?_, ?_, ?_⟩
  · intro id
    rw [hqueued, hruns, hwaiting, hscanning]
    exact h.runs id
  · intro other
    rw [hrefreshes]
    by_cases hother : other = task
    · rw [if_pos hother, hother]
      exact hplace
    · obtain ⟨hsame, htimed, htold⟩ := hothers other hother
      rw [if_neg hother]
      exact (h.refreshes other).congr (fun _ run _ hrun =>
        ⟨run, by rw [hruns]; exact hrun, rfl, rfl⟩) hsame htimed htold
  · intro id run other hrun hfor hunfinished
    rw [hruns] at hrun
    have hstage := h.awaited id run other hrun hfor hunfinished
    have hother : other ≠ task := by
      rintro rfl
      rw [htask, Option.map_some, Option.some.injEq] at hstage
      rw [hover id run hstage hrun] at hunfinished
      cases hunfinished
    rw [hrefreshes, if_neg hother]
    exact hstage
  · intro other hother
    have hne : other ≠ task := fun heq => htelling (heq ▸ hother)
    obtain ⟨id, run, hstage, hrun, hended⟩ := h.telling other ((hothers other hne).2.2.1 hother)
    refine ⟨id, run, ?_, by rw [hruns]; exact hrun, hended⟩
    rw [hrefreshes, if_neg hne]
    exact hstage
  · intro other refresh'' hother
    rw [hlives]
    rw [hrefreshes] at hother
    by_cases hne : other = task
    · rw [if_pos hne] at hother
      cases hother
      rw [hlive]
      exact h.attached task refresh htask
    · rw [if_neg hne] at hother
      exact h.attached other refresh'' hother

/-- Where a refresh in hand is. -/
theorem Placed.refresh_hand (h : s.Placed) {task : Nat} {refresh : Refresh}
    (hhand : s.hand = some (.refresh task)) (htask : s.db.refreshes[task]? = some refresh) :
    s.db.ready.count (.refresh task) = 0 ∧ s.timed task = 0 ∧ refresh.stage ≠ .sleeping ∧
      refresh.stage ≠ .over ∧ ∀ id, refresh.stage = .awaiting id → task ∉ s.telling ∧
        ∃ run : Run, s.db.runs[id]? = some run ∧ run.recipient = .refresh task ∧ run.isOver := by
  have hat := h.refreshes task
  have hqueued := queued_hand hhand (.refresh task)
  rw [if_pos rfl] at hqueued
  rw [htask, Option.map_some] at hat
  cases hstage : refresh.stage <;> rw [hstage] at hat
  case launched delay =>
    obtain ⟨honce, htimed⟩ := hat
    exact ⟨by omega, htimed, by simp, by simp, by simp⟩
  case due =>
    obtain ⟨honce, htimed⟩ := hat
    exact ⟨by omega, htimed, by simp, by simp, by simp⟩
  case awaiting id =>
    obtain ⟨htimed, run, hrun, hfor, hcount⟩ := hat
    split at hcount
    next hover =>
      refine ⟨by omega, htimed, by simp, by simp, fun other hother =>
        ⟨hover.2, run, ?_, hfor, hover.1⟩⟩
      cases hother
      exact hrun
    next => omega
  all_goals
    obtain ⟨hnone, -⟩ := hat
    omega

/-- A refresh whose run is yet to be submitted has taken no outcome in. -/
theorem Placed.not_telling (h : s.Placed) {task : Nat} {refresh : Refresh}
    (htask : s.db.refreshes[task]? = some refresh) (hearly : refresh.stage.IsEarly) :
    task ∉ s.telling := by
  intro htold
  obtain ⟨id, run, hawaiting, -, -⟩ := h.telling task htold
  rw [htask, Option.map_some] at hawaiting
  exact hearly.not_over.2 id (Option.some.inj hawaiting)

theorem Placed.sleep (h : s.Placed) {task delay due : Nat} {refresh : Refresh}
    (hhand : s.hand = some (.refresh task)) (htask : s.db.refreshes[task]? = some refresh)
    (hstage : refresh.stage = .launched delay) :
    Placed
      { s with
        db := { s.db with timers := s.db.timers ++ [Timer.mk due task] }.updateRefresh task
          fun refresh => { refresh with stage := .sleeping }
        hand := none } := by
  obtain ⟨hready, htimed, -, -, -⟩ := h.refresh_hand hhand htask
  have hquiet := h.not_telling htask (hstage ▸ .launched delay)
  refine h.of_refresh htask ?_ (getElem?_updateRefresh htask _) rfl ⟨?_, ?_⟩
    (fun other hother => ⟨?_, ?_, Iff.rfl⟩) hquiet (fun id => ?_) rfl rfl rfl rfl
  · intro id run hawaiting
    rw [hstage] at hawaiting
    cases hawaiting
  · rw [queued_none rfl]
    exact hready
  · rw [timed] at htimed ⊢
    simp [Database.updateRefresh, List.count_append, htimed]
  · rw [queued_none rfl]
    exact count_ready hhand _ (fun heq => hother (by cases heq; rfl))
  · rw [timed, timed]
    simp [Database.updateRefresh, List.count_append, Ne.symm hother]
  · rw [queued_none rfl]
    exact count_ready hhand _ (by simp)

/-- Timers that ring for other refreshes do not count. -/
theorem timed_of_timers {earlier later : List Timer} {timer : Timer}
    (htimers : s.db.timers = earlier ++ timer :: later) (task : Nat) :
    s.timed task = ((earlier ++ later).map Timer.refresh).count task +
      if task = timer.refresh then 1 else 0 := by
  rw [timed, htimers]
  by_cases htask : task = timer.refresh
  · rw [htask]
    simp
    omega
  · simp [htask, Ne.symm htask]

/-- A timer is for a refresh that sleeps. -/
theorem Placed.of_timer (h : s.Placed) {earlier later : List Timer} {timer : Timer}
    (htimers : s.db.timers = earlier ++ timer :: later) :
    ∃ refresh : Refresh, s.db.refreshes[timer.refresh]? = some refresh ∧ refresh.stage = .sleeping ∧
      s.queued (.refresh timer.refresh) = 0 ∧ s.timed timer.refresh = 1 := by
  have hat := h.refreshes timer.refresh
  have hrings := timed_of_timers htimers timer.refresh
  rw [if_pos rfl] at hrings
  cases htask : s.db.refreshes[timer.refresh]? with
  | none =>
    rw [htask] at hat
    obtain ⟨-, hnone⟩ := hat
    omega
  | some refresh =>
    rw [htask, Option.map_some] at hat
    cases hstage : refresh.stage <;> rw [hstage] at hat
    case sleeping => exact ⟨refresh, rfl, hstage, hat⟩
    case awaiting id =>
      obtain ⟨hnone, -⟩ := hat
      omega
    all_goals
      obtain ⟨-, hnone⟩ := hat
      omega

theorem Placed.ring (h : s.Placed) {earlier later : List Timer} {timer : Timer}
    (htimers : s.db.timers = earlier ++ timer :: later) :
    Placed
      { s with db := ({ s.db with timers := earlier ++ later }.updateRefresh timer.refresh
          fun refresh => { refresh with stage := .due }).wake (.refresh timer.refresh) } := by
  have htimed := timed_of_timers htimers
  obtain ⟨refresh, htask, hstage, hqueued, honce⟩ := h.of_timer htimers
  have hrings := htimed timer.refresh
  rw [if_pos rfl] at hrings
  have hquiet := h.not_telling htask (hstage ▸ .sleeping)
  have hwoken := queued_wake ({ s.db with timers := earlier ++ later }.updateRefresh timer.refresh
    fun refresh => { refresh with stage := .due }) (.refresh timer.refresh) s.pending s.telling
      s.hand
  refine h.of_refresh htask ?_ (getElem?_updateRefresh htask _) rfl ⟨?_, ?_⟩
    (fun other hother => ⟨?_, ?_, Iff.rfl⟩) hquiet (fun id => ?_) rfl rfl rfl rfl
  · intro id run hawaiting
    rw [hstage] at hawaiting
    cases hawaiting
  · refine (hwoken (.refresh timer.refresh)).trans ?_
    rw [if_pos rfl]
    exact congrArg (· + 1) hqueued
  · show ((earlier ++ later).map Timer.refresh).count timer.refresh = 0
    omega
  · refine (hwoken (.refresh other)).trans ?_
    rw [if_neg (fun heq => hother (by cases heq; rfl))]
    rfl
  · rw [htimed, if_neg hother]
    rfl
  · refine (hwoken (.run id)).trans ?_
    rw [if_neg (by simp)]
    rfl

theorem Placed.lapse (h : s.Placed) {task : Nat} {refresh : Refresh}
    (hhand : s.hand = some (.refresh task)) (htask : s.db.refreshes[task]? = some refresh)
    (hstage : refresh.stage.IsEarly) :
    Placed
      { s with
        db := s.db.updateRefresh task fun refresh => { refresh with stage := .over }
        hand := none } := by
  obtain ⟨hready, htimed, -, -, -⟩ := h.refresh_hand hhand htask
  have hquiet := h.not_telling htask hstage
  refine h.of_refresh htask (fun id _ hawaiting => absurd hawaiting (hstage.not_over.2 id))
    (getElem?_updateRefresh htask _) rfl ⟨?_, htimed⟩ (fun other hother => ⟨?_, rfl, Iff.rfl⟩)
      hquiet
    (fun id => ?_) rfl rfl rfl rfl
  · rw [queued_none rfl]
    exact hready
  · rw [queued_none rfl]
    exact count_ready hhand _ (fun heq => hother (by cases heq; rfl))
  · rw [queued_none rfl]
    exact count_ready hhand _ (by simp)

theorem Placed.retire (h : s.Placed) {task : Nat} (htelling : task ∈ s.telling) :
    Placed
      { s with
        db := s.db.updateRefresh task fun refresh => { refresh with stage := .over }
        telling := s.telling.filter fun other => other != task } := by
  obtain ⟨id, run, hstage, hrun, hover⟩ := h.telling task htelling
  have hat := h.refreshes task
  rw [hstage] at hat
  obtain ⟨htimed, waited, -, -, hqueued⟩ := hat
  rw [if_neg (fun hboth => hboth.2 htelling)] at hqueued
  obtain ⟨refresh, htask, hawaiting⟩ := Option.map_eq_some_iff.1 hstage
  refine h.of_refresh htask ?_ (getElem?_updateRefresh htask _) rfl ⟨hqueued, htimed⟩
    (fun other hother => ⟨rfl, rfl, ?_⟩) (by simp) (fun _ => rfl) rfl rfl rfl rfl
  · intro other waited hother hwaited
    rw [hawaiting] at hother
    cases hother
    rw [hrun] at hwaited
    cases hwaited
    exact hover
  · simp [hother]

/-- A refresh in hand takes the outcome of its run in. -/
theorem Placed.tell (h : s.Placed) {task id : Nat} {refresh : Refresh}
    (hhand : s.hand = some (.refresh task)) (htask : s.db.refreshes[task]? = some refresh)
    (hstage : refresh.stage = .awaiting id) :
    Placed { s with telling := task :: s.telling, hand := none } := by
  obtain ⟨hready, htimed, -, -, hawaits⟩ := h.refresh_hand hhand htask
  obtain ⟨hquiet, run, hrun, hfor, hover⟩ := hawaits id hstage
  have hat : s.db.refreshes[task]?.map Refresh.stage = some (.awaiting id) := by
    rw [htask, Option.map_some, hstage]
  refine ⟨?_, ?_, h.awaited, ?_, h.attached⟩
  · intro other
    rw [queued_none rfl]
    show RunAt (s.db.ready.count (.run other)) _ _ _
    rw [count_ready hhand (.run other) (by simp)]
    exact h.runs other
  · intro other
    show RefreshAt _ other (s.db.refreshes[other]?.map Refresh.stage)
    by_cases hother : other = task
    · rw [hother, hat]
      refine ⟨htimed, run, hrun, hfor, ?_⟩
      rw [queued_none rfl, if_neg (fun hboth => hboth.2 List.mem_cons_self)]
      exact hready
    · refine (h.refreshes other).congr (fun _ waited _ hwaited => ⟨waited, hwaited, rfl, rfl⟩) ?_
        rfl (by simp [hother])
      rw [queued_none rfl]
      exact count_ready hhand _ (fun heq => hother (by cases heq; rfl))
  · intro other hother
    rcases List.mem_cons.1 hother with rfl | hother
    · exact ⟨id, run, hat, hrun, hover⟩
    · exact h.telling other hother

/-! ## New refreshes, and their runs -/

theorem getElem?_launch (db : Database σ) (id epoch delay task : Nat) :
    (db.launch id epoch delay).refreshes[task]? =
      if task = db.refreshes.length then some ⟨id, epoch, .launched delay⟩
      else db.refreshes[task]? :=
  Database.getElem?_push db.refreshes ⟨id, epoch, .launched delay⟩ task

theorem Placed.launch (h : s.Placed) {id : Nat} (hlive : id < s.db.lives.length)
    (epoch delay : Nat) : Placed { s with db := s.db.launch id epoch delay } := by
  have hwoken := queued_wake
    { s.db with refreshes := s.db.refreshes ++ [⟨id, epoch, .launched delay⟩] }
    (.refresh s.db.refreshes.length) s.pending s.telling s.hand
  have hkept : ∀ {task : Nat} {stage : RefreshStage},
      s.db.refreshes[task]?.map Refresh.stage = some stage →
        (s.db.launch id epoch delay).refreshes[task]?.map Refresh.stage = some stage := by
    intro task stage hstage
    obtain ⟨refresh, htask, -⟩ := Option.map_eq_some_iff.1 hstage
    have hlt := (List.getElem?_eq_some_iff.1 htask).1
    rw [getElem?_launch, if_neg (by omega)]
    exact hstage
  refine ⟨?_, ?_, ?_, ?_, ?_⟩
  · intro other
    have hqueued := hwoken (.run other)
    rw [if_neg (by simp), Nat.add_zero] at hqueued
    have hat := h.runs other
    show RunAt (queued { s with db := s.db.launch id epoch delay } (.run other)) _ _ _
    rw [show queued { s with db := s.db.launch id epoch delay } (.run other) = s.queued (.run other)
      from hqueued]
    exact hat
  · intro task
    have hqueued := hwoken (.refresh task)
    have hat := h.refreshes task
    show RefreshAt _ task ((s.db.launch id epoch delay).refreshes[task]?.map Refresh.stage)
    rw [getElem?_launch]
    by_cases htask : task = s.db.refreshes.length
    · rw [htask, List.getElem?_eq_none (Nat.le_refl _)] at hat
      rw [if_pos (by rw [htask])] at hqueued
      rw [if_pos htask]
      refine ⟨hqueued.trans ?_, ?_⟩
      · rw [htask]
        exact congrArg (· + 1) hat.1
      · rw [htask]
        exact hat.2
    · rw [if_neg (fun heq => htask (by cases heq; rfl))] at hqueued
      rw [if_neg htask]
      exact hat.congr (fun _ run _ hrun => ⟨run, hrun, rfl, rfl⟩) hqueued rfl Iff.rfl
  · intro other run task hrun hfor hover
    exact hkept (h.awaited other run task hrun hfor hover)
  · intro task htask
    obtain ⟨other, run, hstage, hrun, hover⟩ := h.telling task htask
    exact ⟨other, run, hkept hstage, hrun, hover⟩
  · intro task refresh htask
    have hnew : (s.db.launch id epoch delay).refreshes[task]? = some refresh := htask
    rw [getElem?_launch] at hnew
    split at hnew
    · cases hnew
      exact hlive
    · exact h.attached task refresh hnew

theorem Placed.execute (h : s.Placed) {task : Nat} {refresh : Refresh} {run : Run}
    (hhand : s.hand = some (.refresh task)) (htask : s.db.refreshes[task]? = some refresh)
    (hstage : refresh.stage.IsEarly) (hnew : run.stage = .waiting)
    (hfor : run.recipient = .refresh task) (id : Nat) (change : LiveQuery → LiveQuery) :
    Placed
      { s with
        db := ((s.db.enter run).updateLive id change).updateRefresh task fun refresh =>
          { refresh with stage := .awaiting s.db.runs.length }
        hand := none } := by
  obtain ⟨hready, htimed, -, -, -⟩ := h.refresh_hand hhand htask
  have hnot : ∀ id, s.db.refreshes[task]?.map Refresh.stage ≠ some (.awaiting id) := by
    intro id hawaiting
    rw [htask, Option.map_some] at hawaiting
    exact hstage.not_over.2 id (Option.some.inj hawaiting)
  have hcount : ∀ job : Job, (s.db.enter run).ready.count job =
      s.db.ready.count job + if job = .run s.db.runs.length then 1 else 0 :=
    queued_wake { s.db with runs := s.db.runs ++ [run] } (.run s.db.runs.length) [] [] none
  have hentered : ((s.db.enter run).updateLive id change).refreshes[task]? = some refresh := htask
  have hchanged := getElem?_updateRefresh hentered
    (fun refresh => { refresh with stage := .awaiting s.db.runs.length })
  refine ⟨?_, ?_, ?_, ?_, ?_⟩
  · refine h.runs_enter hnew rfl (fun other => ?_) rfl rfl
    rw [queued_none rfl, ← count_ready hhand (.run other) (by simp)]
    refine (hcount (.run other)).trans ?_
    by_cases hother : other = s.db.runs.length
    · rw [if_pos hother, if_pos (by rw [hother])]
    · rw [if_neg hother, if_neg (fun heq => hother (by cases heq; rfl))]
  · intro other
    show RefreshAt _ other ((((s.db.enter run).updateLive id change).updateRefresh task
      fun refresh =>
        { refresh with stage := .awaiting s.db.runs.length }).refreshes[other]?.map Refresh.stage)
    rw [hchanged]
    by_cases hother : other = task
    · rw [if_pos hother, hother]
      refine ⟨htimed, run, ?_, hfor, ?_⟩
      · exact (getElem?_enter s.db run _).trans (if_pos rfl)
      · rw [queued_none rfl, if_neg (by simp [Run.isOver, hnew])]
        refine (hcount (.refresh task)).trans ?_
        rw [if_neg (by simp), hready]
    · rw [if_neg hother]
      refine (h.refreshes other).congr (fun _ old _ hold =>
        ⟨old, getElem?_enter_of_some hold run, rfl, rfl⟩) ?_ rfl Iff.rfl
      rw [queued_none rfl, ← count_ready hhand (.refresh other)
        (fun heq => hother (by cases heq; rfl))]
      refine (hcount (.refresh other)).trans ?_
      rw [if_neg (by simp), Nat.add_zero]
  · intro other old waiter hold hrecipient hunfinished
    have hrun : (s.db.enter run).runs[other]? = some old := hold
    rw [getElem?_enter] at hrun
    show (((s.db.enter run).updateLive id change).updateRefresh task fun refresh =>
      { refresh with stage := .awaiting s.db.runs.length }).refreshes[waiter]?.map Refresh.stage = _
    rw [hchanged]
    by_cases hother : other = s.db.runs.length
    · rw [if_pos hother] at hrun
      cases hrun
      rw [hfor] at hrecipient
      cases hrecipient
      rw [if_pos rfl, hother]
      rfl
    · rw [if_neg hother] at hrun
      have hawaits := h.awaited other old waiter hrun hrecipient hunfinished
      rw [if_neg (fun heq : waiter = task => hnot other (heq ▸ hawaits))]
      exact hawaits
  · intro waiter hwaiter
    obtain ⟨other, old, hawaits, hold, hover⟩ := h.telling waiter hwaiter
    refine ⟨other, old, ?_, getElem?_enter_of_some hold run, hover⟩
    refine (congrArg (Option.map Refresh.stage) (hchanged waiter)).trans ?_
    rw [if_neg (fun heq : waiter = task => hnot other (heq ▸ hawaits))]
    exact hawaits
  · intro other refresh' hother
    have hrefresh := (hchanged other).symm.trans hother
    show refresh'.live < (s.db.lives.modify id change).length
    rw [List.length_modify]
    split at hrefresh
    · cases hrefresh
      exact h.attached task refresh htask
    · exact h.attached other refresh' hrefresh

/-! ## Moves -/

/-- A job that is taken up is among those that can go on. -/
theorem queued_takeUp {job : Job} (hhand : s.hand = none) (hready : job ∈ s.db.ready)
    (other : Job) :
    queued { s with db := { s.db with ready := s.db.ready.erase job }, hand := some job } other =
      s.queued other := by
  rw [queued_hand rfl, queued_none hhand]
  show (s.db.ready.erase job).count other + _ = _
  by_cases hother : other = job
  · have hpositive : 0 < s.db.ready.count job := List.count_pos_iff.2 hready
    rw [if_pos hother, hother, List.count_erase_self]
    omega
  · rw [if_neg hother, List.count_erase_of_ne hother, Nat.add_zero]

/-- A job in hand can go on. -/
theorem Placed.not_stuck (h : s.Placed) {job : Job} (hhand : s.hand = some job) :
    ¬s.db.Stuck job := by
  intro hstuck
  have hqueued := queued_hand hhand job
  rw [if_pos rfl] at hqueued
  cases hstuck with
  | @run id hstages =>
    cases hrun : s.db.runs[id]? with
    | none =>
      have hat := h.runs id
      rw [hrun] at hat
      obtain ⟨hnone, -⟩ := hat
      omega
    | some run =>
      obtain ⟨-, -, -, hstage, hover⟩ := h.run_hand hhand hrun
      rcases hstages run hrun with hscanning | hended
      · exact hstage hscanning
      · rw [Run.isOver, hended] at hover
        cases hover
  | @refresh task hstages =>
    cases htask : s.db.refreshes[task]? with
    | none =>
      have hat := h.refreshes task
      rw [htask] at hat
      obtain ⟨hnone, -⟩ := hat
      omega
    | some refresh =>
      obtain ⟨-, -, hsleeping, hover, -⟩ := h.refresh_hand hhand htask
      rcases hstages refresh htask with hstage | hstage | hlive
      · exact hsleeping hstage
      · exact hover hstage
      · have hattached := h.attached task refresh htask
        rw [List.getElem?_eq_getElem hattached] at hlive
        cases hlive

theorem Placed.updateLive (h : s.Placed) (id : Nat) (change : LiveQuery → LiveQuery) :
    Placed { s with db := s.db.updateLive id change } := by
  refine h.congr (fun _ => rfl) (fun _ => rfl) rfl rfl rfl rfl rfl ?_
  exact Nat.le_of_eq (List.length_modify ..).symm

theorem Placed.cancel (h : s.Placed) (id : Nat) : Placed { s with db := (s.db.cancel id).1 } := by
  rw [Database.cancel]
  split
  · exact h
  · exact h.congr (fun _ => rfl) (marks_updateRun fun _ => rfl) rfl rfl rfl rfl rfl (Nat.le_refl _)

theorem Placed.cancelRunning (h : s.Placed) (running : Option Nat) :
    Placed { s with db := s.db.cancelRunning running } := by
  cases running with
  | none => exact h
  | some run => exact h.cancel run

theorem Placed.endSubscription (h : s.Placed) (token : Option Token) :
    Placed { s with db := s.db.endSubscription token } := by
  cases token with
  | none => exact h
  | some token => exact h.congr (fun _ => rfl) (fun _ => rfl) rfl rfl rfl rfl rfl (Nat.le_refl _)

theorem Placed.beside (h : s.Placed) {db : Database σ} (hbeside : s.db.Beside db) :
    Placed { s with db := db } :=
  h.congr (queued_of_eq hbeside.ready rfl) (fun id => by rw [hbeside.runs]) hbeside.refreshes
    hbeside.waiting hbeside.scanning hbeside.timers rfl
      (Nat.le_of_eq (congrArg _ hbeside.lives.symm))

theorem Placed.move (h : s.Placed) (hmove : Move s s') : s'.Placed := by
  cases hmove with
  | beside hbeside _ => exact h.beside hbeside
  | subscriptions _ _ =>
    exact h.congr (fun _ => rfl) (fun _ => rfl) rfl rfl rfl rfl rfl (Nat.le_refl _)
  | takeUp hhand hready =>
    exact h.congr (queued_takeUp hhand hready) (fun _ => rfl) rfl rfl rfl rfl rfl (Nat.le_refl _)
  | drop hhand hstuck => exact absurd hstuck (h.not_stuck hhand)
  | submit _ hrecipient => exact h.submit rfl hrecipient
  | cancel _ _ => exact h.cancel _
  | permit hhand hrun _ hpermits => exact h.permit hhand hrun hpermits
  | queue hhand hrun hstage hpermits => exact h.queue hhand hrun hstage hpermits
  | grant => exact h.grant
  | startRun hhand hrun _ _ => exact h.startRun hhand hrun
  | abandon hhand hrun _ _ => exact h.endRun hhand hrun _ rfl
  | scan hscanning hrun => exact h.scan hscanning hrun _ _
  | @conclude id run control outcome hhand hrun _ =>
    have hruns : (s.db.keepGeneration run.query outcome).runs = s.db.runs :=
      by cases outcome <;> rfl
    exact (h.keepGeneration run.query outcome).endRun hhand (hruns ▸ hrun)
      (fun other => { other with control := control, stage := .ended, outcome := some outcome }) rfl
  | makeLive hbeside _ _ _ =>
    refine (h.beside hbeside).congr (fun _ => rfl) (fun _ => rfl) rfl rfl rfl rfl rfl ?_
    rw [List.length_append]
    exact Nat.le_add_right _ _
  | listen id change => exact h.updateLive id _
  | startInVain _ _ => exact h.updateLive _ _
  | @startLive id live token store hlive _ _ _ _ =>
    have hstarted : Placed { s with db := { s.db with store := store } } :=
      h.congr (fun _ => rfl) (fun _ => rfl) rfl rfl rfl rfl rfl (Nat.le_refl _)
    refine (hstarted.updateLive id _).launch ?_ _ _
    show id < (s.db.lives.modify id _).length
    rw [List.length_modify]
    exact (List.getElem?_eq_some_iff.1 hlive).1
  | @stop id live _ _ =>
    have hstopped := h.updateLive id fun other =>
      { other with epoch := other.epoch + 1, phase := .stopped, running := none, token := none }
    exact (hstopped.cancelRunning live.running).endSubscription live.token
  | dispose id => exact h.updateLive id _
  | letGo _ => exact h.updateLive _ _
  | giveUp hbeside _ _ _ =>
    exact (h.beside hbeside).congr (fun _ => rfl) (fun _ => rfl) rfl rfl rfl rfl rfl (Nat.le_refl _)
  | write _ _ => exact h.congr (fun _ => rfl) (fun _ => rfl) rfl rfl rfl rfl rfl (Nat.le_refl _)
  | overhear _ _ => exact h.congr (fun _ => rfl) (fun _ => rfl) rfl rfl rfl rfl rfl (Nat.le_refl _)
  | coalesce _ _ _ =>
    exact h.congr (fun _ => rfl) (fun _ => rfl) rfl rfl rfl rfl rfl (Nat.le_refl _)
  | remember _ _ _ =>
    exact (h.updateLive _ _).congr (fun _ => rfl) (fun _ => rfl) rfl rfl rfl rfl rfl (Nat.le_refl _)
  | @launch earlier later id live change _ hlive _ =>
    have hheard : Placed { s with pending := earlier ++ later } :=
      h.congr (fun _ => rfl) (fun _ => rfl) rfl rfl rfl rfl rfl (Nat.le_refl _)
    refine (hheard.updateLive id _).launch ?_ _ _
    show id < (s.db.lives.modify id _).length
    rw [List.length_modify]
    exact (List.getElem?_eq_some_iff.1 hlive).1
  | sleep hhand htask hstage => exact h.sleep hhand htask hstage
  | ring htimers => exact h.ring htimers
  | lapse hhand htask hstage _ _ => exact h.lapse hhand htask hstage
  | execute hhand htask hstage _ _ _ _ => exact h.execute hhand htask hstage rfl rfl _ _
  | ignore hhand htask hstage _ => exact h.tell hhand htask hstage
  | @takeIn task id refresh run live hhand htask hstage _ hlive _ =>
    have habsorbed := (h.tell hhand htask hstage).updateLive refresh.live fun other =>
      { other.absorb (live.judge run.answer) with running := none }
    rw [Database.settleLive]
    split
    · refine (habsorbed.updateLive refresh.live _).launch ?_ _ _
      show refresh.live < ((s.db.lives.modify refresh.live _).modify refresh.live _).length
      rw [List.length_modify, List.length_modify]
      exact (List.getElem?_eq_some_iff.1 hlive).1
    · exact habsorbed.updateLive refresh.live _
  | retire htelling => exact h.retire htelling

/-! ## Moments -/

theorem placed_create {config : Config} {least : Severity} {numbered : Nat} {client : σ}
    {db : Database σ} (hcreate : Database.create config least numbered client = .ok db) :
    Placed ⟨⟨db, [], []⟩, none⟩ := by
  rw [Database.create] at hcreate
  split at hcreate
  · cases hcreate
  · cases hcreate
    constructor
    · intro id
      exact ⟨rfl, rfl, rfl⟩
    · intro task
      exact ⟨rfl, rfl⟩
    · intro id run task hrun
      cases hrun
    · intro task htask
      cases htask
    · intro task refresh htask
      cases htask

/-- No run is both among the jobs that can go on and among the runs that wait for a permit. -/
theorem Placed.runsApart (h : s.Placed) : RunsApart s.db := by
  intro id hready hwaiting
  have hat := h.runs id
  have hone : 0 < s.db.ready.count (.run id) := List.count_pos_iff.2 hready
  have hanother : 0 < s.db.waiting.count id := List.count_pos_iff.2 hwaiting
  have hqueued : s.db.ready.count (.run id) ≤ s.queued (.run id) := Nat.le_add_right _ _
  cases hstage : s.db.runs[id]?.map Run.stage with
  | none =>
    rw [hstage] at hat
    obtain ⟨hnone, -⟩ := hat
    omega
  | some stage =>
    rw [hstage] at hat
    cases stage with
    | waiting =>
      obtain ⟨honce, -⟩ := hat
      omega
    | _ =>
      obtain ⟨-, hnone, -⟩ := hat
      omega

end Viewbase.Stance
