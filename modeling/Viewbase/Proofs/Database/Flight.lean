import Viewbase.Proofs.Database.Transitions

/-!
Single flight.

For a live query one run is due or under way in its epoch while it is busy, and none while it is
idle or stopped.  However many changes it is told of in the course of a run, one more run follows,
and all but the first of them are coalesced (`Moment.Reached.single_flight`).
-/

namespace Viewbase

open Relation

/-- A live query that settles may have a refresh launched for it. -/
theorem Database.refreshes_settleLive {σ : Type} (id : Nat) (live : LiveQuery) (db : Database σ) :
    (db.settleLive id live).refreshes = db.refreshes ∨
      ∃ new, (db.settleLive id live).refreshes = db.refreshes ++ [new] := by
  rw [settleLive]
  split
  · exact .inr ⟨_, rfl⟩
  · exact .inl rfl

/-! ## What was under way before -/

namespace Stance

variable {σ : Type} {s s' : Stance σ}

section Going

variable {task : Nat} {old now : Refresh} (hgoing : s'.Going task now)
  (hold : s.db.refreshes[task]? = some old)

include hgoing hold

theorem Going.back (hrefreshes : s'.db.refreshes = s.db.refreshes)
    (htelling : task ∉ s'.telling → task ∉ s.telling) : s.Going task old := by
  obtain ⟨hnow, hstage, htold⟩ := hgoing
  rw [hrefreshes, hold] at hnow
  cases hnow
  exact ⟨hold, hstage, htelling htold⟩

theorem Going.back_push {new : Refresh} (hrefreshes : s'.db.refreshes = s.db.refreshes ++ [new])
    (htelling : task ∉ s'.telling → task ∉ s.telling) : s.Going task old := by
  obtain ⟨hnow, hstage, htold⟩ := hgoing
  rw [hrefreshes, List.getElem?_append_left (List.getElem?_eq_some_iff.1 hold).1, hold] at hnow
  cases hnow
  exact ⟨hold, hstage, htelling htold⟩

/-- One refresh has gone on that had yet to submit its run. -/
theorem Going.back_stage (hplaced : s.Placed) {number : Nat} {refresh : Refresh}
    {stage : RefreshStage} (hrefresh : s.db.refreshes[number]? = some refresh)
    (hearly : refresh.stage.IsEarly)
    (hrefreshes : s'.db.refreshes =
      s.db.refreshes.modify number fun refresh => { refresh with stage := stage })
    (htelling : s'.telling = s.telling) : s.Going task old := by
  obtain ⟨hnow, hstage, htold⟩ := hgoing
  by_cases htask : task = number
  · subst htask
    obtain rfl : old = refresh := Option.some.inj (hold.symm.trans hrefresh)
    exact ⟨hold, hearly.not_over.1, hplaced.not_telling hold hearly⟩
  · simp only [hrefreshes, List.getElem?_modify, if_neg (Ne.symm htask), hold, Option.map_eq_map,
      Option.map_some, Option.some.injEq] at hnow
    exact ⟨hold, hnow ▸ hstage, htelling ▸ htold⟩

end Going

/-- A refresh that is over, or has taken its outcome in, stays so. -/
theorem going_before (hplaced : s.Placed) (hmove : Move s s') {task : Nat} {old now : Refresh}
    (hold : s.db.refreshes[task]? = some old) (hgoing : s'.Going task now) : s.Going task old := by
  have hstay (hrefreshes : s'.db.refreshes = s.db.refreshes) (htelling : s'.telling = s.telling) :
      s.Going task old := hgoing.back hold hrefreshes fun htold => htelling ▸ htold
  cases hmove with
  | beside h => exact hstay h.refreshes rfl
  | @cancel id => exact hstay (Database.aside_cancel id s.db).refreshes rfl
  | @permit id => exact hstay (Database.aside_takePermit id s.db).refreshes rfl
  | @queue id => exact hstay (Database.aside_takePermit id s.db).refreshes rfl
  | grant => exact hstay (Database.aside_givePermit s.db).refreshes rfl
  | @abandon id run => exact hstay (Database.aside_wakeRecipient run.recipient _).refreshes rfl
  | @conclude id run control outcome =>
    exact hstay ((Database.aside_wakeRecipient run.recipient _).refreshes.trans
      (Database.aside_keepGeneration run.query outcome s.db).refreshes) rfl
  | makeLive h => exact hstay h.refreshes rfl
  | startLive => exact hgoing.back_push hold rfl id
  | @stop id live =>
    exact hstay ((refreshes_endSubscription live.token _).trans
      (Database.aside_cancelRunning live.running _).refreshes) rfl
  | giveUp h => exact hstay h.refreshes rfl
  | launch => exact hgoing.back_push hold rfl id
  | sleep hhand htask hlaunched =>
    exact hgoing.back_stage hold hplaced htask (hlaunched ▸ .launched _) rfl rfl
  | ring htimers =>
    obtain ⟨refresh, htask, hsleeping, -⟩ := hplaced.of_timer htimers
    exact hgoing.back_stage hold hplaced htask (hsleeping ▸ .sleeping) rfl rfl
  | lapse hhand htask hearly => exact hgoing.back_stage hold hplaced htask hearly rfl rfl
  | execute hhand htask hearly => exact hgoing.back_stage hold hplaced htask hearly rfl rfl
  | ignore => exact hgoing.back hold rfl fun htold h => htold (List.mem_cons_of_mem _ h)
  | @takeIn number run refresh submitted live =>
    have hkept : task ∉ number :: s.telling → task ∉ s.telling :=
      fun htold h => htold (List.mem_cons_of_mem _ h)
    rcases Database.refreshes_settleLive refresh.live live _ with hsame | ⟨new, hpushed⟩
    · exact hgoing.back hold hsame hkept
    · exact hgoing.back_push hold hpushed hkept
  | @retire number htelling =>
    obtain ⟨hnow, hstage, htold⟩ := hgoing
    by_cases htask : task = number
    · subst htask
      simp only [Database.updateRefresh, List.getElem?_modify, hold, Option.map_eq_map,
        Option.map_some, if_true, Option.some.injEq] at hnow
      exact absurd (hnow ▸ rfl) hstage
    · simp only [Database.updateRefresh, List.getElem?_modify, if_neg (Ne.symm htask), hold,
        Option.map_eq_map, Option.map_some, Option.some.injEq] at hnow
      refine ⟨hold, hnow ▸ hstage, fun h => htold ?_⟩
      exact List.mem_filter.2 ⟨h, by simpa using htask⟩
  | _ => exact hstay rfl rfl

theorem going_before_moves (hplaced : s.Placed) (hmoves : Moves s s') {task : Nat}
    {old now : Refresh} (hold : s.db.refreshes[task]? = some old) (hgoing : s'.Going task now) :
    s.Going task old := by
  induction hmoves generalizing now with
  | refl =>
    have hsame := hold.symm.trans hgoing.1
    cases hsame
    exact hgoing
  | tail hmoves hmove ih =>
    obtain ⟨hplaced', honward⟩ := Moment.onward_moves hplaced hmoves
    obtain ⟨between, hbetween, -⟩ := honward.refreshes task old hold
    exact ih (going_before hplaced' hmove hbetween hgoing)

end Stance

/-- A live query is told of a change in the epoch. -/
def Deed.reaches {σ : Type} (id epoch : Nat) : Deed σ → Bool
  | .tell (.live other opened) _ => decide (other = id ∧ opened = epoch)
  | _ => false

theorem Deed.reaches_iff {σ : Type} {deed : Deed σ} {id epoch : Nat} :
    deed.reaches id epoch = true ↔ ∃ change, deed = .tell (.live id epoch) change := by
  constructor
  · intro h
    cases deed with
    | tell observer change =>
      cases observer with
      | client callback => cases h
      | live other opened =>
        obtain ⟨rfl, rfl⟩ := of_decide_eq_true h
        exact ⟨change, rfl⟩
    | _ => cases h
  · rintro ⟨change, rfl⟩
    exact decide_eq_true ⟨rfl, rfl⟩

namespace Moment

variable {σ : Type} {m m' m'' : Moment σ} {id epoch task : Nat} {live : LiveQuery} {deed : Deed σ}

/-! ## Runs in flight -/

/-- The refresh of that number is due or under way for the live query in the epoch. -/
def Flies (m : Moment σ) (id epoch task : Nat) : Prop :=
  ∃ refresh, Stance.Going ⟨m, none⟩ task refresh ∧ refresh.live = id ∧ refresh.epoch = epoch

theorem Reached.flies_before (h : m.Reached) (hsteps : ReflTransGen Step m m') {old : Refresh}
    (hold : m.db.refreshes[task]? = some old) (hflies : m'.Flies id epoch task) :
    m.Flies id epoch task := by
  induction hsteps with
  | refl => exact hflies
  | @tail between after hsteps hstep ih =>
    have hbetween := h.steps hsteps
    obtain ⟨hplaced, -⟩ := hbetween.attended
    obtain ⟨old', hold', -⟩ := (h.onward hsteps).refreshes task old hold
    obtain ⟨now, hgoing, hlive, hepoch⟩ := hflies
    obtain ⟨now', hnow', hgoes⟩ := (hbetween.onward (.single hstep)).refreshes task old' hold'
    obtain rfl : now' = now := Option.some.inj (hnow'.symm.trans hgoing.1)
    exact ih ⟨old', Stance.going_before_moves hplaced (hstep.moves hplaced.runsApart) hold' hgoing,
      hgoes.1.symm.trans hlive, hgoes.2.symm.trans hepoch⟩

/-- A refresh that takes its outcome in has been under way. -/
theorem Reached.going_of_takeIn (h : m.Reached) (hdoes : m.Does (.takeIn task) m') :
    ∃ refresh, Stance.Going ⟨m, none⟩ task refresh := by
  cases hdoes with
  | @takeIn _ _ run refresh submitted hready htask hstage hrun =>
    obtain ⟨hplaced, -⟩ := h.attended
    have hat := hplaced.refreshes task
    rw [show (Stance.mk m none).db.refreshes[task]? = some refresh from htask, Option.map_some,
      hstage] at hat
    obtain ⟨-, _, -, -, hqueued⟩ := hat
    have hcount : 0 < m.db.ready.count (.refresh task) := List.count_pos_iff.2 hready
    refine ⟨refresh, htask, by simp [hstage], fun htold => ?_⟩
    rw [Stance.queued_none rfl, if_neg (fun hboth => hboth.2 htold)] at hqueued
    exact absurd hqueued (Nat.ne_of_gt hcount)

/-- It is the refresh that was launched for its live query and its epoch. -/
theorem Reached.flies_of_takeIn (h : m.Reached)
    (hlaunched : ∃ refresh, m.db.refreshes[task]? = some refresh ∧ refresh.live = id ∧
      refresh.epoch = epoch) (hsteps : ReflTransGen Step m m')
    (htakes : m'.Does (.takeIn task) m'') : m'.Flies id epoch task := by
  obtain ⟨first, hfirst, hof, hepoch⟩ := hlaunched
  obtain ⟨refresh, hrefresh, hgoes⟩ := (h.onward hsteps).refreshes task first hfirst
  obtain ⟨refresh', hgoing⟩ := (h.steps hsteps).going_of_takeIn htakes
  obtain rfl : refresh = refresh' := Option.some.inj (hrefresh.symm.trans hgoing.1)
  exact ⟨refresh, hgoing, hgoes.1.trans hof, hgoes.2.trans hepoch⟩

/-- A refresh that has taken its outcome in is no longer under way. -/
theorem not_flies_takeIn (hdoes : m.Does (.takeIn task) m') : ¬m'.Flies id epoch task := by
  rintro ⟨refresh, ⟨-, -, htold⟩, -⟩
  cases hdoes with
  | takeIn => exact htold List.mem_cons_self

/-- A live query that was stopped is past all epochs in which runs were scheduled for it. -/
theorem Reached.outdated (h : m.Reached) (hlive : m.db.lives[id]? = some live)
    (hstopped : live.phase = .stopped) (hscheduled : (id, epoch) ∈ m.db.schedule) :
    epoch < live.epoch := by
  induction h generalizing live with
  | create hcreate =>
    rw [Database.create] at hcreate
    split at hcreate <;> cases hcreate
    cases hscheduled
  | @step before after hbefore hstep ih =>
    obtain ⟨deed, hdoes⟩ := step_iff.1 hstep
    obtain ⟨hplaced, hattended, -⟩ := hbefore.attended
    obtain ⟨launched, hlaunched, hknown⟩ := launched_does hdoes
    have hold : ∃ old, before.db.lives[id]? = some old := by
      rw [hlaunched, List.mem_append] at hscheduled
      rcases hscheduled with hthere | hnew
      · obtain ⟨task, refresh, htask, rfl, -⟩ := Database.mem_schedule.1 hthere
        exact ⟨_, List.getElem?_eq_getElem (hplaced.attached task refresh htask)⟩
      · exact hknown _ hnew
    obtain ⟨old, hold⟩ := hold
    obtain ⟨phase, opened, launched', htransition, ⟨now, hnow, hphase, hepoch⟩, hschedule, -⟩ :=
      undergoes_does hdoes hold
    obtain rfl : now = live := Option.some.inj (hnow.symm.trans hlive)
    rw [hstopped] at hphase
    rw [hschedule, List.mem_append] at hscheduled
    have hbelow : ∀ epoch, (id, epoch) ∈ before.db.schedule → epoch ≤ old.epoch := by
      intro epoch hthere
      obtain ⟨task, refresh, htask, rfl, rfl⟩ := Database.mem_schedule.1 hthere
      exact hattended.epochs task refresh old htask hold
    -- Only a stop, or a start that fails, leaves a live query stopped that was not, and it opens a
    -- new epoch.
    cases htransition with
    | rest helsewhere =>
      rcases hscheduled with hthere | hnew
      · exact hepoch ▸ ih hold hphase.symm hthere
      · exact absurd rfl (helsewhere _ hnew).1
    | halt =>
      rcases hscheduled with hthere | hnew
      · have hle := hbelow epoch hthere
        omega
      · cases hnew
    | @remember change hdeed hreact =>
      obtain ⟨-, -, hagain⟩ := LiveQuery.of_remember hreact
      exact absurd hphase.symm (LiveQuery.busy_of_wantsAgain hagain).1
    | start | launch | again | settle => cases hphase

/-- While a live query is stopped or idle no run of it is due or under way. -/
theorem Reached.grounded (h : m.Reached) (hlive : m.db.lives[id]? = some live)
    (hrests : live.phase = .stopped ∨ live.phase = .idle) (task : Nat) :
    ¬m.Flies id live.epoch task := by
  rintro ⟨refresh, hgoing, rfl, hepoch⟩
  rcases hrests with hstopped | hidle
  · have hscheduled : (refresh.live, refresh.epoch) ∈ m.db.schedule :=
      Database.mem_schedule.2 ⟨task, refresh, hgoing.1, rfl, rfl⟩
    have hbefore := h.outdated hlive hstopped hscheduled
    omega
  · obtain ⟨-, hattended, -⟩ := h.attended
    obtain ⟨query, -, hattends⟩ := hattended.attends refresh.live live hlive
    have hprogress := hattends.progress
    rw [Stance.Progress, hidle] at hprogress
    exact hprogress.2.1 task refresh hgoing rfl hepoch

/-- While a live query is busy one run of it is due or under way. -/
theorem Reached.flies_alone (h : m.Reached) (hlive : m.db.lives[id]? = some live)
    (hstarted : live.phase ≠ .stopped) (hbusy : live.phase ≠ .idle) :
    ∃! task, m.Flies id live.epoch task := by
  obtain ⟨-, hattended, -⟩ := h.attended
  obtain ⟨query, -, hattends⟩ := hattended.attends id live hlive
  obtain ⟨task, refresh, hgoing, hof, hepoch, honly, -⟩ :=
    (Stance.progress_iff_awaits hstarted hbusy).1 hattends.progress
  refine ⟨task, ⟨refresh, hgoing, hof, hepoch⟩, ?_⟩
  rintro other ⟨refresh', hgoing', hof', hepoch'⟩
  exact honly other refresh' hgoing' hof' hepoch'

/-- A run that has not ended is the one that its refresh waits for. -/
theorem Reached.flies_of_run (h : m.Reached) {run : Nat} {submitted : Run}
    (hrun : m.db.runs[run]? = some submitted) (hover : submitted.isOver = false)
    (hfor : submitted.recipient = .refresh task) :
    ∃ refresh, m.db.refreshes[task]? = some refresh ∧ refresh.stage = .awaiting run ∧
      m.Flies refresh.live refresh.epoch task := by
  obtain ⟨hplaced, -⟩ := h.attended
  obtain ⟨refresh, htask, hstage⟩ :=
    Option.map_eq_some_iff.1 (hplaced.awaited run submitted task hrun hfor hover)
  refine ⟨refresh, htask, hstage, refresh, ⟨htask, by simp [hstage], fun htold => ?_⟩, rfl, rfl⟩
  -- What has taken its outcome in has waited for a run that is over.
  obtain ⟨run', submitted', hstage', hrun', hover'⟩ := hplaced.telling task htold
  have hsame : (Stance.mk m none).db.refreshes[task]?.map Refresh.stage = some (.awaiting run) := by
    rw [htask, Option.map_some, hstage]
  obtain rfl : run = run' := RefreshStage.awaiting.inj (Option.some.inj (hsame.symm.trans hstage'))
  obtain rfl : submitted = submitted' := Option.some.inj (hrun.symm.trans hrun')
  rw [hover] at hover'
  cases hover'

/-! ## Bursts of changes -/

/-- The steps from one moment to another, each with the moment before it. -/
inductive Trace (m : Moment σ) : List (Moment σ × Deed σ) → Moment σ → Prop where
  | nil : Trace m [] m
  | snoc {m' m'' : Moment σ} {steps : List (Moment σ × Deed σ)} {deed : Deed σ}
      (htrace : Trace m steps m') (hdoes : m'.Does deed m'') : Trace m (steps ++ [(m', deed)]) m''

variable {steps : List (Moment σ × Deed σ)} {launched before after : Moment σ}

theorem Trace.forget (h : Trace m steps m') : ReflTransGen Step m m' := by
  induction h with
  | nil => exact .refl
  | snoc _ hdoes ih => exact ih.tail hdoes.step

/-- Of how many changes the live query was told in the epoch. -/
def heard (id epoch : Nat) (steps : List (Moment σ × Deed σ)) : Nat :=
  steps.countP fun step => step.2.reaches id epoch

/-- How many changes were coalesced that other live queries were told of. -/
def coalescedElsewhere (id epoch : Nat) (steps : List (Moment σ × Deed σ)) : Nat :=
  steps.countP fun step => step.1.db.coalesces step.2 && !step.2.reaches id epoch

/-- The refreshes that were launched for a live query. -/
def launches (m : Moment σ) (id : Nat) : List (Nat × Nat) :=
  m.db.schedule.filter fun entry => entry.1 == id

/-- The deed launches the refresh of that number, for the live query in the epoch. -/
structure Launches (m : Moment σ) (deed : Deed σ) (m' : Moment σ) (id epoch task : Nat) : Prop where
  does : m.Does deed m'
  fresh : m.db.refreshes[task]? = none
  launched : ∃ refresh, m'.db.refreshes[task]? = some refresh ∧ refresh.live = id ∧
    refresh.epoch = epoch

/-- A live query is busy in the epoch, and after those steps it is to run again if it was told of
any change in their course; then all these changes but one were coalesced. -/
structure Abreast (launched m : Moment σ) (id epoch : Nat) (steps : List (Moment σ × Deed σ)) :
    Prop where
  live : ∃ live, m.db.lives[id]? = some live ∧ live.epoch = epoch ∧ live.phase ≠ .stopped ∧
    live.phase ≠ .idle ∧ LiveQuery.wantsAgain live.phase = decide (0 < heard id epoch steps)
  launches : m.launches id = launched.launches id
  coalesced : m.db.metrics.liveCoalesced = launched.db.metrics.liveCoalesced +
    (heard id epoch steps - 1) + coalescedElsewhere id epoch steps

theorem Abreast.busy (h : Abreast launched m id epoch steps)
    (hlive : m.db.lives[id]? = some live) :
    live.epoch = epoch ∧ live.phase ≠ .stopped ∧ live.phase ≠ .idle ∧
      LiveQuery.wantsAgain live.phase = decide (0 < heard id epoch steps) := by
  obtain ⟨live', hlive', hbusy⟩ := h.live
  obtain rfl : live = live' := Option.some.inj (hlive.symm.trans hlive')
  exact hbusy

/-- A live query that a run was just scheduled for is busy, and has yet to be told of a change. -/
theorem Launches.abreast (h : m.Launches deed launched id epoch task) :
    Abreast launched launched id epoch [] := by
  refine ⟨?_, rfl, rfl⟩
  obtain ⟨refresh, htask, rfl, rfl⟩ := h.launched
  obtain ⟨entries, hentries, hknown⟩ := launched_does h.does
  have hnew : (refresh.live, refresh.epoch) ∈ entries := by
    have hfresh : m.db.schedule.length ≤ task := by
      rw [Database.schedule, List.length_map]
      exact List.getElem?_eq_none_iff.1 h.fresh
    have hentry : launched.db.schedule[task]? = some (refresh.live, refresh.epoch) :=
      (Database.getElem?_schedule task).2 ⟨refresh, htask, rfl, rfl⟩
    rw [hentries, List.getElem?_append_right hfresh] at hentry
    exact List.mem_of_getElem? hentry
  obtain ⟨old, hold⟩ := hknown _ hnew
  obtain ⟨phase, opened, entries', htransition, ⟨now, hnow, hphase, hopened⟩, hentries', -⟩ :=
    undergoes_does h.does hold
  obtain rfl : entries = entries' := List.append_cancel_left (hentries.symm.trans hentries')
  have hbusy : ∀ epoch : Nat, entries = [(refresh.live, epoch)] → opened = epoch →
      opened = refresh.epoch := by
    rintro epoch rfl rfl
    exact (congrArg Prod.snd (List.mem_singleton.1 hnew)).symm
  refine ⟨now, hnow, ?_⟩
  cases htransition with
  | rest helsewhere => exact absurd rfl (helsewhere _ hnew).1
  | halt | remember | settle => cases hnew
  | start | launch | again =>
    refine ⟨hopened.trans (hbusy _ rfl rfl), ?_⟩
    rw [hphase]
    exact ⟨by simp, by simp, rfl⟩

theorem launches_of_schedule {entries : List (Nat × Nat)}
    (h : m'.db.schedule = m.db.schedule ++ entries) (id : Nat) :
    m'.launches id = m.launches id ++ entries.filter fun entry => entry.1 == id := by
  rw [launches, launches, h, List.filter_append]

/-- One more deed: the live query stays busy, and nothing is launched for it. -/
theorem Abreast.snoc (h : Abreast launched before id epoch steps) {phase : Phase}
    {entries : List (Nat × Nat)} {coalesced : Nat}
    (hcomes : before.db.Comes after.db id phase epoch entries coalesced)
    (helsewhere : ∀ entry ∈ entries, entry.1 ≠ id)
    (hbusy : phase ≠ .stopped ∧ phase ≠ .idle)
    (hagain : LiveQuery.wantsAgain phase = decide (0 < heard id epoch (steps ++ [(before, deed)])))
    (hcount : heard id epoch steps - 1 + coalescedElsewhere id epoch steps + coalesced =
      heard id epoch (steps ++ [(before, deed)]) - 1 +
        coalescedElsewhere id epoch (steps ++ [(before, deed)])) :
    Abreast launched after id epoch (steps ++ [(before, deed)]) where
  live := by
    obtain ⟨now, hnow, rfl, hepoch⟩ := hcomes.live
    exact ⟨now, hnow, hepoch, hbusy.1, hbusy.2, hagain⟩
  launches := by
    have hnone : entries.filter (fun entry => entry.1 == id) = [] := by
      refine List.filter_eq_nil_iff.2 fun entry hentry => ?_
      simpa using helsewhere entry hentry
    rw [launches_of_schedule hcomes.schedule id, hnone, List.append_nil, h.launches]
  coalesced := by
    rw [hcomes.coalesced, h.coalesced]
    omega

theorem heard_snoc (id epoch : Nat) (steps : List (Moment σ × Deed σ)) (m : Moment σ)
    (deed : Deed σ) :
    heard id epoch (steps ++ [(m, deed)]) =
      heard id epoch steps + (deed.reaches id epoch).toNat := by
  rw [heard, heard, List.countP_append, List.countP_singleton]
  cases deed.reaches id epoch <;> rfl

theorem coalescedElsewhere_snoc (id epoch : Nat) (steps : List (Moment σ × Deed σ)) (m : Moment σ)
    (deed : Deed σ) :
    coalescedElsewhere id epoch (steps ++ [(m, deed)]) = coalescedElsewhere id epoch steps +
      (m.db.coalesces deed && !deed.reaches id epoch).toNat := by
  rw [coalescedElsewhere, coalescedElsewhere, List.countP_append, List.countP_singleton]
  cases m.db.coalesces deed && !deed.reaches id epoch <;> rfl

/-- Whatever else is done, what the live query is told of meanwhile is coalesced. -/
theorem Abreast.rest (h : Abreast launched before id epoch steps)
    (hlive : before.db.lives[id]? = some live) {entries : List (Nat × Nat)}
    (hcomes : before.db.Comes after.db id live.phase live.epoch entries
      (before.db.coalesces deed).toNat)
    (helsewhere : ∀ entry ∈ entries, entry.1 ≠ id)
    (hears : ∀ change, deed = .tell (.live id live.epoch) change →
      LiveQuery.react live.phase (before.db.lastGeneration live.query) change.generation =
        .ignore ∨
      LiveQuery.react live.phase (before.db.lastGeneration live.query) change.generation =
        .coalesce) :
    Abreast launched after id epoch (steps ++ [(before, deed)]) := by
  obtain ⟨rfl, hstarted, hidle, hagain⟩ := h.busy hlive
  cases hreaches : deed.reaches id live.epoch with
  | false =>
    refine h.snoc hcomes helsewhere ⟨hstarted, hidle⟩ ?_ ?_
    · rw [hagain, heard_snoc, hreaches]
      rfl
    · rw [heard_snoc, coalescedElsewhere_snoc, hreaches, Bool.not_false, Bool.and_true]
      simp only [Bool.toNat_false]
      omega
  | true =>
    obtain ⟨change, rfl⟩ := Deed.reaches_iff.1 hreaches
    rcases hears change rfl with hignored | hcoalesced
    · rcases LiveQuery.of_ignore hignored with hstopped | ⟨hresting, -⟩
      · exact absurd hstopped hstarted
      · exact absurd hresting hidle
    · -- A run was to follow anyway.
      have htold : 0 < heard id live.epoch steps := by
        rw [LiveQuery.wantsAgain_of_coalesce hcoalesced] at hagain
        exact of_decide_eq_true hagain.symm
      refine h.snoc hcomes helsewhere ⟨hstarted, hidle⟩ ?_ ?_
      · rw [hagain, heard_snoc]
        exact decide_eq_decide.2 (iff_of_true htold (by omega))
      · rw [heard_snoc, coalescedElsewhere_snoc, hreaches, Database.coalesces_tell hlive,
          decide_eq_true hcoalesced]
        simp only [Bool.toNat_true, Bool.not_true, Bool.and_false, Bool.toNat_false]
        omega

/-- The first change that the live query is told of is remembered, and is not coalesced. -/
theorem Abreast.remember (h : Abreast launched before id epoch steps)
    (hlive : before.db.lives[id]? = some live) {change : Change}
    (hcomes : before.db.Comes after.db id (LiveQuery.remembering live.phase) live.epoch []
      (before.db.coalesces (.tell (.live id live.epoch) change)).toNat)
    (hreact : LiveQuery.react live.phase (before.db.lastGeneration live.query) change.generation =
      .remember) :
    Abreast launched after id epoch
      (steps ++ [(before, .tell (.live id live.epoch) change)]) := by
  obtain ⟨rfl, -, -, hagain⟩ := h.busy hlive
  obtain ⟨-, -, hremembered⟩ := LiveQuery.of_remember hreact
  have hnone : heard id live.epoch steps = 0 := by
    rw [LiveQuery.wantsAgain_of_remember hreact] at hagain
    exact Nat.eq_zero_of_not_pos (of_decide_eq_false hagain.symm)
  have hreaches : Deed.reaches id live.epoch
      (.tell (.live id live.epoch) change : Deed σ) = true := Deed.reaches_iff.2 ⟨change, rfl⟩
  refine h.snoc hcomes nofun (LiveQuery.busy_of_wantsAgain hremembered) ?_ ?_
  · rw [hremembered, heard_snoc, hreaches]
    exact (decide_eq_true (Nat.succ_pos _)).symm
  · rw [heard_snoc, coalescedElsewhere_snoc, hreaches, Database.coalesces_tell hlive, hreact, hnone]
    rfl

/-- As long as its run is due or under way the live query keeps abreast of what it is told. -/
theorem Abreast.does (h : Abreast launched before id epoch steps) (hreached : before.Reached)
    (hdoes : before.Does deed after) (hflies : before.Flies id epoch task)
    (hstill : after.Flies id epoch task) {now : LiveQuery}
    (hnow : after.db.lives[id]? = some now) (hepoch : now.epoch = epoch) :
    Abreast launched after id epoch (steps ++ [(before, deed)]) := by
  obtain ⟨live, hlive, -⟩ := h.live
  obtain ⟨rfl, hstarted, hidle, -⟩ := h.busy hlive
  obtain ⟨phase, opened, entries, htransition, hcomes⟩ := undergoes_does hdoes hlive
  -- Only its own refresh could be taken in, and that is still under way.
  have hnot : ∀ taken refresh, deed = .takeIn taken → before.db.refreshes[taken]? = some refresh →
      refresh.live = id → live.isCurrent refresh.epoch = true → False := by
    rintro taken refresh rfl htaken hof hcurrent
    obtain ⟨refresh', hgoing⟩ := hreached.going_of_takeIn hdoes
    obtain rfl : refresh = refresh' := Option.some.inj (htaken.symm.trans hgoing.1)
    have htaken : before.Flies id live.epoch taken :=
      ⟨refresh, hgoing, hof, (LiveQuery.isCurrent_iff.1 hcurrent).1.symm⟩
    obtain rfl := (hreached.flies_alone hlive hstarted hidle).unique htaken hflies
    exact not_flies_takeIn hdoes hstill
  have hopened : opened = live.epoch := by
    obtain ⟨now', hnow', -, hopened⟩ := hcomes.live
    obtain rfl : now = now' := Option.some.inj (hnow.symm.trans hnow')
    exact hopened.symm.trans hepoch
  cases htransition with
  | rest helsewhere hears =>
    exact h.rest hlive hcomes (fun entry hentry => (helsewhere entry hentry).1) hears
  | halt | start => omega
  | remember hdeed hreact =>
    subst hdeed
    exact h.remember hlive hcomes hreact
  | launch hdeed hreact => exact absurd (LiveQuery.idle_of_launch hreact) hidle
  | again hdeed htask hof hcurrent | settle hdeed htask hof hcurrent =>
    exact (hnot _ _ hdeed htask hof hcurrent).elim

/-- What is still of use was so before. -/
theorem Onward.isCurrent_before (h : m.Onward m') (hlive : m.db.lives[id]? = some live)
    (hle : epoch ≤ live.epoch) {now : LiveQuery} (hnow : m'.db.lives[id]? = some now)
    (hcurrent : now.isCurrent epoch = true) : live.isCurrent epoch = true := by
  obtain ⟨rfl, hstarted⟩ := LiveQuery.isCurrent_iff.1 hcurrent
  obtain ⟨now', hnow', hgoes⟩ := h.lives id live hlive
  obtain rfl : now = now' := Option.some.inj (hnow.symm.trans hnow')
  have hepoch := Nat.le_antisymm hgoes.epoch hle
  exact LiveQuery.isCurrent_iff.2 ⟨hepoch, fun hstopped =>
    hstarted (hgoes.stopped hepoch.symm hstopped)⟩

/-- From its launch until its run is over a live query keeps abreast of what it is told. -/
theorem Reached.abreast (h : m.Reached) (hlaunches : m.Launches deed launched id epoch task)
    (htrace : Trace launched steps after) (hflies : after.Flies id epoch task) {now : LiveQuery}
    (hnow : after.db.lives[id]? = some now) (hcurrent : now.isCurrent epoch = true) :
    Abreast launched after id epoch steps := by
  have hlaunched : launched.Reached := h.step hlaunches.does.step
  have hstart := hlaunches.abreast
  obtain ⟨first, hfirst, hfirstEpoch, -⟩ := hstart.live
  obtain ⟨refresh, htask, -⟩ := hlaunches.launched
  induction htrace generalizing now with
  | nil => exact hstart
  | @snoc between after steps deed htrace hdoes ih =>
    have hbetween := hlaunched.steps htrace.forget
    have honward := hlaunched.onward htrace.forget
    obtain ⟨live, hlive, hgoes⟩ := honward.lives id first hfirst
    obtain ⟨old, hold, -⟩ := honward.refreshes task refresh htask
    have hstill := hbetween.flies_before (.single hdoes.step) hold hflies
    have hlater := hbetween.onward (.single hdoes.step)
    have hcurrent' := hlater.isCurrent_before hlive (hfirstEpoch ▸ hgoes.epoch) hnow hcurrent
    exact (ih hstill hlive hcurrent').does hbetween hdoes hstill hflies hnow
      (LiveQuery.isCurrent_iff.1 hcurrent).1

/-- What is launched when a run is taken in is all that is under way then. -/
theorem Reached.flies_next (h : before.Reached) (htakes : before.Does (.takeIn task) after)
    (honly : ∀ other, before.Flies id epoch other → other = task)
    (hschedule : after.db.schedule = before.db.schedule ++ [(id, epoch)])
    (hone : ∃! next, after.Flies id epoch next) :
    ∃ next, before.Launches (.takeIn task) after id epoch next ∧
      ∀ other, after.Flies id epoch other ↔ other = next := by
  have hlength : before.db.schedule.length = before.db.refreshes.length := List.length_map _
  obtain ⟨next, hnext, hunique⟩ := hone
  have hnew : next = before.db.refreshes.length := by
    cases hold : before.db.refreshes[next]? with
    | some old =>
      have hflew := h.flies_before (.single htakes.step) hold hnext
      rw [honly next hflew] at hnext
      exact absurd hnext (not_flies_takeIn htakes)
    | none =>
      obtain ⟨refresh, ⟨htask, -⟩, -⟩ := hnext
      have hlt : next < after.db.refreshes.length := (List.getElem?_eq_some_iff.1 htask).1
      have hafter : after.db.refreshes.length = before.db.refreshes.length + 1 := by
        have hcount := congrArg List.length hschedule
        rw [List.length_append, hlength] at hcount
        exact (List.length_map _).symm.trans hcount
      have hge := List.getElem?_eq_none_iff.1 hold
      omega
  refine ⟨next, ⟨htakes, ?_, ?_⟩, fun other => ⟨hunique other, fun heq => heq ▸ hnext⟩⟩
  · rw [hnew]
    exact List.getElem?_eq_none (Nat.le_refl _)
  · have hentry : after.db.schedule[next]? = some (id, epoch) := by
      rw [hschedule, hnew, ← hlength, List.getElem?_concat_length]
    exact (Database.getElem?_schedule next).1 hentry

/-- What comes of a run that is taken in after those steps: one more run follows if the live query
was told of any change in their course, and all these changes but one were coalesced; else the live
query is idle. -/
structure AnswersBurst (launched before after : Moment σ) (id epoch task : Nat)
    (steps : List (Moment σ × Deed σ)) : Prop where
  coalesced : after.db.metrics.liveCoalesced = launched.db.metrics.liveCoalesced +
    (heard id epoch steps - 1) + coalescedElsewhere id epoch steps
  idle : heard id epoch steps = 0 →
    (∃ now, after.db.lives[id]? = some now ∧ now.phase = .idle ∧ now.epoch = epoch) ∧
    after.launches id = launched.launches id ∧ ∀ next, ¬after.Flies id epoch next
  again : 1 ≤ heard id epoch steps →
    (∃ now, after.db.lives[id]? = some now ∧ now.phase = .requerying false ∧ now.epoch = epoch) ∧
    after.launches id = launched.launches id ++ [(id, epoch)] ∧
    ∃ next, before.Launches (.takeIn task) after id epoch next ∧
      ∀ other, after.Flies id epoch other ↔ other = next

theorem Reached.answersBurst (h : m.Reached) (hlaunches : m.Launches deed launched id epoch task)
    (htrace : Trace launched steps before) (htakes : before.Does (.takeIn task) after)
    (hlive : before.db.lives[id]? = some live) (hcurrent : live.isCurrent epoch = true) :
    AnswersBurst launched before after id epoch task steps := by
  have hlaunched := h.step hlaunches.does.step
  have hbefore := hlaunched.steps htrace.forget
  have hafter := hbefore.step htakes.step
  have hflies := hlaunched.flies_of_takeIn hlaunches.launched htrace.forget htakes
  have habreast := h.abreast hlaunches htrace hflies hlive hcurrent
  have ⟨refresh, ⟨htask, _⟩, hof, hofEpoch⟩ := hflies
  obtain ⟨hepoch, hstarted, hidle, hagain⟩ := habreast.busy hlive
  obtain ⟨phase, opened, entries, htransition, hcomes⟩ := undergoes_does htakes hlive
  obtain ⟨now, hnow, hphase, hopened⟩ := hcomes.live
  have hentries := launches_of_schedule hcomes.schedule id
  rw [habreast.launches] at hentries
  have hcoalesced := hcomes.coalesced
  rw [habreast.coalesced] at hcoalesced
  cases htransition with
  | rest _ _ hsettles =>
    rw [← hofEpoch, hsettles task refresh rfl htask hof] at hcurrent
    cases hcurrent
  | halt hdeed | start hdeed | remember hdeed | launch hdeed => cases hdeed
  | again _ _ _ _ hwants =>
    have htold : 1 ≤ heard id epoch steps := by
      rw [hwants] at hagain
      exact of_decide_eq_true hagain.symm
    refine ⟨hcoalesced, fun hnone => by omega, fun _ =>
      ⟨⟨now, hnow, hphase, hopened.trans hepoch⟩, ?_, ?_⟩⟩
    · rw [hentries, hepoch]
      simp
    · refine hbefore.flies_next htakes (fun other hother => ?_) (hepoch ▸ hcomes.schedule) ?_
      · exact (hbefore.flies_alone hlive hstarted hidle).unique (hepoch ▸ hother) (hepoch ▸ hflies)
      · have hone := hafter.flies_alone hnow (by simp [hphase]) (by simp [hphase])
        rwa [hopened, hepoch] at hone
  | settle _ _ _ _ hwants =>
    have hnone : heard id epoch steps = 0 := by
      rw [hwants] at hagain
      exact Nat.eq_zero_of_not_pos (of_decide_eq_false hagain.symm)
    refine ⟨hcoalesced, fun _ =>
      ⟨⟨now, hnow, hphase, hopened.trans hepoch⟩, ?_, fun next hnext => ?_⟩, fun htold => by omega⟩
    · rw [hentries]
      exact List.append_nil _
    · have hground := hafter.grounded hnow (.inr hphase) next
      rw [hopened, hepoch] at hground
      exact hground hnext

/-- In the current epoch of a live query one run is due or under way while it is busy, and none
while it is stopped or idle; a run that has not ended is the one that its refresh waits for.  Each
run that is taken in before its epoch is over is followed by exactly one more if the live query was
told of any change since it was launched, and by none otherwise; and all but one of those changes
were coalesced. -/
theorem Reached.single_flight (h : m.Reached) :
    (∀ (id : Nat) (live : LiveQuery), m.db.lives[id]? = some live →
      match live.phase with
      | .stopped | .idle => ∀ task, ¬m.Flies id live.epoch task
      | .awaitingInitial _ | .requerying _ => ∃! task, m.Flies id live.epoch task) ∧
    (∀ (run task : Nat) (submitted : Run), m.db.runs[run]? = some submitted →
      submitted.isOver = false → submitted.recipient = .refresh task →
        ∃ refresh, m.db.refreshes[task]? = some refresh ∧ refresh.stage = .awaiting run ∧
          m.Flies refresh.live refresh.epoch task) ∧
    ∀ (deed : Deed σ) (launched before after : Moment σ) (id epoch task : Nat)
      (steps : List (Moment σ × Deed σ)) (live : LiveQuery),
      m.Launches deed launched id epoch task → Trace launched steps before →
        before.Does (.takeIn task) after → before.db.lives[id]? = some live →
          live.isCurrent epoch = true → AnswersBurst launched before after id epoch task steps := by
  refine ⟨fun id live hlive => ?_, fun run task submitted => h.flies_of_run,
    fun deed launched before after id epoch task steps live => h.answersBurst⟩
  cases hphase : live.phase with
  | stopped => exact h.grounded hlive (.inl hphase)
  | idle => exact h.grounded hlive (.inr hphase)
  | awaitingInitial again => exact h.flies_alone hlive (by simp [hphase]) (by simp [hphase])
  | requerying again => exact h.flies_alone hlive (by simp [hphase]) (by simp [hphase])

/-- Two documents are written in the course of the first run, and one run follows for both. -/
theorem Reached.one_run_after_two_writes : ∃ (m launched before after : Moment Unit)
    (steps : List (Moment Unit × Deed Unit)) (now : LiveQuery) (next : Nat), m.Reached ∧
      m.Launches (.act (.startLive 0)) launched 0 1 0 ∧ Trace launched steps before ∧
      before.Does (.takeIn 0) after ∧ heard 0 1 steps = 2 ∧
      after.db.metrics.liveCoalesced = 1 ∧ after.db.lives[0]? = some now ∧
      now.phase = .requerying false ∧ before.Launches (.takeIn 0) after 0 1 next := by
  have hmade := @create Unit {} .info 0 () _ rfl
  have hdefined := hmade.step (.act (.defineView "v" Store.bodyById none) trivial trivial)
  have hqueried := hdefined.step (.act (.queryIndex (.named ⟨1⟩ "v" false)) trivial trivial)
  have hlive := hqueried.step (.act (.makeLive 0) trivial trivial)
  obtain ⟨hstart, hstarted⟩ := hlive.act (.startLive 0) (by rintro live ⟨⟩; rfl) trivial
  obtain ⟨hsubmit, hsubmitted⟩ :=
    hstarted.act (.go (.refresh 0)) trivial (by rintro refresh ⟨⟩ run ⟨⟩)
  obtain ⟨hrun, hrunning⟩ := hsubmitted.act (.go (.run 0)) trivial trivial
  obtain ⟨hwrite, hwritten⟩ := hrunning.does
    (@Does.write Unit _ (.put "a" (.bool true)) "a" (Store.putEdit "a" (.bool true)) _ _ rfl rfl)
  obtain ⟨htell, htold⟩ := hwritten.does (@Does.tell Unit _ [] [] _ (.live 0 1) ⟨1, ["a"]⟩)
  obtain ⟨hrewrite, hrewritten⟩ := htold.does
    (@Does.write Unit _ (.put "b" (.bool true)) "b" (Store.putEdit "b" (.bool true)) _ _ rfl rfl)
  obtain ⟨hretell, hretold⟩ :=
    hrewritten.does (@Does.tell Unit _ [] [] _ (.live 0 1) ⟨2, ["b"]⟩)
  obtain ⟨hscan, hscanned⟩ := hretold.act (.scanRun 0) trivial trivial
  obtain ⟨hend, hended⟩ := hscanned.act (.go (.run 0)) trivial trivial
  obtain ⟨htake, -⟩ := hended.does (@Does.takeIn Unit _ 0 0 _ _ (by decide) rfl rfl rfl)
  have htrace := (((((((Trace.nil.snoc hsubmit).snoc hrun).snoc hwrite).snoc htell).snoc
    hrewrite).snoc hretell).snoc hscan).snoc hend
  obtain ⟨-, -, hruns⟩ := hlive.single_flight
  have hlaunches : Launches _ _ _ 0 1 0 := ⟨hstart, rfl, _, rfl, rfl, rfl⟩
  have hburst := hruns _ _ _ _ 0 1 0 _ _ hlaunches htrace htake rfl rfl
  obtain ⟨⟨now, hnow, hphase, -⟩, -, next, hnext, -⟩ := hburst.again (by decide)
  exact ⟨_, _, _, _, _, now, next, hlive, hlaunches, htrace, htake, rfl, hburst.coalesced.trans rfl,
    hnow, hphase, hnext⟩

end Moment

end Viewbase
