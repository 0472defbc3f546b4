import Viewbase.Proofs.Database.Phases

/-!
The run of a refresh, and what a live query learns from it.

With these all moves leave live queries what they rely on (`Attended.move`).
-/

namespace Viewbase.Stance

variable {σ : Type} {s s' : Stance σ} {id : Nat} {live : LiveQuery} {query : Query}

/-! ## The run of a refresh -/

/-- A refresh of the present epoch that goes on is the one that the live query awaits. -/
theorem Attends.of_current (h : s.Attends id live query) {task : Nat} {refresh : Refresh}
    (hgoing : s.Going task refresh) (hlive : refresh.live = id)
    (hcurrent : live.isCurrent refresh.epoch = true) :
    live.phase ≠ .stopped ∧ live.phase ≠ .idle ∧ live.epoch = refresh.epoch ∧
      (∀ other refresh', s.Going other refresh' → refresh'.live = id → refresh'.epoch = live.epoch →
        other = task) ∧
        match refresh.stage with
        | .awaiting run => live.running = some run ∧ ∃ submitted : Run,
            s.db.runs[run]? = some submitted ∧ submitted.query = live.query ∧
              submitted.request = query.request ∧
                submitted.OnCourse (s.Kept id live query) query.lastGeneration
        | _ => live.running = none := by
  obtain ⟨hepoch, hstarted⟩ := LiveQuery.isCurrent_iff.1 hcurrent
  have hidle : live.phase ≠ .idle := by
    intro hphase
    have hprogress := h.progress
    rw [Progress, hphase] at hprogress
    exact hprogress.2.1 task refresh hgoing hlive hepoch.symm
  obtain ⟨awaited, known, hknown, -, -, honly, hstage⟩ :=
    (progress_iff_awaits hstarted hidle).1 h.progress
  have htask := honly task refresh hgoing hlive hepoch.symm
  subst htask
  have hsame : known = refresh := Option.some.inj (hknown.1.symm.trans hgoing.1)
  subst hsame
  exact ⟨hstarted, hidle, hepoch, honly, hstage⟩

/-- The refresh of a live query now awaits the run that was submitted for it. -/
theorem Attends.submitted (h : s.Attends id live query) {task : Nat} {refresh : Refresh} {run : Run}
    (hgoing : s.Going task refresh) (hearly : refresh.stage.IsEarly) (hlive : refresh.live = id)
    (hcurrent : live.isCurrent refresh.epoch = true) (hquery : run.query = live.query)
    (hrequest : run.request = query.request) (hrecipient : run.recipient = .refresh task)
    (hcourse : run.OnCourse (s'.Kept id live query) query.lastGeneration)
    (hruns : ∀ number : Nat, s'.db.runs[number]? =
      if number = s.db.runs.length then some run else s.db.runs[number]?)
    (hrefreshes : ∀ other : Nat, s'.db.refreshes[other]? =
      if other = task then some { refresh with stage := .awaiting s.db.runs.length }
      else s.db.refreshes[other]?)
    (htelling : s'.telling = s.telling) (hstore : s'.db.store = s.db.store) :
    s'.Attends id { live with running := some s.db.runs.length } query := by
  obtain ⟨-, hwaits⟩ := hearly.not_over
  obtain ⟨hstarted, hidle, hepoch, honly, hstage⟩ := h.of_current hgoing hlive hcurrent
  have hnone : live.running = none := by
    split at hstage
    next number heq => exact absurd heq (hwaits number)
    next => exact hstage
  refine ⟨h.index, h.disposed, h.held, hstore ▸ h.token, hstore ▸ h.subscribed, ?_, ?_⟩
  · intro number submitted hsubmitted hfor
    rw [hruns] at hsubmitted
    split at hsubmitted
    next heq =>
      cases hsubmitted
      exact ⟨⟨task, hrecipient⟩, fun _ => by rw [heq]⟩
    next =>
      obtain ⟨hrecipient', hopen⟩ := h.runs number submitted hsubmitted hfor
      refine ⟨hrecipient', fun hisOpen => ?_⟩
      have hknown := hopen hisOpen
      rw [hnone] at hknown
      cases hknown
  · refine (progress_iff_awaits (by exact hstarted) (by exact hidle)).2 ?_
    refine ⟨task, { refresh with stage := .awaiting s.db.runs.length }, ⟨?_, by simp, ?_⟩, hlive,
      hepoch.symm, ?_, rfl, run, ?_, hquery, hrequest, hcourse⟩
    · rw [hrefreshes, if_pos rfl]
    · exact htelling ▸ hgoing.2.2
    · rintro other refresh' ⟨hother, hover, htold⟩ hfor hsameEpoch
      by_cases heq : other = task
      · exact heq
      · rw [hrefreshes, if_neg heq] at hother
        exact honly other refresh' ⟨hother, hover, htelling ▸ htold⟩ hfor hsameEpoch
    · rw [hruns, if_pos rfl]

/-- A run that is submitted for one live query is nothing to another. -/
theorem Keeps.submitted {task : Nat} {refresh : Refresh} {run : Run}
    (htask : s.db.refreshes[task]? = some refresh) (hlive : refresh.live ≠ id)
    (hquery : run.query ≠ live.query)
    (hruns : ∀ number : Nat, s'.db.runs[number]? =
      if number = s.db.runs.length then some run else s.db.runs[number]?)
    (hrefreshes : ∀ other : Nat, s'.db.refreshes[other]? =
      if other = task then some { refresh with stage := .awaiting s.db.runs.length }
      else s.db.refreshes[other]?)
    (htelling : s'.telling = s.telling) (hstore : s'.db.store = s.db.store)
    (hpending : s'.pending = s.pending) : Keeps s s' id live query := by
  refine .of_others ?_ ?_ (Nat.le_of_eq (congrArg Store.tokens hstore.symm))
    (fun _ hsub _ => hstore ▸ hsub) (fun _ _ _ hkept => hkept.later (hstore ▸ .refl _) hpending)
  · intro number submitted hfor
    rw [hruns]
    split
    next heq =>
      have hother : run ≠ submitted := by
        rintro rfl
        exact hquery hfor
      simp [heq, hother]
    next => rfl
  · intro other refresh' hfor
    rw [Going, Going, hrefreshes, htelling]
    split
    next heq =>
      have hnew : { refresh with stage := .awaiting s.db.runs.length } ≠ refresh' := by
        rintro rfl
        exact hlive hfor
      have hold : refresh ≠ refresh' := by
        rintro rfl
        exact hlive hfor
      simp [heq, htask, hnew, hold]
    next => rfl

theorem Attended.execute (h : s.Attended) (hplaced : s.Placed) {task : Nat} {refresh : Refresh}
    {live : LiveQuery} {request : Request} {registration : Except QueryError (Option Nat)}
    (htask : s.db.refreshes[task]? = some refresh) (hearly : refresh.stage.IsEarly)
    (hlive : s.db.lives[refresh.live]? = some live) (hcurrent : live.isCurrent refresh.epoch = true)
    (hrequest : ∀ query, s.db.queries[live.query]? = some query → request = query.request)
    (hregistration : registration ≠ .error .cancelled) :
    Attended
      { s with
        db := ((s.db.enter (.new live.query request registration (.refresh task))).updateLive
          refresh.live fun live => { live with running := some s.db.runs.length }).updateRefresh
            task fun refresh => { refresh with stage := .awaiting s.db.runs.length } } := by
  obtain ⟨hover, -⟩ := hearly.not_over
  have hquiet := hplaced.not_telling htask hearly
  have hentered := getElem?_enter s.db (.new live.query request registration (.refresh task))
  have hchanged := getElem?_updateRefresh htask
    (fun refresh => { refresh with stage := .awaiting s.db.runs.length })
  refine h.of_change h.sound hlive _ rfl rfl (Nat.le_refl _) (fun _ htoken => .inl htoken)
    ?_ ?_ ?_ ?_
  · intro query hquery hold
    refine ⟨query, hquery, ?_⟩
    exact hold.submitted ⟨htask, hover, hquiet⟩ hearly rfl hcurrent rfl (hrequest query hquery) rfl
      (by exact ⟨rfl, hregistration⟩) hentered hchanged rfl rfl
  · intro other live' query hother hlive' hquery _
    have hne : live.query ≠ live'.query := fun heq =>
      hother (h.queries other refresh.live live' live hlive' hlive heq.symm)
    exact ⟨hquery, .submitted htask (Ne.symm hother) hne hentered hchanged rfl rfl rfl⟩
  · intro other refresh' hother
    have hold := (hchanged other).symm.trans hother
    split at hold
    next heq =>
      cases hold
      exact .inl ⟨refresh, heq ▸ htask, rfl, rfl⟩
    next => exact .inl ⟨refresh', hold, rfl, rfl⟩
  · intro number submitted hsubmitted
    have hrun := (hentered number).symm.trans hsubmitted
    split at hrun
    · cases hrun
      obtain ⟨query, hquery, -⟩ := h.attends refresh.live live hlive
      exact (List.getElem?_eq_some_iff.1 hquery).1
    · exact h.submitted number submitted hrun

/-! ## The outcome of a run -/

/-- What a live query learns from a run: if the run did not fail, it has the rows of its answer. -/
theorem absorb_judge (live : LiveQuery) {outcome : Outcome} (hgood : outcome ≠ .error .cancelled) :
    ∃ rows error result,
      live.absorb (live.judge outcome) =
        { live with rows := rows, lastError := error, result := result } ∧
      (error = none → ∃ shown answer, outcome = .ok answer ∧ rows = some shown ∧
        (shown = answer ∨ shown.sameRows answer)) := by
  cases outcome with
  | ok answer =>
    rw [LiveQuery.judge]
    split
    next hsame =>
      rw [LiveQuery.hasRows] at hsame
      split at hsame
      next old hrows =>
        exact ⟨live.rows, none, live.result, rfl, fun _ => ⟨old, answer, rfl, hrows, .inr hsame⟩⟩
      next => cases hsame
    next =>
      refine ⟨some answer, none, some (.ok answer), rfl, fun _ => ?_⟩
      exact ⟨answer, answer, rfl, rfl, .inl rfl⟩
  | error error =>
    cases error with
    | cancelled => exact absurd rfl hgood
    | _ => exact ⟨live.rows, some _, _, rfl, by simp⟩

/-- What a live query has come to when the run of its refresh is over. -/
theorem Attends.of_over (h : s.Attends id live query) (hplaced : s.Placed) {task number : Nat}
    {refresh : Refresh} {run : Run} (hhand : s.hand = some (.refresh task))
    (htask : s.db.refreshes[task]? = some refresh) (hstage : refresh.stage = .awaiting number)
    (hrun : s.db.runs[number]? = some run) (hlive : refresh.live = id)
    (hcurrent : live.isCurrent refresh.epoch = true) :
    live.phase ≠ .stopped ∧ live.running = some number ∧ run.query = live.query ∧
      run.control = .done ∧ run.answer ≠ .error .cancelled ∧
      (∀ answer, run.answer = .ok answer →
        s.Kept id live query answer ∧ query.lastGeneration = some answer.generation) ∧
      ∀ other refresh', s.Going other refresh' → refresh'.live = id → refresh'.epoch = live.epoch →
        other = task := by
  obtain ⟨-, -, -, hover, hawaits⟩ := hplaced.refresh_hand hhand htask
  obtain ⟨hquiet, submitted, hsubmitted, -, hended⟩ := hawaits number hstage
  rw [hrun] at hsubmitted
  cases hsubmitted
  obtain ⟨hstarted, -, -, honly, hknown⟩ := h.of_current ⟨htask, hover, hquiet⟩ hlive hcurrent
  rw [hstage] at hknown
  obtain ⟨hrunning, submitted, hsubmitted, hquery, -, hcourse⟩ := hknown
  rw [hrun] at hsubmitted
  cases hsubmitted
  have hstage' : run.stage = .ended := by
    cases hrunStage : run.stage <;> rw [Run.isOver, hrunStage] at hended
    all_goals cases hended
  rw [Run.OnCourse, hstage'] at hcourse
  obtain ⟨hcontrol, outcome, houtcome, hgood, hanswer⟩ := hcourse
  have hdelivered : run.answer = outcome := by rw [Run.answer, houtcome, Option.getD_some]
  refine ⟨hstarted, hrunning, hquery, hcontrol, hdelivered ▸ hgood, ?_, honly⟩
  intro answer heq
  exact hanswer answer (hdelivered ▸ heq)

/-- A live query that has taken the outcome of its run in knows of no run. -/
theorem Attends.absorbed (h : s.Attends id live query) (hstarted : live.phase ≠ .stopped)
    (hdone : ∀ (number : Nat) (run : Run), live.running = some number →
      s.db.runs[number]? = some run → run.control = .done)
    (hstore : s'.db.store = s.db.store) (hruns : s'.db.runs = s.db.runs) (rows : Option Answer)
    (error : Option QueryError) (result : Option Outcome) {phase : Phase}
    (hprogress : s'.Progress id
      { live with
        rows := rows, lastError := error, result := result, running := none, phase := phase }
      query) :
    s'.Attends id
      { live with
        rows := rows, lastError := error, result := result, running := none, phase := phase }
      query where
  index := h.index
  disposed := fun hdisposed => absurd (h.disposed hdisposed).1 hstarted
  held := fun hheld => absurd (h.held hheld) hstarted
  token := by
    rw [hstore]
    exact h.token
  subscribed := by
    rw [hstore]
    exact fun _ => h.subscribed hstarted
  runs := by
    intro number submitted hsubmitted hfor
    rw [hruns] at hsubmitted
    obtain ⟨hrecipient, hopen⟩ := h.runs number submitted hsubmitted hfor
    refine ⟨hrecipient, fun hisOpen => ?_⟩
    have hcontrol := hdone number submitted (hopen hisOpen) hsubmitted
    rw [Control.IsOpen, hcontrol] at hisOpen
    rcases hisOpen with hpending | hrunning
    · cases hpending
    · cases hrunning
  progress := hprogress

/-- A live query takes an outcome in and goes on to another phase. -/
theorem Attended.absorb (h : s.Attended) {outcome : Outcome} {rows : Option Answer}
    {error : Option QueryError} {result : Option Outcome} {phase : Phase}
    (hlive : s.db.lives[id]? = some live) (hquery : s.db.queries[live.query]? = some query)
    (hstarted : live.phase ≠ .stopped)
    (hdone : ∀ (number : Nat) (run : Run), live.running = some number →
      s.db.runs[number]? = some run → run.control = .done)
    (habsorb : live.absorb (live.judge outcome) =
      { live with rows := rows, lastError := error, result := result })
    (hlives : s'.db.lives = s.db.lives.modify id fun other =>
      { other.absorb (live.judge outcome) with running := none, phase := phase })
    (hprogress : s'.Progress id
      { live with
        rows := rows, lastError := error, result := result, running := none, phase := phase } query)
    (hothers : ∀ task refresh, refresh.live ≠ id → (s'.Going task refresh ↔ s.Going task refresh))
    (hrefreshes : ∀ (task : Nat) (refresh' : Refresh), s'.db.refreshes[task]? = some refresh' →
      (∃ refresh : Refresh, s.db.refreshes[task]? = some refresh ∧ refresh'.live = refresh.live ∧
        refresh'.epoch = refresh.epoch) ∨ (refresh'.live = id ∧ refresh'.epoch = live.epoch))
    (hstore : s'.db.store = s.db.store) (hqueries : s'.db.queries = s.db.queries)
    (hruns : s'.db.runs = s.db.runs) (hpending : s'.pending = s.pending) : s'.Attended := by
  have hchange : { live.absorb (live.judge outcome) with running := none, phase := phase } =
      { live with
        rows := rows, lastError := error, result := result, running := none, phase := phase } := by
    rw [habsorb]
  refine h.of_change (hstore ▸ h.sound) hlive _ hlives ?_ ?_ ?_ ?_ ?_ ?_ ?_
  · rw [hchange]
  · exact Nat.le_of_eq (congrArg LiveQuery.epoch hchange).symm
  · rw [hchange]
    exact fun _ htoken => .inl htoken
  · intro query' hquery' hold
    rw [hquery] at hquery'
    cases hquery'
    rw [hchange]
    exact ⟨query, hqueries ▸ hquery, hold.absorbed hstarted hdone hstore hruns rows error result
      hprogress⟩
  · intro other live' query' hother _ hquery' _
    refine ⟨hqueries ▸ hquery', .of_others (fun _ _ _ => by rw [hruns]) ?_
      (Nat.le_of_eq (congrArg Store.tokens hstore.symm)) (fun _ hsub _ => hstore ▸ hsub)
      (fun _ _ _ hkept => hkept.later (hstore ▸ .refl _) hpending)⟩
    intro task refresh hfor
    exact hothers task refresh (hfor ▸ hother)
  · intro task refresh' htask
    rw [hchange]
    rcases hrefreshes task refresh' htask with hold | ⟨hfor, hepoch⟩
    · exact .inl hold
    · exact .inr ⟨hfor, Nat.le_of_eq hepoch⟩
  · intro number submitted hsubmitted
    rw [hqueries]
    exact h.submitted number submitted (hruns ▸ hsubmitted)

/-- A refresh that has taken its outcome in concerns no other live query. -/
theorem going_told {task : Nat} {refresh : Refresh} (htask : s.db.refreshes[task]? = some refresh)
    {other : Nat} {refresh' : Refresh} (hfor : refresh'.live ≠ refresh.live) :
    Going { s with telling := task :: s.telling, hand := none } other refresh' ↔
      s.Going other refresh' := by
  rw [Going, Going]
  refine and_congr_right fun hother => and_congr_right fun _ => not_congr ?_
  have hne : other ≠ task := by
    rintro rfl
    rw [htask] at hother
    cases hother
    exact hfor rfl
  simp [hne]

theorem Attended.takeIn (h : s.Attended) (hplaced : s.Placed) {task number : Nat}
    {refresh : Refresh} {run : Run} {live : LiveQuery} (hhand : s.hand = some (.refresh task))
    (htask : s.db.refreshes[task]? = some refresh) (hstage : refresh.stage = .awaiting number)
    (hrun : s.db.runs[number]? = some run) (hlive : s.db.lives[refresh.live]? = some live)
    (hcurrent : live.isCurrent refresh.epoch = true) :
    Attended
      { s with
        db := (s.db.updateLive refresh.live fun other =>
          { other.absorb (live.judge run.answer) with running := none }).settleLive
            refresh.live live
        telling := task :: s.telling
        hand := none } := by
  obtain ⟨query, hquery, hold⟩ := h.attends refresh.live live hlive
  obtain ⟨hstarted, hrunning, -, hcontrol, hgood, hanswer, honly⟩ :=
    hold.of_over hplaced hhand htask hstage hrun rfl hcurrent
  obtain ⟨rows, error, result, habsorb, hrows⟩ := absorb_judge live hgood
  have hdone : ∀ (other : Nat) (submitted : Run), live.running = some other →
      s.db.runs[other]? = some submitted → submitted.control = .done := by
    intro other submitted hknown hsubmitted
    rw [hrunning] at hknown
    cases hknown
    rw [hrun] at hsubmitted
    cases hsubmitted
    exact hcontrol
  -- Nothing of the epoch goes on for now.
  have htaken := hplaced.tell hhand htask hstage
  have hquiet : ∀ (other : Nat) (refresh' : Refresh),
      Going { s with telling := task :: s.telling, hand := none } other refresh' →
        refresh'.live = refresh.live → refresh'.epoch ≠ live.epoch := by
    rintro other refresh' ⟨hother, hover, htold⟩ hfor hepoch
    have hgoing : s.Going other refresh' :=
      ⟨hother, hover, fun h => htold (List.mem_cons_of_mem _ h)⟩
    exact htold (honly other refresh' hgoing hfor hepoch ▸ List.mem_cons_self)
  rw [Database.settleLive]
  split
  next hagain =>
    refine h.absorb hlive hquery hstarted hdone habsorb (List.modify_modify_eq ..) ?_ ?_ ?_ rfl rfl
      rfl rfl
    · exact Launches.awaits (by exact ⟨⟨_, rfl⟩, rfl⟩) htaken rfl rfl hquiet
    · intro other refresh' hfor
      refine Iff.trans ?_ (going_told htask hfor)
      exact Launches.going_of_ne (by exact ⟨⟨_, rfl⟩, rfl⟩) htaken hfor other refresh' rfl
    · intro other refresh' hother
      exact Launches.of_getElem? (s := { s with telling := task :: s.telling, hand := none })
        (by exact ⟨⟨_, rfl⟩, rfl⟩) other refresh' hother
  next hsettled =>
    refine h.absorb hlive hquery hstarted hdone habsorb (List.modify_modify_eq ..) ?_ ?_ ?_ rfl rfl
      rfl rfl
    · refine ⟨rfl, hquiet, fun hfine => ?_⟩
      -- No further run was asked for, so that the answer is still kept.
      obtain ⟨shown, answer, hdelivered, hshown, hsameRows⟩ := hrows hfine
      obtain ⟨hkept, hlast⟩ := hanswer answer hdelivered
      refine ⟨shown, answer, hshown, hsameRows, fun hstale => ?_, hlast⟩
      obtain ⟨hfresh, hbehind⟩ := hkept hstale
      refine ⟨hfresh, fun hindex hgeneration => ?_⟩
      rcases hbehind hindex hgeneration with hagain | hpending
      · exact absurd hagain hsettled
      · exact .inr hpending
    · exact fun other refresh' hfor => going_told htask hfor
    · exact fun other refresh' hother => .inl ⟨refresh', hother, rfl, rfl⟩

/-! ## All moves -/

theorem Attended.move (h : s.Attended) (hplaced : s.Placed) (hmove : Move s s') : s'.Attended := by
  cases hmove with
  | beside hbeside _ => exact h.beside hbeside
  | subscriptions htokens hkept => exact h.subscriptions htokens hkept
  | takeUp _ _ => exact h.of_eq rfl rfl rfl rfl rfl rfl rfl
  | drop _ _ => exact h.of_eq rfl rfl rfl rfl rfl rfl rfl
  | submit howns _ => exact h.submit howns
  | cancel hrun hrecipient => exact h.cancel hrun hrecipient
  | permit _ hrun hstage hpermits =>
    rw [Database.takePermit, if_pos hpermits]
    exact (h.permit hrun hstage).of_eq rfl rfl rfl rfl rfl rfl rfl
  | queue _ _ _ hpermits =>
    rw [Database.takePermit, if_neg hpermits]
    exact h.of_eq rfl rfl rfl rfl rfl rfl rfl
  | grant => exact h.grant hplaced
  | startRun _ hrun _ hcontrol =>
    exact (h.startRun hrun hcontrol).of_eq rfl rfl rfl rfl rfl rfl rfl
  | abandon _ hrun hstage hcontrol =>
    exact (h.abandon hrun hstage hcontrol).of_eq rfl rfl rfl rfl rfl rfl rfl
  | scan hscanning hrun => exact h.scan hplaced hscanning hrun
  | conclude _ hrun hconcludes =>
    exact (h.conclude hrun hconcludes).of_eq rfl rfl rfl rfl rfl rfl rfl
  | makeLive hbeside _ hindex hdisposed =>
    exact (h.beside hbeside).makeLive (hplaced.beside hbeside) hindex hdisposed
  | listen id change => exact h.listen id change
  | startInVain hlive hstopped => exact h.startInVain hlive hstopped
  | startLive hlive hheld hdisposed hstopped hsubscribe =>
    exact h.startLive hplaced hlive hheld hdisposed hstopped hsubscribe
  | stop hlive hrunning => exact h.stop hlive hrunning
  | dispose id => exact h.dispose id
  | letGo hstopped => exact h.letGo hstopped
  | giveUp hbeside _ hlive hfree =>
    exact (h.beside hbeside).giveUp (hbeside.lives ▸ hlive) hfree
  | write hedit hwrite => exact h.write hedit hwrite
  | overhear hpending hignored => exact h.overhear hpending hignored
  | coalesce hpending hlive hreact => exact h.coalesce hpending hlive hreact _
  | remember hpending hlive hreact => exact h.remember hpending hlive hreact
  | launch hpending hlive hreact => exact h.launch hplaced hpending hlive hreact _
  | @sleep task delay due refresh _ htask hstage =>
    have hearly : refresh.stage.IsEarly := hstage ▸ .launched delay
    exact (h.wait htask hearly .sleeping).of_eq rfl rfl rfl rfl rfl rfl rfl
  | ring htimers =>
    obtain ⟨refresh, htask, hstage, -⟩ := hplaced.of_timer htimers
    have hearly : refresh.stage.IsEarly := hstage ▸ .sleeping
    exact (h.wait htask hearly .due).of_eq rfl rfl rfl rfl rfl rfl rfl
  | lapse _ htask _ hlive hcurrent =>
    exact (h.lapse htask hlive hcurrent).of_eq rfl rfl rfl rfl rfl rfl rfl
  | execute _ htask hstage hlive hcurrent hrequest hregistration =>
    exact (h.execute hplaced htask hstage hlive hcurrent hrequest hregistration).of_eq rfl rfl rfl
      rfl rfl rfl rfl
  | ignore _ htask _ hcurrent => exact (h.ignore htask hcurrent).of_eq rfl rfl rfl rfl rfl rfl rfl
  | takeIn hhand htask hstage hrun hlive hcurrent =>
    exact h.takeIn hplaced hhand htask hstage hrun hlive hcurrent
  | retire htelling => exact h.retire hplaced htelling

theorem Attended.moves (h : s.Attended) (hplaced : s.Placed) (hmoves : Moves s s') :
    s'.Placed ∧ s'.Attended := by
  induction hmoves with
  | refl => exact ⟨hplaced, h⟩
  | tail _ hmove ih => exact ⟨ih.1.move hmove, ih.2.move ih.1 hmove⟩

theorem attended_create {config : Config} {least : Severity} {numbered : Nat} {client : σ}
    {db : Database σ} (hcreate : Database.create config least numbered client = .ok db) :
    Attended ⟨⟨db, [], []⟩, none⟩ := by
  rw [Database.create] at hcreate
  split at hcreate
  · cases hcreate
  · cases hcreate
    constructor
    · exact Store.sound_empty numbered
    · intro id live hlive
      cases hlive
    · intro id other live live' hlive
      cases hlive
    · intro id other live live' token hlive
      cases hlive
    · intro task refresh live htask
      cases htask
    · intro run submitted hrun
      cases hrun

end Viewbase.Stance
