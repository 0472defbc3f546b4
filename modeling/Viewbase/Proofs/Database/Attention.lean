import Viewbase.Proofs.Database.Refreshing

/-!
What every live query relies on.

A live query that was started is subscribed to its index.  Either one refresh of its epoch is under
way, or it is idle; what its last run answered is fresh unless a write came since, and then another
run will follow or the subscription has yet to tell it of the write (`Attends`).
-/

namespace Viewbase

/-- A run of this control can still come to an answer. -/
def Control.IsOpen (control : Control) : Prop :=
  control = .pending ∨ control = .running

/-- A run that was not cancelled, and what it has come to. -/
def Run.OnCourse (kept : Answer → Prop) (last : Option Nat) (run : Run) : Prop :=
  match run.stage with
  | .waiting => run.control = .pending ∧ run.registration ≠ .error .cancelled
  | .admitted => run.control = .pending ∧ run.registration ≠ .error .cancelled
  | .scanning => run.control = .running
  | .scanned result => run.control = .running ∧ ∀ answer, result = .ok answer → kept answer
  | .ended => run.control = .done ∧ ∃ outcome, run.outcome = some outcome ∧
      outcome ≠ .error .cancelled ∧
        ∀ answer, outcome = .ok answer → kept answer ∧ last = some answer.generation

theorem Run.OnCourse.mono {kept kept' : Answer → Prop} {last : Option Nat} {run : Run}
    (h : run.OnCourse kept last) (hkept : ∀ answer, kept answer → kept' answer) :
    run.OnCourse kept' last := by
  rw [OnCourse] at h ⊢
  cases hstage : run.stage with
  | scanned result =>
    rw [hstage] at h
    obtain ⟨hcontrol, hresult⟩ := h
    exact ⟨hcontrol, fun answer hanswer => hkept answer (hresult answer hanswer)⟩
  | ended =>
    rw [hstage] at h
    obtain ⟨hcontrol, outcome, houtcome, hgood, hanswer⟩ := h
    refine ⟨hcontrol, outcome, houtcome, hgood, fun answer heq => ?_⟩
    exact ⟨hkept answer (hanswer answer heq).1, (hanswer answer heq).2⟩
  | _ =>
    rw [hstage] at h
    exact h

namespace Stance

variable {σ : Type}

/-- A refresh that is neither over nor has taken its outcome in. -/
def Going (s : Stance σ) (task : Nat) (refresh : Refresh) : Prop :=
  s.db.refreshes[task]? = some refresh ∧ refresh.stage ≠ .over ∧ task ∉ s.telling

/-- An answer for a live query is fresh.  If something was written since, another run will follow,
or the live query has yet to be told. -/
def Kept (s : Stance σ) (id : Nat) (live : LiveQuery) (query : Query) (answer : Answer) : Prop :=
  query.request.stale = .refreshBefore →
    s.db.store.Fresh live.index.id query.request answer ∧
      (s.db.store.hasIndex live.index.id → answer.generation < s.db.store.generation →
        LiveQuery.wantsAgain live.phase ∨ ∃ change : Change,
          (.live id live.epoch, change) ∈ s.pending ∧ answer.generation < change.generation)

/-- The rows of the live query are those of a kept answer. -/
def Shown (s : Stance σ) (id : Nat) (live : LiveQuery) (query : Query) : Prop :=
  ∃ rows answer, live.rows = some rows ∧ (rows = answer ∨ rows.sameRows answer) ∧
    s.Kept id live query answer ∧ query.lastGeneration = some answer.generation

/-- One refresh of the epoch is under way, and its run is the one that the live query knows. -/
def Awaits (s : Stance σ) (id : Nat) (live : LiveQuery) (query : Query) : Prop :=
  ∃ task refresh, s.Going task refresh ∧ refresh.live = id ∧ refresh.epoch = live.epoch ∧
    (∀ other refresh', s.Going other refresh' → refresh'.live = id → refresh'.epoch = live.epoch →
      other = task) ∧
    match refresh.stage with
    | .awaiting run => live.running = some run ∧ ∃ submitted : Run,
        s.db.runs[run]? = some submitted ∧ submitted.query = live.query ∧
          submitted.request = query.request ∧
            submitted.OnCourse (s.Kept id live query) query.lastGeneration
    | _ => live.running = none

/-- How far a live query has come, phase by phase. -/
def Progress (s : Stance σ) (id : Nat) (live : LiveQuery) (query : Query) : Prop :=
  match live.phase with
  | .stopped => live.running = none
  | .idle => live.running = none ∧
      (∀ task refresh, s.Going task refresh → refresh.live = id → refresh.epoch ≠ live.epoch) ∧
        (live.lastError = none → s.Shown id live query)
  | .awaitingInitial _ => s.Awaits id live query
  | .requerying _ => s.Awaits id live query

/-- What a live query relies on. -/
structure Attends (s : Stance σ) (id : Nat) (live : LiveQuery) (query : Query) : Prop where
  index : query.index = some live.index
  disposed : query.disposed → live.phase = .stopped ∧ (live.disposed ∨ live.held = false)
  held : live.held = false → live.phase = .stopped
  token : ∀ token, live.token = some token → token.number ≤ s.db.store.tokens
  subscribed : live.phase ≠ .stopped → ∃ token, live.token = some token ∧
    ⟨token, live.index.id, .live id live.epoch⟩ ∈ s.db.store.subscriptions
  /-- A run of its query that can still come to an answer is the one it knows. -/
  runs : ∀ (run : Nat) (submitted : Run), s.db.runs[run]? = some submitted →
    submitted.query = live.query →
      (∃ task, submitted.recipient = .refresh task) ∧
        (submitted.control.IsOpen → live.running = some run)
  progress : s.Progress id live query

/-- All live queries can rely on what they rely on, and do not share queries or subscriptions. -/
structure Attended (s : Stance σ) : Prop where
  sound : s.db.store.Sound
  attends : ∀ (id : Nat) (live : LiveQuery), s.db.lives[id]? = some live → ∃ query : Query,
    s.db.queries[live.query]? = some query ∧ s.Attends id live query
  queries : ∀ (id other : Nat) (live live' : LiveQuery), s.db.lives[id]? = some live →
    s.db.lives[other]? = some live' → live.query = live'.query → id = other
  tokens : ∀ (id other : Nat) (live live' : LiveQuery) (token : Token),
    s.db.lives[id]? = some live → s.db.lives[other]? = some live' → live.token = some token →
      live'.token = some token → id = other
  epochs : ∀ (task : Nat) (refresh : Refresh) (live : LiveQuery),
    s.db.refreshes[task]? = some refresh → s.db.lives[refresh.live]? = some live →
      refresh.epoch ≤ live.epoch
  submitted : ∀ (run : Nat) (submitted : Run), s.db.runs[run]? = some submitted →
    submitted.query < s.db.queries.length

variable {s s' : Stance σ} {id : Nat} {live : LiveQuery} {query : Query}

/-! ## What a move leaves alone -/

/-- From `s` to `s'` nothing changed that a live query relies on. -/
structure Keeps (s s' : Stance σ) (id : Nat) (live : LiveQuery) (query : Query) : Prop where
  tokens : s.db.store.tokens ≤ s'.db.store.tokens
  subscriptions : ∀ sub ∈ s.db.store.subscriptions, live.token = some sub.token →
    sub ∈ s'.db.store.subscriptions
  kept : live.phase ≠ .stopped → ∀ answer,
    (live.phase = .idle → query.lastGeneration = some answer.generation) →
      s.Kept id live query answer → s'.Kept id live query answer
  came : live.phase ≠ .stopped → ∀ task refresh', s'.Going task refresh' → refresh'.live = id →
    refresh'.epoch = live.epoch → ∃ refresh, s.Going task refresh ∧ refresh.live = id ∧
      refresh.epoch = live.epoch
  goes : live.phase ≠ .stopped → ∀ task refresh, s.Going task refresh → refresh.live = id →
    refresh.epoch = live.epoch → ∃ refresh', s'.Going task refresh' ∧ refresh'.live = id ∧
      refresh'.epoch = live.epoch ∧
        ∀ run, refresh'.stage = .awaiting run ↔ refresh.stage = .awaiting run
  runs : ∀ (run : Nat) (submitted' : Run), s'.db.runs[run]? = some submitted' →
    submitted'.query = live.query → ∃ submitted : Run, s.db.runs[run]? = some submitted ∧
      submitted.query = live.query ∧ submitted'.recipient = submitted.recipient ∧
        (submitted'.control.IsOpen → submitted.control.IsOpen)
  course : ∀ (run : Nat) (submitted : Run), live.running = some run →
    s.db.runs[run]? = some submitted → submitted.query = live.query →
      submitted.request = query.request →
        submitted.OnCourse (s'.Kept id live query) query.lastGeneration →
          ∃ submitted' : Run, s'.db.runs[run]? = some submitted' ∧
            submitted'.query = submitted.query ∧ submitted'.request = submitted.request ∧
              submitted'.OnCourse (s'.Kept id live query) query.lastGeneration

theorem Keeps.refl (s : Stance σ) (id : Nat) (live : LiveQuery) (query : Query) :
    Keeps s s id live query where
  tokens := Nat.le_refl _
  subscriptions := fun _ hsub _ => hsub
  kept := fun _ _ _ hkept => hkept
  came := fun _ _ refresh hgoing hlive hepoch => ⟨refresh, hgoing, hlive, hepoch⟩
  goes := fun _ _ refresh hgoing hlive hepoch => ⟨refresh, hgoing, hlive, hepoch, fun _ => Iff.rfl⟩
  runs := fun _ submitted hrun hquery => ⟨submitted, hrun, hquery, rfl, fun h => h⟩
  course := fun _ submitted _ hrun _ _ hcourse => ⟨submitted, hrun, rfl, rfl, hcourse⟩

theorem Awaits.keeps (h : s.Awaits id live query) (hkeeps : Keeps s s' id live query)
    (hstarted : live.phase ≠ .stopped) (hbusy : live.phase ≠ .idle) : s'.Awaits id live query := by
  obtain ⟨task, refresh, hgoing, hlive, hepoch, honly, hstage⟩ := h
  obtain ⟨refresh', hgoes, hlive', hepoch', hawaits⟩ :=
    hkeeps.goes hstarted task refresh hgoing hlive hepoch
  refine ⟨task, refresh', hgoes, hlive', hepoch', ?_, ?_⟩
  · intro other refresh'' hgoing'' hlive'' hepoch''
    obtain ⟨old, hold, holdLive, holdEpoch⟩ :=
      hkeeps.came hstarted other refresh'' hgoing'' hlive'' hepoch''
    exact honly other old hold holdLive holdEpoch
  · by_cases hrun : ∃ run, refresh.stage = .awaiting run
    · obtain ⟨run, hrun⟩ := hrun
      rw [hrun] at hstage
      obtain ⟨hrunning, submitted, hsubmitted, hquery, hrequest, hcourse⟩ := hstage
      have hkept := hcourse.mono (hkeeps.kept hstarted · (fun hidle => absurd hidle hbusy))
      obtain ⟨submitted', hsubmitted', hquery', hrequest', hcourse'⟩ :=
        hkeeps.course run submitted hrunning hsubmitted hquery hrequest hkept
      rw [(hawaits run).2 hrun]
      exact ⟨hrunning, submitted', hsubmitted', hquery'.trans hquery,
        hrequest'.trans hrequest, hcourse'⟩
    · have hrun' : ∀ run, refresh'.stage ≠ .awaiting run :=
        fun run hstage' => hrun ⟨run, (hawaits run).1 hstage'⟩
      have hnone : live.running = none := by
        split at hstage
        next run heq => exact absurd ⟨run, heq⟩ hrun
        next => exact hstage
      split
      next run heq => exact absurd heq (hrun' run)
      next => exact hnone

/-- A live query that is neither stopped nor idle awaits its refresh. -/
theorem progress_iff_awaits (hstarted : live.phase ≠ .stopped) (hbusy : live.phase ≠ .idle) :
    s.Progress id live query ↔ s.Awaits id live query := by
  rw [Progress]
  split
  next hphase => exact absurd hphase hstarted
  next hphase => exact absurd hphase hbusy
  next => rfl
  next => rfl

theorem Progress.keeps (h : s.Progress id live query) (hkeeps : Keeps s s' id live query) :
    s'.Progress id live query := by
  by_cases hstopped : live.phase = .stopped
  · rw [Progress, hstopped] at h ⊢
    exact h
  by_cases hidle : live.phase = .idle
  · rw [Progress, hidle] at h ⊢
    obtain ⟨hrunning, hquiet, hshown⟩ := h
    refine ⟨hrunning, ?_, ?_⟩
    · intro task refresh' hgoing' hlive' hepoch'
      obtain ⟨refresh, hgoing, hlive, hepoch⟩ :=
        hkeeps.came hstopped task refresh' hgoing' hlive' hepoch'
      exact hquiet task refresh hgoing hlive hepoch
    · intro herror
      obtain ⟨rows, answer, hrows, hsame, hkept, hlast⟩ := hshown herror
      exact ⟨rows, answer, hrows, hsame, hkeeps.kept hstopped answer (fun _ => hlast) hkept, hlast⟩
  rw [progress_iff_awaits hstopped hidle] at h ⊢
  exact h.keeps hkeeps hstopped hidle

theorem Attends.keeps (h : s.Attends id live query) (hkeeps : Keeps s s' id live query) :
    s'.Attends id live query where
  index := h.index
  disposed := h.disposed
  held := h.held
  token := fun token htoken => Nat.le_trans (h.token token htoken) hkeeps.tokens
  subscribed := by
    intro hstarted
    obtain ⟨token, htoken, hsub⟩ := h.subscribed hstarted
    exact ⟨token, htoken, hkeeps.subscriptions _ hsub htoken⟩
  runs := by
    intro run submitted' hrun' hquery'
    obtain ⟨submitted, hrun, hquery, hrecipient, hopen⟩ := hkeeps.runs run submitted' hrun' hquery'
    obtain ⟨⟨task, htask⟩, hknown⟩ := h.runs run submitted hrun hquery
    exact ⟨⟨task, hrecipient.trans htask⟩, fun hopen' => hknown (hopen hopen')⟩
  progress := h.progress.keeps hkeeps

/-! ## Parts of a move -/

/-- Without a write an answer is kept. -/
theorem Kept.later {answer : Answer} (h : s.Kept id live query answer)
    (hlater : s.db.store.Later s'.db.store) (hpending : s'.pending = s.pending) :
    s'.Kept id live query answer := by
  intro hstale
  obtain ⟨hfresh, hbehind⟩ := h hstale
  refine ⟨hfresh.later hlater, fun hindex hgeneration => ?_⟩
  rw [hlater.generation] at hgeneration
  rw [hpending]
  refine hbehind ?_ hgeneration
  -- An index that is there was there before: the identities of new ones are not known yet.
  obtain ⟨view', hview'⟩ := Option.isSome_iff_exists.1 hindex
  rcases hlater.views live.index.id view' hview' with hnew | ⟨view, hview, -⟩
  · have hknown := hfresh.known
    omega
  · exact Option.isSome_iff_exists.2 ⟨view, hview⟩

/-- The runs of its query and its refreshes stay as they are. -/
theorem Keeps.of_others
    (hruns : ∀ (run : Nat) (submitted : Run), submitted.query = live.query →
      (s'.db.runs[run]? = some submitted ↔ s.db.runs[run]? = some submitted))
    (hgoing : ∀ task refresh, refresh.live = id → (s'.Going task refresh ↔ s.Going task refresh))
    (htokens : s.db.store.tokens ≤ s'.db.store.tokens)
    (hsubscriptions : ∀ sub ∈ s.db.store.subscriptions, live.token = some sub.token →
      sub ∈ s'.db.store.subscriptions)
    (hkept : live.phase ≠ .stopped → ∀ answer,
      (live.phase = .idle → query.lastGeneration = some answer.generation) →
        s.Kept id live query answer → s'.Kept id live query answer) : Keeps s s' id live query where
  tokens := htokens
  subscriptions := hsubscriptions
  kept := hkept
  came := fun _ task refresh hgoing' hlive hepoch =>
    ⟨refresh, (hgoing task refresh hlive).1 hgoing', hlive, hepoch⟩
  goes := fun _ task refresh hgoing' hlive hepoch =>
    ⟨refresh, (hgoing task refresh hlive).2 hgoing', hlive, hepoch, fun _ => Iff.rfl⟩
  runs := fun run submitted hrun hquery =>
    ⟨submitted, (hruns run submitted hquery).1 hrun, hquery, rfl, fun h => h⟩
  course := fun run submitted _ hrun hquery _ hcourse =>
    ⟨submitted, (hruns run submitted hquery).2 hrun, rfl, rfl, hcourse⟩

/-- One run goes on. -/
theorem Keeps.of_run {number : Nat} {run run' : Run} (hrun : s.db.runs[number]? = some run)
    (hruns : ∀ other : Nat, s'.db.runs[other]? =
      if other = number then some run' else s.db.runs[other]?)
    (hquery : run'.query = run.query) (hrequest : run'.request = run.request)
    (hrecipient : run'.recipient = run.recipient) (hopen : run'.control.IsOpen → run.control.IsOpen)
    (hcourse : run.query = live.query → run.request = query.request → live.running = some number →
      run.OnCourse (s'.Kept id live query) query.lastGeneration →
        run'.OnCourse (s'.Kept id live query) query.lastGeneration)
    (hrefreshes : s'.db.refreshes = s.db.refreshes) (htelling : s'.telling = s.telling)
    (hlater : s.db.store.Later s'.db.store) (hpending : s'.pending = s.pending) :
    Keeps s s' id live query where
  tokens := Nat.le_of_eq hlater.tokens.symm
  subscriptions := fun sub hsub _ => hlater.subscriptions ▸ hsub
  kept := fun _ _ _ hkept => hkept.later hlater hpending
  came := by
    rintro - task refresh ⟨htask, hover, htold⟩ hlive hepoch
    exact ⟨refresh, ⟨hrefreshes ▸ htask, hover, htelling ▸ htold⟩, hlive, hepoch⟩
  goes := by
    rintro - task refresh ⟨htask, hover, htold⟩ hlive hepoch
    exact ⟨refresh, ⟨hrefreshes ▸ htask, hover, htelling ▸ htold⟩, hlive, hepoch, fun _ => Iff.rfl⟩
  runs := by
    intro other submitted' hother hquery'
    rw [hruns] at hother
    split at hother
    next heq =>
      cases hother
      exact ⟨run, heq ▸ hrun, hquery.symm.trans hquery', hrecipient, hopen⟩
    next => exact ⟨submitted', hother, hquery', rfl, fun h => h⟩
  course := by
    intro other submitted hrunning hother hquery' hrequest' hsubmitted
    rw [hruns]
    split
    next heq =>
      subst heq
      rw [hrun] at hother
      cases hother
      exact ⟨run', rfl, hquery, hrequest, hcourse hquery' hrequest' hrunning hsubmitted⟩
    next => exact ⟨submitted, hother, rfl, rfl, hsubmitted⟩

/-- One refresh goes on. -/
theorem Keeps.of_refresh {task : Nat} {refresh refresh' : Refresh}
    (htask : s.db.refreshes[task]? = some refresh)
    (hrefreshes : ∀ other : Nat, s'.db.refreshes[other]? =
      if other = task then some refresh' else s.db.refreshes[other]?)
    (hlive : refresh'.live = refresh.live) (hepoch : refresh'.epoch = refresh.epoch)
    (hothers : ∀ other, other ≠ task → (other ∈ s'.telling ↔ other ∈ s.telling))
    (hgoing : live.phase ≠ .stopped → refresh.live = id → refresh.epoch = live.epoch →
      (refresh'.stage ≠ .over ∧ task ∉ s'.telling ↔ refresh.stage ≠ .over ∧ task ∉ s.telling) ∧
        (refresh.stage ≠ .over → task ∉ s.telling →
          ∀ run, refresh'.stage = .awaiting run ↔ refresh.stage = .awaiting run))
    (hruns : s'.db.runs = s.db.runs) (hstore : s'.db.store = s.db.store)
    (hpending : s'.pending = s.pending) : Keeps s s' id live query where
  tokens := Nat.le_of_eq (congrArg Store.tokens hstore.symm)
  subscriptions := fun sub hsub _ => hstore ▸ hsub
  kept := fun _ _ _ hkept => hkept.later (hstore ▸ .refl _) hpending
  came := by
    rintro hstarted other refresh'' ⟨hother, hover, htold⟩ hlive' hepoch'
    rw [hrefreshes] at hother
    split at hother
    next heq =>
      subst heq
      cases hother
      have hsame := (hgoing hstarted (hlive.symm.trans hlive') (hepoch.symm.trans hepoch')).1
      exact ⟨refresh, ⟨htask, hsame.1 ⟨hover, htold⟩⟩, hlive.symm.trans hlive',
        hepoch.symm.trans hepoch'⟩
    next hne =>
      exact ⟨refresh'', ⟨hother, hover, fun h => htold ((hothers other hne).2 h)⟩, hlive', hepoch'⟩
  goes := by
    rintro hstarted other refresh'' ⟨hother, hover, htold⟩ hlive' hepoch'
    by_cases heq : other = task
    · subst heq
      rw [htask] at hother
      cases hother
      obtain ⟨hsame, hawaits⟩ := hgoing hstarted hlive' hepoch'
      refine ⟨refresh', ⟨?_, hsame.2 ⟨hover, htold⟩⟩, hlive.trans hlive', hepoch.trans hepoch',
        hawaits hover htold⟩
      rw [hrefreshes, if_pos rfl]
    · refine ⟨refresh'', ⟨?_, hover, fun h => htold ((hothers other heq).1 h)⟩, hlive', hepoch',
        fun _ => Iff.rfl⟩
      rw [hrefreshes, if_neg heq]
      exact hother
  runs := fun _ submitted hrun hquery => ⟨submitted, hruns ▸ hrun, hquery, rfl, fun h => h⟩
  course := fun _ submitted _ hrun _ _ hcourse => ⟨submitted, hruns ▸ hrun, rfl, rfl, hcourse⟩

/-! ## Moves that no live query takes part in -/

theorem Attended.of_keeps (h : s.Attended) (hsound : s'.db.store.Sound)
    (hlives : s'.db.lives = s.db.lives)
    (hkeeps : ∀ (id : Nat) (live : LiveQuery) (query : Query), s.db.lives[id]? = some live →
      s.db.queries[live.query]? = some query → s.Attends id live query →
        s'.db.queries[live.query]? = some query ∧ Keeps s s' id live query)
    (hrefreshes : ∀ (task : Nat) (refresh' : Refresh), s'.db.refreshes[task]? = some refresh' →
      ∃ refresh : Refresh, s.db.refreshes[task]? = some refresh ∧ refresh'.live = refresh.live ∧
        refresh'.epoch = refresh.epoch)
    (hsubmitted : ∀ (run : Nat) (submitted : Run), s'.db.runs[run]? = some submitted →
      submitted.query < s'.db.queries.length) : s'.Attended where
  sound := hsound
  attends := by
    intro id live hlive
    rw [hlives] at hlive
    obtain ⟨query, hquery, hattends⟩ := h.attends id live hlive
    obtain ⟨hquery', hkept⟩ := hkeeps id live query hlive hquery hattends
    exact ⟨query, hquery', hattends.keeps hkept⟩
  queries := by
    intro id other live live' hlive hlive'
    rw [hlives] at hlive hlive'
    exact h.queries id other live live' hlive hlive'
  tokens := by
    intro id other live live' token hlive hlive'
    rw [hlives] at hlive hlive'
    exact h.tokens id other live live' token hlive hlive'
  epochs := by
    intro task refresh' live htask hlive
    obtain ⟨refresh, hold, hsame, hepoch⟩ := hrefreshes task refresh' htask
    rw [hlives, hsame] at hlive
    rw [hepoch]
    exact h.epochs task refresh live hold hlive
  submitted := hsubmitted

/-! ## Moves of one live query -/

theorem getElem?_modify_live {lives : List LiveQuery} {id other : Nat}
    {change : LiveQuery → LiveQuery} {live' : LiveQuery}
    (h : (lives.modify id change)[other]? = some live') :
    ∃ live, lives[other]? = some live ∧ live' = if other = id then change live else live := by
  rw [List.getElem?_modify] at h
  cases hlive : lives[other]? with
  | none =>
    rw [hlive] at h
    cases h
  | some live =>
    rw [hlive] at h
    refine ⟨live, rfl, ?_⟩
    by_cases hother : other = id
    · subst hother
      simpa using h.symm
    · simpa [hother, Ne.symm hother] using h.symm

/-- What one live query does is nothing to the others. -/
theorem Attended.of_change (h : s.Attended) (hsound : s'.db.store.Sound) {id : Nat}
    {live : LiveQuery} (hlive : s.db.lives[id]? = some live) (change : LiveQuery → LiveQuery)
    (hlives : s'.db.lives = s.db.lives.modify id change) (hsame : (change live).query = live.query)
    (hepoch : live.epoch ≤ (change live).epoch)
    (htoken : ∀ token, (change live).token = some token →
      live.token = some token ∨ s.db.store.tokens < token.number)
    (hattends : ∀ query : Query, s.db.queries[live.query]? = some query → s.Attends id live query →
      ∃ query' : Query, s'.db.queries[live.query]? = some query' ∧
        s'.Attends id (change live) query')
    (hkeeps : ∀ (other : Nat) (live' : LiveQuery) (query : Query), other ≠ id →
      s.db.lives[other]? = some live' → s.db.queries[live'.query]? = some query →
        s.Attends other live' query →
          s'.db.queries[live'.query]? = some query ∧ Keeps s s' other live' query)
    (hrefreshes : ∀ (task : Nat) (refresh' : Refresh), s'.db.refreshes[task]? = some refresh' →
      (∃ refresh : Refresh, s.db.refreshes[task]? = some refresh ∧ refresh'.live = refresh.live ∧
        refresh'.epoch = refresh.epoch) ∨
        (refresh'.live = id ∧ refresh'.epoch ≤ (change live).epoch))
    (hsubmitted : ∀ (run : Nat) (submitted : Run), s'.db.runs[run]? = some submitted →
      submitted.query < s'.db.queries.length) : s'.Attended := by
  -- What every live query was before.
  have hbefore : ∀ {other : Nat} {live' : LiveQuery}, s'.db.lives[other]? = some live' →
      (other = id ∧ live' = change live) ∨ (other ≠ id ∧ s.db.lives[other]? = some live') := by
    intro other live' hlive'
    rw [hlives] at hlive'
    obtain ⟨old, hold, heq⟩ := getElem?_modify_live hlive'
    by_cases hother : other = id
    · subst hother
      rw [hlive] at hold
      cases hold
      exact .inl ⟨rfl, by rw [heq, if_pos rfl]⟩
    · rw [if_neg hother] at heq
      exact .inr ⟨hother, by rw [heq, hold]⟩
  -- No other live query has the new token.
  have hapart : ∀ {other : Nat} {live' : LiveQuery} {token : Token}, other ≠ id →
      s.db.lives[other]? = some live' → live'.token = some token →
        (change live).token ≠ some token := by
    intro other live' token hother hold hhas hnew
    rcases htoken token hnew with hkept | hfresh
    · exact hother (h.tokens other id live' live token hold hlive hhas hkept)
    · obtain ⟨query, -, hattended⟩ := h.attends other live' hold
      have hle := hattended.token token hhas
      omega
  refine ⟨hsound, ?_, ?_, ?_, ?_, hsubmitted⟩
  · intro other live' hlive'
    rcases hbefore hlive' with ⟨rfl, rfl⟩ | ⟨hother, hold⟩
    · obtain ⟨query, hquery, hattended⟩ := h.attends other live hlive
      rw [hsame]
      exact hattends query hquery hattended
    · obtain ⟨query, hquery, hattended⟩ := h.attends other live' hold
      obtain ⟨hquery', hkept⟩ := hkeeps other live' query hother hold hquery hattended
      exact ⟨query, hquery', hattended.keeps hkept⟩
  · intro first second live' live'' hfirst hsecond hquery
    rcases hbefore hfirst with ⟨rfl, rfl⟩ | ⟨-, hold⟩
    · rcases hbefore hsecond with ⟨rfl, -⟩ | ⟨-, hold'⟩
      · rfl
      · exact h.queries first second live live'' hlive hold' (hsame ▸ hquery)
    · rcases hbefore hsecond with ⟨rfl, rfl⟩ | ⟨-, hold'⟩
      · exact h.queries first second live' live hold hlive (hsame ▸ hquery)
      · exact h.queries first second live' live'' hold hold' hquery
  · intro first second live' live'' token hfirst hsecond hhas hhas'
    rcases hbefore hfirst with ⟨rfl, rfl⟩ | ⟨hother, hold⟩
    · rcases hbefore hsecond with ⟨rfl, -⟩ | ⟨hother', hold'⟩
      · rfl
      · exact absurd hhas (hapart hother' hold' hhas')
    · rcases hbefore hsecond with ⟨rfl, rfl⟩ | ⟨-, hold'⟩
      · exact absurd hhas' (hapart hother hold hhas)
      · exact h.tokens first second live' live'' token hold hold' hhas hhas'
  · intro task refresh' live' htask hlive'
    rcases hrefreshes task refresh' htask with ⟨refresh, hold, hfor, hsameEpoch⟩ | ⟨rfl, hle⟩
    · rw [hsameEpoch]
      rcases hbefore hlive' with ⟨heq, rfl⟩ | ⟨-, hold'⟩
      · exact Nat.le_trans (h.epochs task refresh live hold (hfor ▸ heq ▸ hlive)) hepoch
      · exact h.epochs task refresh live' hold (hfor ▸ hold')
    · rcases hbefore hlive' with ⟨-, rfl⟩ | ⟨hne, -⟩
      · exact hle
      · exact absurd rfl hne

end Stance

end Viewbase
