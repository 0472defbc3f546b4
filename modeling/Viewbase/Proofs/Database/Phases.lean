import Viewbase.Proofs.Database.Attendance

/-!
Moves of one live query leave it and all others what they rely on.

A live query is made, started, told of a change, stopped and given up.
-/

namespace Viewbase.Stance

variable {σ : Type} {s s' : Stance σ} {id : Nat} {live : LiveQuery} {query : Query}

/-! ## Live queries -/

/-- A live query changes, and nothing else. -/
theorem Attended.updateLive (h : s.Attended) (id : Nat) (change : LiveQuery → LiveQuery)
    (hchange : ∀ live : LiveQuery, s.db.lives[id]? = some live →
      (change live).query = live.query ∧ live.epoch ≤ (change live).epoch ∧
        (change live).token = live.token)
    (hattends : ∀ (live : LiveQuery) (query : Query), s.db.lives[id]? = some live →
      s.Attends id live query → s.Attends id (change live) query) :
    Attended { s with db := s.db.updateLive id change } := by
  cases hlive : s.db.lives[id]? with
  | none =>
    have hlives : s.db.lives.modify id change = s.db.lives :=
      List.modify_eq_self (List.getElem?_eq_none_iff.1 hlive)
    exact h.of_eq rfl rfl rfl hlives rfl rfl rfl
  | some live =>
    obtain ⟨hquery, hepoch, htoken⟩ := hchange live hlive
    refine h.of_change h.sound hlive change rfl hquery hepoch
      (fun token hsome => .inl (htoken ▸ hsome)) ?_ ?_ ?_ h.submitted
    · intro query hquery' hold
      refine ⟨query, hquery', ?_⟩
      exact (hattends live query hlive hold).keeps { Keeps.refl s id (change live) query with }
    · intro other live' query _ _ hquery' _
      exact ⟨hquery', { Keeps.refl s other live' query with }⟩
    · intro task refresh htask
      exact .inl ⟨refresh, htask, rfl, rfl⟩

theorem Attended.listen (h : s.Attended) (id : Nat) (change : LiveQuery → List Nat) :
    Attended
      { s with db := s.db.updateLive id fun live => { live with listeners := change live } } := by
  refine h.updateLive id _ (fun live _ => ⟨rfl, Nat.le_refl _, rfl⟩) fun live query _ hold => ?_
  exact ⟨hold.index, hold.disposed, hold.held, hold.token, hold.subscribed, hold.runs,
    hold.progress⟩

theorem Attended.dispose (h : s.Attended) (id : Nat) :
    Attended { s with db := s.db.updateLive id fun live => { live with disposed := true } } := by
  refine h.updateLive id _ (fun live _ => ⟨rfl, Nat.le_refl _, rfl⟩) fun live query _ hold => ?_
  refine ⟨hold.index, ?_, hold.held, hold.token, hold.subscribed, hold.runs, hold.progress⟩
  intro hdisposed
  exact ⟨(hold.disposed hdisposed).1, .inl rfl⟩

theorem Attended.letGo (h : s.Attended) {id : Nat}
    (hstopped : ∀ live, s.db.lives[id]? = some live → live.phase = .stopped) :
    Attended { s with db := s.db.updateLive id fun live => { live with held := false } } := by
  refine h.updateLive id _ (fun live _ => ⟨rfl, Nat.le_refl _, rfl⟩) fun live query hlive hold => ?_
  refine ⟨hold.index, ?_, fun _ => hstopped live hlive, hold.token, hold.subscribed, hold.runs,
    hold.progress⟩
  intro hdisposed
  exact ⟨(hold.disposed hdisposed).1, .inr rfl⟩

theorem Attended.startInVain (h : s.Attended) {id : Nat} {live : LiveQuery}
    (hlive : s.db.lives[id]? = some live) (hstopped : live.phase = .stopped) :
    Attended
      { s with db := s.db.updateLive id fun other => { other with epoch := live.epoch + 1 } } := by
  refine h.updateLive id _ (fun other hother => ⟨rfl, ?_, rfl⟩) fun other query hother hold => ?_
  · rw [hlive] at hother
    cases hother
    exact Nat.le_succ _
  · rw [hlive] at hother
    cases hother
    refine ⟨hold.index, hold.disposed, hold.held, hold.token,
      fun hstarted => absurd hstopped hstarted, hold.runs, ?_⟩
    have hprogress := hold.progress
    rw [Progress, hstopped] at hprogress
    rw [Progress, hstopped]
    exact hprogress

/-- A live query that runs no more gives its query up. -/
theorem Attended.giveUp (h : s.Attended) {id : Nat} {live : LiveQuery}
    (hlive : s.db.lives[id]? = some live)
    (hfree : live.held = false ∨ (live.disposed ∧ live.phase = .stopped)) :
    Attended { s with db := s.db.markDisposed live.query } := by
  have hchanged := getElem?_updateQuery s.db live.query
    (fun q => { q with temporary := none, disposed := true })
  refine h.of_change h.sound hlive (fun live => live) (List.modify_id id s.db.lives).symm rfl
    (Nat.le_refl _) (fun _ htoken => .inl htoken) ?_ ?_ ?_ ?_
  · intro query hquery hold
    refine ⟨{ query with temporary := none, disposed := true }, ?_, ?_⟩
    · refine (hchanged live.query).trans ?_
      rw [if_pos rfl, hquery]
      rfl
    · have hstopped : live.phase = .stopped := by
        rcases hfree with hheld | ⟨-, hstopped⟩
        · exact hold.held hheld
        · exact hstopped
      refine ⟨hold.index, fun _ => ⟨hstopped, ?_⟩, hold.held, hold.token, hold.subscribed,
        hold.runs, ?_⟩
      · rcases hfree with hheld | ⟨hdisposed, -⟩
        · exact .inr hheld
        · exact .inl hdisposed
      · have hprogress := hold.progress
        rw [Progress, hstopped] at hprogress ⊢
        exact hprogress
  · intro other live' query hother hlive' hquery _
    refine ⟨?_, .of_queries ..⟩
    have hne : live'.query ≠ live.query :=
      fun heq => hother (h.queries other id live' live hlive' hlive heq)
    refine (hchanged live'.query).trans ?_
    rw [if_neg hne]
    exact hquery
  · intro task refresh htask
    exact .inl ⟨refresh, htask, rfl, rfl⟩
  · intro run submitted hrun
    show submitted.query < (s.db.queries.modify live.query _).length
    rw [List.length_modify]
    exact h.submitted run submitted hrun

/-- A new live query has not been started. -/
theorem Attended.makeLive (h : s.Attended) (hplaced : s.Placed) {index : Descriptor} {query : Query}
    (hindex : query.index = some index) (hdisposed : query.disposed = false) :
    Attended
      { s with db := { s.db with
          queries := s.db.queries ++ [query]
          lives := s.db.lives ++ [LiveQuery.new index s.db.queries.length] } } := by
  -- A live query is one that there was, or the new one.
  have hcases : ∀ {id : Nat} {live : LiveQuery},
      (s.db.lives ++ [LiveQuery.new index s.db.queries.length])[id]? = some live →
        s.db.lives[id]? = some live ∨
          (id = s.db.lives.length ∧ live = LiveQuery.new index s.db.queries.length) := by
    intro id live hlive
    rw [Database.getElem?_push] at hlive
    split at hlive
    next hid => exact .inr ⟨hid, (Option.some.inj hlive).symm⟩
    next => exact .inl hlive
  have hbound : ∀ {id : Nat} {live : LiveQuery}, s.db.lives[id]? = some live →
      live.query < s.db.queries.length := by
    intro id live hlive
    obtain ⟨query, hquery, -⟩ := h.attends id live hlive
    exact (List.getElem?_eq_some_iff.1 hquery).1
  have hkept : ∀ {id : Nat} {old : Query}, s.db.queries[id]? = some old →
      (s.db.queries ++ [query])[id]? = some old := by
    intro id old hold
    rw [List.getElem?_append_left (List.getElem?_eq_some_iff.1 hold).1]
    exact hold
  refine ⟨h.sound, ?_, ?_, ?_, ?_, ?_⟩
  · intro id live hlive
    rcases hcases hlive with hlive | ⟨rfl, rfl⟩
    · obtain ⟨old, hold, hattends⟩ := h.attends id live hlive
      exact ⟨old, hkept hold, hattends.keeps { Keeps.refl s id live old with }⟩
    · refine ⟨query, List.getElem?_concat_length, hindex, ?_, fun _ => rfl, by simp [LiveQuery.new],
        ?_, ?_, rfl⟩
      · rw [hdisposed]
        simp
      · intro hstarted
        exact absurd rfl hstarted
      · intro run submitted hrun hquery
        have hsubmitted := h.submitted run submitted hrun
        rw [hquery] at hsubmitted
        exact absurd hsubmitted (Nat.lt_irrefl _)
  · intro id other live live' hlive hlive' hquery
    rcases hcases hlive with hold | ⟨rfl, rfl⟩
    · rcases hcases hlive' with hold' | ⟨rfl, rfl⟩
      · exact h.queries id other live live' hold hold' hquery
      · exact absurd hquery (Nat.ne_of_lt (hbound hold))
    · rcases hcases hlive' with hold' | ⟨rfl, -⟩
      · exact absurd hquery.symm (Nat.ne_of_lt (hbound hold'))
      · rfl
  · intro id other live live' token hlive hlive' htoken htoken'
    rcases hcases hlive with hold | ⟨rfl, rfl⟩
    · rcases hcases hlive' with hold' | ⟨rfl, rfl⟩
      · exact h.tokens id other live live' token hold hold' htoken htoken'
      · cases htoken'
    · cases htoken
  · intro task refresh live htask hlive
    rcases hcases hlive with hold | ⟨heq, -⟩
    · exact h.epochs task refresh live htask hold
    · have hattached := hplaced.attached task refresh htask
      omega
  · intro run submitted hrun
    have hold := h.submitted run submitted hrun
    show submitted.query < (s.db.queries ++ [query]).length
    rw [List.length_append]
    omega

/-! ## New refreshes -/

/-- From `s` to `s'` a refresh was launched, and no other went on. -/
structure Launches (s s' : Stance σ) (id epoch : Nat) : Prop where
  refreshes : ∃ delay, s'.db.refreshes = s.db.refreshes ++ [⟨id, epoch, .launched delay⟩]
  telling : s'.telling = s.telling

variable {epoch : Nat}

/-- What goes on after a launch went on before, or is the new refresh. -/
theorem Launches.going_iff (hlaunches : Launches s s' id epoch) (hplaced : s.Placed) :
    ∃ delay, ∀ task refresh, s'.Going task refresh ↔ s.Going task refresh ∨
      (task = s.db.refreshes.length ∧ refresh = ⟨id, epoch, .launched delay⟩) := by
  obtain ⟨⟨delay, hrefreshes⟩, htelling⟩ := hlaunches
  refine ⟨delay, fun task refresh => ?_⟩
  have hlaunched := getElem?_launch s.db id epoch delay task
  rw [Going, Going, hrefreshes, htelling]
  have hnew : (s.db.refreshes ++ [⟨id, epoch, .launched delay⟩])[task]? = _ := hlaunched
  rw [hnew]
  by_cases htask : task = s.db.refreshes.length
  · subst htask
    have hquiet : s.db.refreshes.length ∉ s.telling := by
      intro htold
      obtain ⟨run, submitted, hstage, -, -⟩ := hplaced.telling _ htold
      rw [List.getElem?_eq_none (Nat.le_refl _)] at hstage
      cases hstage
    rw [if_pos rfl, List.getElem?_eq_none (Nat.le_refl _)]
    constructor
    · rintro ⟨heq, -, -⟩
      exact .inr ⟨rfl, (Option.some.inj heq).symm⟩
    · rintro (⟨hnone, -⟩ | ⟨-, rfl⟩)
      · cases hnone
      · refine ⟨rfl, ?_, hquiet⟩
        simp
  · rw [if_neg htask]
    simp [htask]

/-- When nothing of the epoch went on, the new refresh is the only one that does. -/
theorem Launches.awaits (hlaunches : Launches s s' id epoch) (hplaced : s.Placed)
    (hepoch : live.epoch = epoch) (hrunning : live.running = none)
    (hquiet : ∀ task refresh, s.Going task refresh → refresh.live = id → refresh.epoch ≠ epoch) :
    s'.Awaits id live query := by
  obtain ⟨delay, hgoing⟩ := hlaunches.going_iff hplaced
  refine ⟨s.db.refreshes.length, ⟨id, epoch, .launched delay⟩, ?_, rfl, hepoch.symm, ?_, hrunning⟩
  · exact (hgoing _ _).2 (.inr ⟨rfl, rfl⟩)
  · intro other refresh' hother hlive hsame
    rcases (hgoing other refresh').1 hother with hold | ⟨heq, -⟩
    · exact absurd (hsame.trans hepoch) (hquiet other refresh' hold hlive)
    · exact heq

/-- The refreshes of other live queries go on as before. -/
theorem Launches.going_of_ne (hlaunches : Launches s s' id epoch) (hplaced : s.Placed) {other : Nat}
    (hother : other ≠ id) (task : Nat) (refresh : Refresh) (hlive : refresh.live = other) :
    s'.Going task refresh ↔ s.Going task refresh := by
  obtain ⟨delay, hgoing⟩ := hlaunches.going_iff hplaced
  rw [hgoing]
  constructor
  · rintro (hold | ⟨-, rfl⟩)
    · exact hold
    · exact absurd hlive.symm hother
  · exact .inl

theorem Launches.of_getElem? (hlaunches : Launches s s' id epoch) (task : Nat) (refresh' : Refresh)
    (htask : s'.db.refreshes[task]? = some refresh') :
    (∃ refresh : Refresh, s.db.refreshes[task]? = some refresh ∧ refresh'.live = refresh.live ∧
      refresh'.epoch = refresh.epoch) ∨ (refresh'.live = id ∧ refresh'.epoch = epoch) := by
  obtain ⟨⟨delay, hrefreshes⟩, -⟩ := hlaunches
  rw [hrefreshes] at htask
  have hnew := (getElem?_launch s.db id epoch delay task).symm.trans htask
  split at hnew
  · cases hnew
    exact .inr ⟨rfl, rfl⟩
  · exact .inl ⟨refresh', hnew, rfl, rfl⟩

theorem Attended.startLive (h : s.Attended) (hplaced : s.Placed) {id : Nat} {live : LiveQuery}
    {token : Token} {store : Store} (hlive : s.db.lives[id]? = some live) (hheld : live.held)
    (hdisposed : live.disposed = false) (hstopped : live.phase = .stopped)
    (hsubscribe : s.db.store.subscribe live.index (.live id (live.epoch + 1)) =
      .ok (token, store)) :
    Attended
      { s with db := (({ s.db with store := store }).updateLive id fun other =>
          { other with
            epoch := live.epoch + 1
            token := some token
            phase := .awaitingInitial false }).launch id (live.epoch + 1) 0 } := by
  obtain ⟨-, rfl, rfl⟩ := Store.subscribe_eq_ok hsubscribe
  refine h.of_change (h.sound.of_subscriptions _ _) hlive _ rfl rfl (Nat.le_succ _) ?_ ?_ ?_ ?_
    h.submitted
  · rintro new ⟨⟩
    exact .inr (Nat.lt_succ_self _)
  · intro query hquery hold
    refine ⟨query, hquery, hold.index, ?_, ?_, ?_, ?_, ?_, ?_⟩
    · intro hgone
      rcases (hold.disposed hgone).2 with hdone | hfree
      · rw [hdisposed] at hdone
        cases hdone
      · rw [hheld] at hfree
        cases hfree
    · intro hfree
      have hkept : live.held = false := hfree
      rw [hheld] at hkept
      cases hkept
    · rintro new ⟨⟩
      exact Nat.le_refl _
    · intro _
      exact ⟨_, rfl, List.mem_append_right _ List.mem_cons_self⟩
    · exact hold.runs
    · refine Launches.awaits (by exact ⟨⟨0, rfl⟩, rfl⟩) hplaced rfl ?_ ?_
      · have hprogress := hold.progress
        rw [Progress, hstopped] at hprogress
        exact hprogress
      · intro task refresh hgoing hfor hepoch
        have hle := h.epochs task refresh live hgoing.1 (hfor ▸ hlive)
        rw [hepoch] at hle
        exact Nat.not_succ_le_self live.epoch hle
  · intro other live' query hother _ hquery _
    refine ⟨hquery, .of_others (fun _ _ _ => .rfl) ?_ (Nat.le_succ _) ?_ ?_⟩
    · exact Launches.going_of_ne (by exact ⟨⟨0, rfl⟩, rfl⟩) hplaced hother
    · intro sub hsub _
      exact List.mem_append_left _ hsub
    · intro _ answer _ hkept
      exact hkept.subscriptions _ _
  · intro task refresh' htask
    rcases Launches.of_getElem? (s := s) (by exact ⟨⟨0, rfl⟩, rfl⟩) task refresh' htask with
      hold | ⟨hfor, hepoch⟩
    · exact .inl hold
    · exact .inr ⟨hfor, Nat.le_of_eq hepoch⟩

/-- A change that finds the live query idle launches a refresh. -/
theorem Attended.launch (h : s.Attended) (hplaced : s.Placed)
    {earlier later : List (Observer × Change)} {id : Nat} {live : LiveQuery} {change : Change}
    (hpending : s.pending = earlier ++ (.live id live.epoch, change) :: later)
    (hlive : s.db.lives[id]? = some live)
    (hreact : LiveQuery.react live.phase (s.db.lastGeneration live.query) change.generation =
      .launch)
    (delay : Nat) :
    Attended
      { s with
        db := (s.db.updateLive id fun live => { live with phase := .requerying false }).launch id
          live.epoch delay
        pending := earlier ++ later } := by
  have hidle := LiveQuery.idle_of_launch hreact
  refine h.of_change h.sound hlive _ rfl rfl (Nat.le_refl _) (fun _ htoken => .inl htoken) ?_ ?_ ?_
    h.submitted
  · intro query hquery hold
    have hprogress := hold.progress
    rw [Progress, hidle] at hprogress
    obtain ⟨hrunning, hquiet, -⟩ := hprogress
    have hstarted : live.phase ≠ .stopped := by
      rw [hidle]
      simp
    refine ⟨query, hquery, hold.index, ?_, ?_, hold.token, fun _ => hold.subscribed hstarted,
      hold.runs, ?_⟩
    · exact fun hdisposed => absurd (hold.disposed hdisposed).1 hstarted
    · exact fun hheld => absurd (hold.held hheld) hstarted
    · exact Launches.awaits (by exact ⟨⟨delay, rfl⟩, rfl⟩) hplaced rfl hrunning hquiet
  · intro other live' query hother _ hquery _
    refine ⟨hquery, .of_others (fun _ _ _ => .rfl) ?_ (Nat.le_refl _) (fun _ hsub _ => hsub) ?_⟩
    · exact Launches.going_of_ne (by exact ⟨⟨delay, rfl⟩, rfl⟩) hplaced hother
    · intro _ answer _ hkept
      refine hkept.told hpending rfl rfl fun hobserver => ?_
      exact absurd (Observer.live.inj hobserver).1.symm hother
  · intro task refresh' htask
    rcases Launches.of_getElem? (s := s) (by exact ⟨⟨delay, rfl⟩, rfl⟩) task refresh' htask with
      hold | ⟨hfor, hepoch⟩
    · exact .inl hold
    · exact .inr ⟨hfor, Nat.le_of_eq hepoch⟩

/-- A change that comes while a run is due or under way is remembered. -/
theorem Attended.remember (h : s.Attended) {earlier later : List (Observer × Change)} {id : Nat}
    {live : LiveQuery} {change : Change}
    (hpending : s.pending = earlier ++ (.live id live.epoch, change) :: later)
    (hlive : s.db.lives[id]? = some live)
    (hreact : LiveQuery.react live.phase (s.db.lastGeneration live.query) change.generation =
      .remember) :
    Attended
      { s with
        db := s.db.updateLive id fun live =>
          { live with phase := LiveQuery.remembering live.phase }
        pending := earlier ++ later } := by
  obtain ⟨hstarted, hbusy, hagain⟩ := LiveQuery.of_remember hreact
  refine h.of_change h.sound hlive _ rfl rfl (Nat.le_refl _) (fun _ htoken => .inl htoken) ?_ ?_ ?_
    h.submitted
  · intro query hquery hold
    have hawaits := (progress_iff_awaits hstarted hbusy).1 hold.progress
    refine ⟨query, hquery, hold.index, ?_, ?_, hold.token, fun _ => hold.subscribed hstarted,
      hold.runs, ?_⟩
    · exact fun hdisposed => absurd (hold.disposed hdisposed).1 hstarted
    · exact fun hheld => absurd (hold.held hheld) hstarted
    · -- Whatever the run answers, another follows.
      obtain ⟨hstarted', hbusy'⟩ := LiveQuery.busy_of_wantsAgain hagain
      refine (progress_iff_awaits hstarted' hbusy').2 ?_
      obtain ⟨task, refresh, hgoing, hfor, hepoch, honly, hstage⟩ := hawaits
      refine ⟨task, refresh, hgoing, hfor, hepoch, honly, ?_⟩
      split at hstage
      next run heq =>
        obtain ⟨hrunning, submitted, hsubmitted, hfor', hrequest, hcourse⟩ := hstage
        refine ⟨hrunning, submitted, hsubmitted, hfor', hrequest, hcourse.mono ?_⟩
        intro answer hkept hstale
        exact ⟨(hkept hstale).1, fun _ _ => .inl hagain⟩
      next => exact hstage
  · intro other live' query hother _ hquery _
    refine ⟨hquery, .of_others (fun _ _ _ => .rfl) (fun _ _ _ => .rfl) (Nat.le_refl _)
      (fun _ hsub _ => hsub) ?_⟩
    intro _ answer _ hkept
    refine hkept.told hpending rfl rfl fun hobserver => ?_
    exact absurd (Observer.live.inj hobserver).1.symm hother
  · intro task refresh htask
    exact .inl ⟨refresh, htask, rfl, rfl⟩

/-! ## The end of an epoch -/

theorem cancelRunning_eq (running : Option Nat) (db : Database σ) :
    db.cancelRunning running = { db with runs := (db.cancelRunning running).runs } := by
  cases running with
  | none => rfl
  | some run =>
    simp only [Database.cancelRunning, Database.cancel]
    split <;> rfl

theorem getElem?_cancelRunning (running : Option Nat) (db : Database σ) (number : Nat) :
    (db.cancelRunning running).runs[number]? =
      if running = some number then
        db.runs[number]?.map fun run => { run with control := run.control.cancel.1 }
      else db.runs[number]? := by
  cases running with
  | none => rfl
  | some run =>
    simp only [Database.cancelRunning, Database.cancel]
    cases hrun : db.runs[run]? with
    | none =>
      by_cases heq : run = number
      · subst heq
        simp [hrun]
      · simp [heq]
    | some submitted =>
      show (db.updateRun run _).runs[number]? = _
      rw [getElem?_updateRun hrun]
      by_cases heq : number = run
      · subst heq
        simp [hrun]
      · simp [heq, Ne.symm heq]

/-- The run that a live query knows is of its query. -/
theorem Attends.of_running (h : s.Attends id live query) {number : Nat}
    (hrunning : live.running = some number) :
    ∃ run : Run, s.db.runs[number]? = some run ∧ run.query = live.query := by
  obtain ⟨hstarted, hbusy⟩ := h.busy_of_running hrunning
  obtain ⟨task, refresh, -, -, -, -, hstage⟩ := (progress_iff_awaits hstarted hbusy).1 h.progress
  split at hstage
  · obtain ⟨hknown, run, hrun, hquery, -⟩ := hstage
    rw [hrunning] at hknown
    cases hknown
    exact ⟨run, hrun, hquery⟩
  · rw [hrunning] at hstage
    cases hstage

theorem Attended.stop (h : s.Attended) {id : Nat} {live : LiveQuery}
    (hlive : s.db.lives[id]? = some live) (hrunning : live.phase ≠ .stopped) :
    Attended
      { s with db := ((s.db.updateLive id fun other =>
          { other with
            epoch := other.epoch + 1
            phase := .stopped
            running := none
            token := none }).cancelRunning live.running).endSubscription live.token } := by
  obtain ⟨query, hquery, hattends⟩ := h.attends id live hlive
  obtain ⟨token, htoken, -⟩ := hattends.subscribed hrunning
  have hruns := getElem?_cancelRunning live.running (s.db.updateLive id fun other =>
    { other with epoch := other.epoch + 1, phase := .stopped, running := none, token := none })
  rw [htoken, cancelRunning_eq]
  refine h.of_change (h.sound.of_subscriptions _ _) hlive _ rfl rfl (Nat.le_succ _) (by simp) ?_ ?_
    ?_ ?_
  · intro query hquery hold
    refine ⟨query, hquery, hold.index, ?_, fun _ => rfl, by simp,
      fun hstarted => absurd rfl hstarted, ?_, rfl⟩
    · intro hdisposed
      exact ⟨rfl, (hold.disposed hdisposed).2⟩
    · -- The run that could still come to an answer was cancelled.
      intro number submitted' hsubmitted' hfor
      have hcancelled := (hruns number).symm.trans hsubmitted'
      split at hcancelled
      next hknown =>
        obtain ⟨submitted, hsubmitted, rfl⟩ := Option.map_eq_some_iff.1 hcancelled
        refine ⟨(hold.runs number submitted hsubmitted hfor).1, fun hopen => ?_⟩
        exact absurd hopen (not_isOpen_cancel submitted.control)
      next hunknown =>
        obtain ⟨hrecipient, hopen⟩ := hold.runs number submitted' hcancelled hfor
        exact ⟨hrecipient, fun hisOpen => absurd (hopen hisOpen) hunknown⟩
  · intro other live' query' hother hlive' hquery' _
    refine ⟨hquery', .of_others ?_ (fun _ _ _ => .rfl) (Nat.le_refl _) ?_ ?_⟩
    · intro number submitted hfor
      refine (iff_of_eq (congrArg (· = some submitted) (hruns number))).trans ?_
      split
      next hknown =>
        -- The run that was cancelled is of another query.
        obtain ⟨run, hrun, hfor'⟩ := hattends.of_running hknown
        have hne : live'.query ≠ live.query := fun heq =>
          hother (h.queries other id live' live hlive' hlive heq)
        have hnot : ∀ {submitted' : Run},
            submitted'.query = run.query → submitted' ≠ submitted := by
          rintro submitted' hsame rfl
          exact hne (hfor.symm.trans (hsame.trans hfor'))
        have hold : (s.db.updateLive id fun other =>
            { other with epoch := other.epoch + 1, phase := .stopped, running := none, token := none
              }).runs[number]? = some run := hrun
        rw [hold, hrun, Option.map_some]
        refine iff_of_false (fun heq => hnot ?_ (Option.some.inj heq))
          (fun heq => hnot rfl (Option.some.inj heq))
        rfl
      next => rfl
    · intro sub hsub htoken'
      refine List.mem_filter.2 ⟨hsub, ?_⟩
      have hne : sub.token ≠ token := fun heq =>
        hother (h.tokens other id live' live token hlive' hlive (heq ▸ htoken') htoken)
      simpa using hne
    · intro _ answer _ hkept
      exact hkept.subscriptions _ _
  · intro task refresh htask
    exact .inl ⟨refresh, htask, rfl, rfl⟩
  · intro number submitted hsubmitted
    have hcancelled := (hruns number).symm.trans hsubmitted
    split at hcancelled
    · obtain ⟨old, hold, rfl⟩ := Option.map_eq_some_iff.1 hcancelled
      exact h.submitted number old hold
    · exact h.submitted number submitted hcancelled

end Viewbase.Stance
