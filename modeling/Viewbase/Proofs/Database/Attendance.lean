import Viewbase.Proofs.Database.Attention

/-!
Moves of the store, of runs and of refreshes leave all live queries what they rely on.
-/

namespace Viewbase

namespace LiveQuery

variable {phase : Phase} {last : Option Nat} {generation : Nat}

/-- A live query that is idle ignores a change or runs again at once. -/
theorem react_idle (last : Option Nat) (generation : Nat) :
    react .idle last generation = .ignore ∨ react .idle last generation = .launch := by
  cases last with
  | none => exact .inr rfl
  | some seen =>
    rw [react]
    split
    · exact .inl rfl
    · exact .inr rfl

theorem of_ignore (h : react phase last generation = .ignore) :
    phase = .stopped ∨ (phase = .idle ∧ ∃ seen, last = some seen ∧ generation ≤ seen) := by
  cases phase with
  | stopped => exact .inl rfl
  | idle =>
    cases last with
    | none => cases h
    | some seen =>
      rw [react] at h
      split at h
      next hseen => exact .inr ⟨rfl, seen, rfl, hseen⟩
      next => cases h
  | awaitingInitial again => cases again <;> cases h
  | requerying again => cases again <;> cases h

theorem idle_of_launch (h : react phase last generation = .launch) : phase = .idle := by
  cases phase with
  | stopped => cases h
  | idle => rfl
  | awaitingInitial again => cases again <;> cases h
  | requerying again => cases again <;> cases h

theorem wantsAgain_of_coalesce (h : react phase last generation = .coalesce) :
    wantsAgain phase := by
  cases phase with
  | stopped => cases h
  | idle => rcases react_idle last generation with heq | heq <;> rw [heq] at h <;> cases h
  | awaitingInitial again => cases again <;> first | rfl | cases h
  | requerying again => cases again <;> first | rfl | cases h

theorem busy_of_wantsAgain (h : wantsAgain phase) : phase ≠ .stopped ∧ phase ≠ .idle := by
  cases phase with
  | stopped => cases h
  | idle => cases h
  | awaitingInitial again => simp
  | requerying again => simp

/-- A change is remembered by a live query that is busy, and then it wants to run again. -/
theorem of_remember (h : react phase last generation = .remember) :
    phase ≠ .stopped ∧ phase ≠ .idle ∧ wantsAgain (remembering phase) := by
  cases phase with
  | stopped => cases h
  | idle => rcases react_idle last generation with heq | heq <;> rw [heq] at h <;> cases h
  | awaitingInitial again => exact ⟨by simp, by simp, rfl⟩
  | requerying again => exact ⟨by simp, by simp, rfl⟩

/-- A change is remembered only by a live query that was not to run again. -/
theorem wantsAgain_of_remember (h : react phase last generation = .remember) :
    wantsAgain phase = false := by
  cases hagain : wantsAgain phase with
  | false => rfl
  | true =>
    cases phase with
    | awaitingInitial again | requerying again =>
      rw [react, show again = true from hagain] at h
      cases h
    | stopped | idle => cases hagain

theorem isCurrent_iff {live : LiveQuery} {epoch : Nat} :
    live.isCurrent epoch = true ↔ live.epoch = epoch ∧ live.phase ≠ .stopped := by
  simp [isCurrent, isRunning]

theorem isCurrent_of_stopped {live : LiveQuery} (h : live.phase = .stopped) (epoch : Nat) :
    live.isCurrent epoch = false :=
  Bool.eq_false_iff.2 fun hcurrent => (isCurrent_iff.1 hcurrent).2 h

end LiveQuery

namespace Stance

variable {σ : Type} {s s' : Stance σ} {id : Nat} {live : LiveQuery} {query : Query}

/-! ## The store -/

theorem Attended.beside (h : s.Attended) {db : Database σ} (hbeside : s.db.Beside db) :
    Attended { s with db := db } := by
  refine h.of_keeps (hbeside.store.sound h.sound) hbeside.lives ?_ ?_ ?_
  · intro id live query hlive hquery _
    refine ⟨hbeside.queries live (List.mem_of_getElem? hlive) query hquery, ?_⟩
    refine .of_others ?_ ?_ ?_ ?_ ?_
    · intro run submitted _
      rw [← hbeside.runs]
    · intro task refresh _
      rw [Going, Going, ← hbeside.refreshes]
    · exact Nat.le_of_eq hbeside.store.tokens.symm
    · intro sub hsub _
      exact hbeside.store.subscriptions ▸ hsub
    · intro _ answer _ hkept
      exact hkept.later hbeside.store rfl
  · intro task refresh htask
    exact ⟨refresh, hbeside.refreshes ▸ htask, rfl, rfl⟩
  · intro run submitted hrun
    exact Nat.lt_of_lt_of_le (h.submitted run submitted (hbeside.runs ▸ hrun)) hbeside.length

/-- Subscriptions matter to no answer. -/
theorem Kept.subscriptions {answer : Answer} (h : s.Kept id live query answer)
    (subscriptions : List Subscription) (tokens : Nat) :
    Kept
      { s with db := { s.db with
          store := { s.db.store with subscriptions := subscriptions, tokens := tokens } } }
      id live query answer := by
  intro hstale
  obtain ⟨hfresh, hbehind⟩ := h hstale
  exact ⟨⟨hfresh.known, hfresh.reached, hfresh.anew⟩, hbehind⟩

theorem Attended.subscriptions (h : s.Attended) {subscriptions : List Subscription} {tokens : Nat}
    (htokens : s.db.store.tokens ≤ tokens)
    (hkept : ∀ live ∈ s.db.lives, ∀ sub ∈ s.db.store.subscriptions,
      live.token = some sub.token → sub ∈ subscriptions) :
    Attended
      { s with db := { s.db with
          store := { s.db.store with subscriptions := subscriptions, tokens := tokens } } } := by
  refine h.of_keeps (h.sound.of_subscriptions subscriptions tokens) rfl ?_ ?_ h.submitted
  · intro id live query hlive hquery _
    refine ⟨hquery, .of_others (fun _ _ _ => .rfl) (fun _ _ _ => .rfl) htokens
      (hkept live (List.mem_of_getElem? hlive)) ?_⟩
    intro _ answer _ hanswer
    exact hanswer.subscriptions subscriptions tokens
  · intro task refresh htask
    exact ⟨refresh, htask, rfl, rfl⟩

theorem Attended.write (h : s.Attended) {command : Command} {docId : String} {edit : Store.Edit}
    {store : Store} {doc : Document} (hedit : command.edit? = some (docId, edit))
    (hwrite : s.db.store.write docId edit = .ok (store, doc)) :
    Attended
      { s with
        db := { s.db with store := store }
        pending := s.pending ++ store.audience.map fun observer =>
          (observer, ⟨store.generation, [docId]⟩) } := by
  obtain ⟨-, -, hsubscriptions, htokens⟩ := Store.views_write hwrite
  have hkeepsId : Store.KeepsId docId edit := Store.keepsId_of_edit? hedit
  refine h.of_keeps (h.sound.write hkeepsId hwrite) rfl ?_ ?_ h.submitted
  · intro id live query hlive hquery hattends
    refine ⟨hquery, .of_others (fun _ _ _ => .rfl) (fun _ _ _ => .rfl)
      (Nat.le_of_eq htokens.symm) ?_ ?_⟩
    · intro sub hsub _
      exact hsubscriptions ▸ hsub
    · intro hstarted answer _ hanswer hstale
      obtain ⟨hfresh, hbehind⟩ := (hanswer hstale).1.write hwrite
      refine ⟨hfresh, fun hindex _ => .inr ?_⟩
      -- Its subscription is told.
      obtain ⟨token, htoken, hsub⟩ := hattends.subscribed hstarted
      have haudience : Observer.live id live.epoch ∈ store.audience := by
        rw [Store.audience, List.mem_map]
        refine ⟨⟨token, live.index.id, .live id live.epoch⟩, ?_, rfl⟩
        rw [List.mem_filter]
        exact ⟨hsubscriptions ▸ hsub, hindex⟩
      refine ⟨⟨store.generation, [docId]⟩, ?_, hbehind⟩
      exact List.mem_append_right _ (List.mem_map.2 ⟨_, haudience, rfl⟩)
  · intro task refresh htask
    exact ⟨refresh, htask, rfl, rfl⟩

/-- A change that is told is no longer pending; the others are. -/
theorem pending_of_ne {earlier later : List (Observer × Change)} {told entry : Observer × Change}
    (hpending : s.pending = earlier ++ told :: later) (hentry : entry ∈ s.pending)
    (hne : entry ≠ told) : entry ∈ earlier ++ later := by
  rw [hpending] at hentry
  rcases List.mem_append.1 hentry with hearlier | hlater
  · exact List.mem_append_left _ hearlier
  · rcases List.mem_cons.1 hlater with heq | hlater
    · exact absurd heq hne
    · exact List.mem_append_right _ hlater

/-- An answer stays kept when others are told. -/
theorem Kept.told {earlier later : List (Observer × Change)} {observer : Observer} {change : Change}
    {answer : Answer} (h : s.Kept id live query answer)
    (hpending : s.pending = earlier ++ (observer, change) :: later)
    (hstore : s'.db.store = s.db.store)
    (hpending' : s'.pending = earlier ++ later)
    (hother : observer = .live id live.epoch → LiveQuery.wantsAgain live.phase ∨
      change.generation ≤ answer.generation) : s'.Kept id live query answer := by
  intro hstale
  rw [hstore, hpending']
  obtain ⟨hfresh, hbehind⟩ := h hstale
  refine ⟨hfresh, fun hindex hgeneration => ?_⟩
  rcases hbehind hindex hgeneration with hagain | ⟨pending, hmem, hlater⟩
  · exact .inl hagain
  · by_cases heq : (Observer.live id live.epoch, pending) = (observer, change)
    · cases heq
      rcases hother rfl with hagain | hseen
      · exact .inl hagain
      · omega
    · exact .inr ⟨pending, pending_of_ne hpending hmem heq, hlater⟩

theorem Attended.overhear (h : s.Attended) {earlier later : List (Observer × Change)}
    {observer : Observer} {change : Change}
    (hpending : s.pending = earlier ++ (observer, change) :: later)
    (hignored : ∀ id epoch live, observer = .live id epoch → s.db.lives[id]? = some live →
      live.epoch = epoch →
      LiveQuery.react live.phase (s.db.lastGeneration live.query) change.generation = .ignore) :
    Attended { s with pending := earlier ++ later } := by
  refine h.of_keeps h.sound rfl ?_ ?_ h.submitted
  · intro id live query hlive hquery _
    refine ⟨hquery, .of_others (fun _ _ _ => .rfl) (fun _ _ _ => .rfl) (Nat.le_refl _)
      (fun _ hsub _ => hsub) ?_⟩
    intro hstarted answer hlast hanswer
    refine hanswer.told hpending rfl rfl fun hobserver => ?_
    have hreact := hignored id live.epoch live hobserver hlive rfl
    rcases LiveQuery.of_ignore hreact with hstopped | ⟨hidle, seen, hlastSeen, hseen⟩
    · exact absurd hstopped hstarted
    · rw [Database.lastGeneration, hquery, Option.bind_some, hlast hidle] at hlastSeen
      cases hlastSeen
      exact .inr hseen
  · intro task refresh htask
    exact ⟨refresh, htask, rfl, rfl⟩

theorem Attended.coalesce (h : s.Attended) {earlier later : List (Observer × Change)} {id : Nat}
    {live : LiveQuery} {change : Change}
    (hpending : s.pending = earlier ++ (.live id live.epoch, change) :: later)
    (hlive : s.db.lives[id]? = some live)
    (hreact : LiveQuery.react live.phase (s.db.lastGeneration live.query) change.generation =
      .coalesce) (count : Metrics → Metrics) :
    Attended { s with db := s.db.count count, pending := earlier ++ later } := by
  refine h.of_keeps h.sound rfl ?_ ?_ h.submitted
  · intro other live' query hlive' hquery _
    refine ⟨hquery, .of_others (fun _ _ _ => .rfl) (fun _ _ _ => .rfl) (Nat.le_refl _)
      (fun _ hsub _ => hsub) ?_⟩
    intro _ answer _ hanswer
    refine hanswer.told hpending rfl rfl fun hobserver => .inl ?_
    obtain ⟨rfl, -⟩ := Observer.live.inj hobserver
    rw [hlive] at hlive'
    cases hlive'
    exact LiveQuery.wantsAgain_of_coalesce hreact
  · intro task refresh htask
    exact ⟨refresh, htask, rfl, rfl⟩

/-! ## Jobs and runs -/

/-- Live queries do not rely on anything else. -/
theorem Attended.of_eq (h : s.Attended) (hstore : s'.db.store = s.db.store)
    (hqueries : s'.db.queries = s.db.queries) (hruns : s'.db.runs = s.db.runs)
    (hlives : s'.db.lives = s.db.lives) (hrefreshes : s'.db.refreshes = s.db.refreshes)
    (htelling : s'.telling = s.telling) (hpending : s'.pending = s.pending) : s'.Attended := by
  refine h.of_keeps (hstore ▸ h.sound) hlives ?_ ?_ ?_
  · intro id live query hlive hquery _
    refine ⟨hqueries ▸ hquery, .of_others ?_ ?_ ?_ ?_ ?_⟩
    · intro run submitted _
      rw [hruns]
    · intro task refresh _
      rw [Going, Going, hrefreshes, htelling]
    · exact Nat.le_of_eq (congrArg Store.tokens hstore.symm)
    · intro sub hsub _
      exact hstore ▸ hsub
    · intro _ answer _ hkept
      exact hkept.later (hstore ▸ .refl _) hpending
  · intro task refresh htask
    exact ⟨refresh, hrefreshes ▸ htask, rfl, rfl⟩
  · intro run submitted hrun
    rw [hqueries]
    exact h.submitted run submitted (hruns ▸ hrun)

/-- One run goes on. -/
theorem Attended.of_run (h : s.Attended) {number : Nat} {run run' : Run}
    (hrun : s.db.runs[number]? = some run)
    (hruns : ∀ other : Nat, s'.db.runs[other]? =
      if other = number then some run' else s.db.runs[other]?)
    (hquery : run'.query = run.query) (hrequest : run'.request = run.request)
    (hrecipient : run'.recipient = run.recipient) (hopen : run'.control.IsOpen → run.control.IsOpen)
    (hcourse : ∀ (id : Nat) (live : LiveQuery) (query : Query),
      s.db.queries[live.query]? = some query →
      s.Attends id live query → run.query = live.query → run.request = query.request →
        run.OnCourse (s'.Kept id live query) query.lastGeneration →
          run'.OnCourse (s'.Kept id live query) query.lastGeneration)
    (hlater : s.db.store.Later s'.db.store) (hqueries : s'.db.queries = s.db.queries)
    (hlives : s'.db.lives = s.db.lives) (hrefreshes : s'.db.refreshes = s.db.refreshes)
    (htelling : s'.telling = s.telling) (hpending : s'.pending = s.pending) : s'.Attended := by
  refine h.of_keeps (hlater.sound h.sound) hlives ?_ ?_ ?_
  · intro id live query _ hlive hattends
    refine ⟨hqueries ▸ hlive, .of_run hrun hruns hquery hrequest hrecipient hopen ?_ hrefreshes
      htelling hlater hpending⟩
    intro hquery' hrequest' _ hsubmitted
    exact hcourse id live query hlive hattends hquery' hrequest' hsubmitted
  · intro task refresh htask
    exact ⟨refresh, hrefreshes ▸ htask, rfl, rfl⟩
  · intro other submitted hother
    rw [hqueries]
    rw [hruns] at hother
    split at hother
    · cases hother
      rw [hquery]
      exact h.submitted number run hrun
    · exact h.submitted other submitted hother

theorem Attended.submit (h : s.Attended) {run : Run} (howns : s.db.OwnsQuery run.query) :
    Attended { s with db := s.db.enter run } := by
  refine h.of_keeps h.sound rfl ?_ ?_ ?_
  · intro id live query hlive hquery _
    refine ⟨hquery, .of_others ?_ (fun _ _ _ => .rfl) (Nat.le_refl _) (fun _ hsub _ => hsub)
      (fun _ _ _ hkept => hkept)⟩
    intro number submitted hsame
    show (s.db.enter run).runs[number]? = some submitted ↔ _
    rw [getElem?_enter]
    split
    next heq =>
      subst heq
      -- The new run is of another query.
      have hother : run ≠ submitted := by
        rintro rfl
        exact howns.2 live (List.mem_of_getElem? hlive) hsame.symm
      simp [hother]
    next => rfl
  · intro task refresh htask
    exact ⟨refresh, htask, rfl, rfl⟩
  · intro number submitted hrun
    have hnew : (s.db.enter run).runs[number]? = some submitted := hrun
    rw [getElem?_enter] at hnew
    split at hnew
    · cases hnew
      exact howns.1
    · exact h.submitted number submitted hnew

/-- Cancellation leaves no run open. -/
theorem not_isOpen_cancel (control : Control) : ¬control.cancel.1.IsOpen := by
  cases control <;> simp [Control.cancel, Control.IsOpen]

theorem Attended.cancel (h : s.Attended) {number : Nat} {run : Run}
    (hrun : s.db.runs[number]? = some run) (hrecipient : ∀ task, run.recipient ≠ .refresh task) :
    Attended { s with db := (s.db.cancel number).1 } := by
  rw [Database.cancel, hrun]
  refine h.of_run hrun (getElem?_updateRun hrun _) rfl rfl rfl
    (fun hopen => absurd hopen (not_isOpen_cancel run.control)) ?_ (.refl _) rfl rfl rfl rfl rfl
  intro id live query _ hattends hquery _ _
  obtain ⟨task, htask⟩ := (hattends.runs number run hrun hquery).1
  exact absurd htask (hrecipient task)

theorem Attended.permit (h : s.Attended) {number : Nat} {run : Run}
    (hrun : s.db.runs[number]? = some run) (hstage : run.stage = .waiting) :
    Attended { s with db := s.db.updateRun number fun run => { run with stage := .admitted } } := by
  refine h.of_run hrun (getElem?_updateRun hrun _) rfl rfl rfl (fun hopen => hopen) ?_ (.refl _) rfl
    rfl rfl rfl rfl
  intro id live query _ _ _ _ hcourse
  rw [Run.OnCourse, hstage] at hcourse
  exact hcourse

theorem Attended.grant (h : s.Attended) (hplaced : s.Placed) :
    Attended { s with db := s.db.givePermit } := by
  cases hwaiting : s.db.waiting with
  | nil =>
    rw [givePermit_of_nil hwaiting]
    exact h.of_eq rfl rfl rfl rfl rfl rfl rfl
  | cons next rest =>
    obtain ⟨run, hrun, hstage, -⟩ :=
      hplaced.of_waiting (show next ∈ s.db.waiting by rw [hwaiting]; exact List.mem_cons_self)
    rw [givePermit_of_cons hwaiting]
    exact (h.permit hrun hstage).of_eq rfl rfl rfl rfl rfl rfl rfl

theorem Attended.startRun (h : s.Attended) {number : Nat} {run : Run}
    (hrun : s.db.runs[number]? = some run) (hcontrol : run.control = .pending) :
    Attended
      { s with db := s.db.updateRun number fun run =>
          { run with control := .running, stage := .scanning } } := by
  refine h.of_run hrun (getElem?_updateRun hrun _) rfl rfl rfl (fun _ => .inl hcontrol) ?_ (.refl _)
    rfl rfl rfl rfl rfl
  intro id live query _ _ _ _ _
  rfl

/-- The run ends that was cancelled before it started. -/
theorem Attended.abandon (h : s.Attended) {number : Nat} {run : Run}
    (hrun : s.db.runs[number]? = some run) (hstage : run.stage = .admitted)
    (hcontrol : run.control ≠ .pending) :
    Attended { s with db := s.db.abandon number run.recipient } := by
  have hended : Attended
      { s with db := s.db.updateRun number fun run => { run with stage := .ended } } := by
    refine h.of_run hrun (getElem?_updateRun hrun _) rfl rfl rfl (fun hopen => hopen) ?_ (.refl _)
      rfl rfl rfl rfl rfl
    intro id live query _ _ _ _ hcourse
    rw [Run.OnCourse, hstage] at hcourse
    exact absurd hcourse.1 hcontrol
  rw [Database.abandon, wakeRecipient_eq]
  exact hended.of_eq rfl rfl rfl rfl rfl rfl rfl

/-- A scan for a run answers anew. -/
theorem Attended.scan (h : s.Attended) (hplaced : s.Placed) {number : Nat} {run : Run}
    (hscanning : number ∈ s.db.scanning) (hrun : s.db.runs[number]? = some run) :
    Attended
      { s with
        db := (({ s.db with
            store := (s.db.store.scan run.request).1
            scanning := s.db.scanning.filter (· != number) }).updateRun number
          fun other => { other with stage := .scanned (s.db.store.scan run.request).2 }).wake
            (.run number) } := by
  obtain ⟨hstage, -, -⟩ := hplaced.of_scanning hscanning hrun
  have hlater := Store.later_scan s.db.store run.request
  refine h.of_run hrun (getElem?_updateRun hrun _) rfl rfl rfl (fun hopen => hopen) ?_ hlater rfl
    rfl rfl rfl rfl
  intro id live query _ hattends _ hrequest hcourse
  rw [Run.OnCourse, hstage] at hcourse
  refine ⟨hcourse, fun answer hanswer hstale => ?_⟩
  have htarget : run.request.target = .index live.index.id := by
    rw [hrequest, Query.request, hattends.index]
    rfl
  obtain ⟨hfresh, hgeneration⟩ := h.sound.fresh_of_scan htarget (hrequest ▸ hstale) hanswer
  refine ⟨hrequest ▸ hfresh, fun _ hbehind => ?_⟩
  have hsame : answer.generation < (s.db.store.scan run.request).1.generation := hbehind
  rw [hlater.generation, hgeneration] at hsame
  omega

theorem getElem?_updateQuery (db : Database σ) (id : Nat) (change : Query → Query) (other : Nat) :
    (db.updateQuery id change).queries[other]? =
      if other = id then db.queries[other]?.map change else db.queries[other]? := by
  simp only [Database.updateQuery, List.getElem?_modify]
  by_cases hother : other = id
  · subst hother
    cases db.queries[other]? <;> simp
  · cases db.queries[other]? <;> simp [hother, Ne.symm hother]

theorem Attends.busy_of_running (h : s.Attends id live query) {number : Nat}
    (hrunning : live.running = some number) : live.phase ≠ .stopped ∧ live.phase ≠ .idle := by
  have hprogress := h.progress
  rw [Progress] at hprogress
  constructor
  · intro hphase
    rw [hphase, hrunning] at hprogress
    cases hprogress
  · intro hphase
    rw [hphase, hrunning] at hprogress
    cases hprogress.1

/-- The generation of the last run does not matter before the next is over. -/
theorem Attends.keepGeneration (h : s.Attends id live query) {number : Nat} {run : Run}
    (hrun : s.db.runs[number]? = some run) (hknown : live.running = some number)
    (hover : run.isOver = false) (generation : Nat) :
    s.Attends id live { query with lastGeneration := some generation } := by
  have hawaits : s.Awaits id live query →
      s.Awaits id live { query with lastGeneration := some generation } := by
    rintro ⟨task, refresh, hgoing, hlive, hepoch, honly, hstage⟩
    refine ⟨task, refresh, hgoing, hlive, hepoch, honly, ?_⟩
    split at hstage
    next awaited heq =>
      obtain ⟨hrunning, submitted, hsubmitted, hquery, hrequest, hcourse⟩ := hstage
      rw [hknown] at hrunning
      cases hrunning
      rw [hrun] at hsubmitted
      cases hsubmitted
      refine ⟨hknown, run, hrun, hquery, hrequest, ?_⟩
      rw [Run.OnCourse] at hcourse ⊢
      cases hstage : run.stage with
      | ended =>
        rw [Run.isOver, hstage] at hover
        cases hover
      | _ =>
        rw [hstage] at hcourse
        exact hcourse
    next =>
      rw [hknown] at hstage
      cases hstage
  obtain ⟨hstarted, hbusy⟩ := h.busy_of_running hknown
  refine ⟨h.index, h.disposed, h.held, h.token, h.subscribed, h.runs, ?_⟩
  rw [progress_iff_awaits hstarted hbusy]
  exact hawaits ((progress_iff_awaits hstarted hbusy).1 h.progress)

/-- Nothing but queries changed. -/
theorem Keeps.of_queries (s : Stance σ) (queries : List Query) (id : Nat) (live : LiveQuery)
    (query : Query) :
    Keeps s { s with db := { s.db with queries := queries } } id live query :=
  .of_others (fun _ _ _ => .rfl) (fun _ _ _ => .rfl) (Nat.le_refl _) (fun _ hsub _ => hsub)
    (fun _ _ _ hkept => hkept)

/-- A run that is to end with an answer sets the generation of its query. -/
theorem Attended.keepGeneration (h : s.Attended) {number : Nat} {run : Run}
    (hrun : s.db.runs[number]? = some run) (hcontrol : run.control = .running)
    (hover : run.isOver = false) (generation : Nat) :
    Attended
      { s with db := s.db.updateQuery run.query fun q =>
        { q with lastGeneration := some generation } } := by
  have hchanged := getElem?_updateQuery s.db run.query
    (fun q => { q with lastGeneration := some generation })
  have hrefreshes : ∀ (task : Nat) (refresh' : Refresh), s.db.refreshes[task]? = some refresh' →
      ∃ refresh : Refresh, s.db.refreshes[task]? = some refresh ∧ refresh'.live = refresh.live ∧
        refresh'.epoch = refresh.epoch := fun _ refresh htask => ⟨refresh, htask, rfl, rfl⟩
  have hsubmitted : ∀ (other : Nat) (submitted : Run), s.db.runs[other]? = some submitted →
      submitted.query < (s.db.updateQuery run.query fun q =>
        { q with lastGeneration := some generation }).queries.length := by
    intro other submitted hother
    rw [Database.updateQuery, List.length_modify]
    exact h.submitted other submitted hother
  by_cases hlive : ∃ (id : Nat) (live : LiveQuery),
      s.db.lives[id]? = some live ∧ live.query = run.query
  · obtain ⟨id, live, hlive, hquery⟩ := hlive
    refine h.of_change h.sound hlive (fun live => live) (List.modify_id id s.db.lives).symm rfl
      (Nat.le_refl _) (fun _ htoken => .inl htoken) ?_ ?_
      (fun task refresh htask => .inl (hrefreshes task refresh htask)) hsubmitted
    · intro query hold hattends
      have hknown := (hattends.runs number run hrun hquery.symm).2 (.inr hcontrol)
      refine ⟨_, ?_, (hattends.keepGeneration hrun hknown hover generation).keeps (.of_queries ..)⟩
      rw [hchanged, if_pos hquery, hold]
      rfl
    · intro other live' query hother hlive' hold _
      refine ⟨?_, .of_queries ..⟩
      have hne : live'.query ≠ run.query := fun heq =>
        hother (h.queries other id live' live hlive' hlive (heq.trans hquery.symm))
      rw [hchanged, if_neg hne]
      exact hold
  · refine h.of_keeps h.sound rfl ?_ hrefreshes hsubmitted
    intro id live query hlive' hold _
    refine ⟨?_, .of_queries ..⟩
    rw [hchanged, if_neg (fun heq => hlive ⟨id, live, hlive', heq⟩)]
    exact hold

theorem ne_cancelled_of_failed (error : IndexError) (generation : Option Nat) :
    (QueryError.ofIndexError error).wrap generation ≠ .cancelled := by
  cases error <;> simp [QueryError.ofIndexError, QueryError.wrap]

/-- A run ends with what it came to. -/
theorem Attended.conclude (h : s.Attended) {number : Nat} {run : Run} {control : Control}
    {outcome : Outcome} (hrun : s.db.runs[number]? = some run)
    (hconcludes : run.Concludes control outcome) :
    Attended
      { s with
        db := ((s.db.keepGeneration run.query outcome).updateRun number fun other =>
          { other with control := control, stage := .ended, outcome := some outcome }).wakeRecipient
            run.recipient } := by
  rw [wakeRecipient_eq]
  refine Attended.of_eq
    (s := { s with db := (s.db.keepGeneration run.query outcome).updateRun number fun other =>
      { other with control := control, stage := .ended, outcome := some outcome } })
    ?_ rfl rfl rfl rfl rfl rfl rfl
  cases hconcludes with
  | @refused error hstage hcontrol hregistration =>
    refine h.of_run hrun (getElem?_updateRun hrun _) rfl rfl rfl (fun _ => .inl hcontrol) ?_
      (.refl _) rfl rfl rfl rfl rfl
    intro id live query _ _ _ _ hcourse
    rw [Run.OnCourse, hstage] at hcourse
    refine ⟨rfl, .error error, rfl, ?_, by simp⟩
    rintro ⟨⟩
    exact hcourse.2 hregistration
  | @discarded result hstage hcontrol =>
    refine h.of_run hrun (getElem?_updateRun hrun _) rfl rfl rfl (fun hopen => hopen) ?_ (.refl _)
      rfl rfl rfl rfl rfl
    intro id live query _ _ _ _ hcourse
    rw [Run.OnCourse, hstage] at hcourse
    exact absurd hcourse.1 hcontrol
  | @failed error generation hstage hcontrol =>
    refine h.of_run hrun (getElem?_updateRun hrun _) rfl rfl rfl (fun _ => .inr hcontrol) ?_
      (.refl _) rfl rfl rfl rfl rfl
    intro id live query _ _ _ _ _
    refine ⟨rfl, _, rfl, ?_, by simp⟩
    intro hcancelled
    exact ne_cancelled_of_failed error generation (Except.error.inj hcancelled)
  | @answered answer hstage hcontrol =>
    have hkept := h.keepGeneration hrun hcontrol (by rw [Run.isOver, hstage]) answer.generation
    refine hkept.of_run hrun (getElem?_updateRun hrun _) rfl rfl rfl (fun _ => .inr hcontrol) ?_
      (.refl _) rfl rfl rfl rfl rfl
    intro id live query hlive _ hquery _ hcourse
    rw [Run.OnCourse, hstage] at hcourse
    refine ⟨rfl, .ok answer, rfl, by simp, ?_⟩
    rintro answer' ⟨⟩
    refine ⟨hcourse.2 answer rfl, ?_⟩
    have hnew := (getElem?_updateQuery s.db run.query
      (fun q => { q with lastGeneration := some answer.generation }) live.query).symm.trans hlive
    rw [if_pos hquery.symm] at hnew
    obtain ⟨old, -, rfl⟩ := Option.map_eq_some_iff.1 hnew
    rfl

/-! ## Refreshes -/

/-- One refresh goes on. -/
theorem Attended.of_refresh (h : s.Attended) {task : Nat} {refresh refresh' : Refresh}
    (htask : s.db.refreshes[task]? = some refresh)
    (hrefreshes : ∀ other : Nat, s'.db.refreshes[other]? =
      if other = task then some refresh' else s.db.refreshes[other]?)
    (hlive : refresh'.live = refresh.live) (hepoch : refresh'.epoch = refresh.epoch)
    (hothers : ∀ other, other ≠ task → (other ∈ s'.telling ↔ other ∈ s.telling))
    (hgoing : ∀ live : LiveQuery, s.db.lives[refresh.live]? = some live → live.phase ≠ .stopped →
      refresh.epoch = live.epoch →
        (refresh'.stage ≠ .over ∧ task ∉ s'.telling ↔ refresh.stage ≠ .over ∧ task ∉ s.telling) ∧
          (refresh.stage ≠ .over → task ∉ s.telling →
            ∀ run, refresh'.stage = .awaiting run ↔ refresh.stage = .awaiting run))
    (hstore : s'.db.store = s.db.store) (hqueries : s'.db.queries = s.db.queries)
    (hruns : s'.db.runs = s.db.runs) (hlives : s'.db.lives = s.db.lives)
    (hpending : s'.pending = s.pending) : s'.Attended := by
  refine h.of_keeps (hstore ▸ h.sound) hlives ?_ ?_ ?_
  · intro id live query hlive' hquery _
    refine ⟨hqueries ▸ hquery, .of_refresh htask hrefreshes hlive hepoch hothers ?_ hruns hstore
      hpending⟩
    intro hstarted hsame hsameEpoch
    exact hgoing live (hsame ▸ hlive') hstarted hsameEpoch
  · intro other refresh'' hother
    rw [hrefreshes] at hother
    split at hother
    next heq =>
      cases hother
      exact ⟨refresh, heq ▸ htask, hlive, hepoch⟩
    next => exact ⟨refresh'', hother, rfl, rfl⟩
  · intro run submitted hrun
    rw [hqueries]
    exact h.submitted run submitted (hruns ▸ hrun)

/-- Until its run is submitted a refresh only waits. -/
theorem Attended.wait (h : s.Attended) {task : Nat} {refresh : Refresh} {stage : RefreshStage}
    (htask : s.db.refreshes[task]? = some refresh) (hearly : refresh.stage.IsEarly)
    (hearly' : stage.IsEarly) :
    Attended
      { s with db := s.db.updateRefresh task fun refresh => { refresh with stage := stage } } := by
  refine h.of_refresh htask (getElem?_updateRefresh htask _) rfl rfl (fun _ _ => .rfl) ?_ rfl rfl
    rfl rfl rfl
  intro live _ _ _
  obtain ⟨hover, hawaiting⟩ := hearly.not_over
  obtain ⟨hover', hawaiting'⟩ := hearly'.not_over
  refine ⟨and_congr_left fun _ => iff_of_true hover' hover, fun _ _ run => ?_⟩
  exact iff_of_false (hawaiting' run) (hawaiting run)

/-- A refresh that is not of the present epoch ends. -/
theorem Attended.lapse (h : s.Attended) {task : Nat} {refresh : Refresh} {live : LiveQuery}
    (htask : s.db.refreshes[task]? = some refresh) (hlive : s.db.lives[refresh.live]? = some live)
    (hcurrent : live.isCurrent refresh.epoch = false) :
    Attended
      { s with db := s.db.updateRefresh task fun refresh => { refresh with stage := .over } } := by
  refine h.of_refresh htask (getElem?_updateRefresh htask _) rfl rfl (fun _ _ => .rfl) ?_ rfl rfl
    rfl rfl rfl
  intro live' hlive' hstarted hepoch
  rw [hlive] at hlive'
  cases hlive'
  exact absurd (LiveQuery.isCurrent_iff.2 ⟨hepoch.symm, hstarted⟩) (Bool.eq_false_iff.1 hcurrent)

theorem Attended.ignore (h : s.Attended) {task : Nat} {refresh : Refresh}
    (htask : s.db.refreshes[task]? = some refresh)
    (hcurrent : ∀ live, s.db.lives[refresh.live]? = some live →
      live.isCurrent refresh.epoch = false) :
    Attended { s with telling := task :: s.telling } := by
  have hsame : ∀ other : Nat, s.db.refreshes[other]? =
      if other = task then some refresh else s.db.refreshes[other]? := by
    intro other
    split
    next heq => rw [heq, htask]
    next => rfl
  refine h.of_refresh htask hsame rfl rfl (fun other hother => ?_) ?_ rfl rfl rfl rfl rfl
  · simp [hother]
  · intro live hlive hstarted hepoch
    exact absurd (LiveQuery.isCurrent_iff.2 ⟨hepoch.symm, hstarted⟩)
      (Bool.eq_false_iff.1 (hcurrent live hlive))

theorem Attended.retire (h : s.Attended) (hplaced : s.Placed) {task : Nat}
    (htelling : task ∈ s.telling) :
    Attended
      { s with
        db := s.db.updateRefresh task fun refresh => { refresh with stage := .over }
        telling := s.telling.filter fun other => other != task } := by
  obtain ⟨run, submitted, hstage, -, -⟩ := hplaced.telling task htelling
  obtain ⟨refresh, htask, -⟩ := Option.map_eq_some_iff.1 hstage
  refine h.of_refresh htask (getElem?_updateRefresh htask _) rfl rfl (fun other hother => ?_) ?_ rfl
    rfl rfl rfl rfl
  · simp [hother]
  · intro live _ _ _
    refine ⟨iff_of_false (fun hgoing => hgoing.1 rfl) (fun hgoing => hgoing.2 htelling), ?_⟩
    intro _ hquiet
    exact absurd htelling hquiet

end Stance

end Viewbase
