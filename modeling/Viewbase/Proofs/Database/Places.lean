import Viewbase.Proofs.Database.Steps

/-!
Where background work is to be found.

Every run that has not ended is in one place: among the jobs that can go on, among the runs that
wait for a permit, or among the scans under way; and its stage tells which.  Likewise every refresh
that is not over can go on, waits for a timer, or waits for a run that will wake it (`Placed`).
-/

namespace Viewbase.Stance

variable {σ : Type}

/-- How often a job can go on; the one in hand counts. -/
def queued (s : Stance σ) (job : Job) : Nat :=
  s.db.ready.count job + s.hand.toList.count job

/-- How many timers a refresh waits for. -/
def timed (s : Stance σ) (task : Nat) : Nat :=
  (s.db.timers.map Timer.refresh).count task

/-- A run of this stage, if there is one, is once in the place that the stage calls for. -/
def RunAt (queued waiting scanning : Nat) : Option Stage → Prop
  | none => queued = 0 ∧ waiting = 0 ∧ scanning = 0
  | some .waiting => queued + waiting = 1 ∧ scanning = 0
  | some .admitted => queued = 1 ∧ waiting = 0 ∧ scanning = 0
  | some .scanning => queued = 0 ∧ waiting = 0 ∧ scanning = 1
  | some (.scanned _) => queued = 1 ∧ waiting = 0 ∧ scanning = 0
  | some .ended => queued = 0 ∧ waiting = 0 ∧ scanning = 0

section RunAt

variable {queued waiting scanning : Nat} {found : Option Run}

/-- Only a run that has no permit yet waits for one: once, and it is nowhere else. -/
theorem RunAt.of_waiting (h : RunAt queued waiting scanning (found.map Run.stage))
    (hone : 0 < waiting) :
    ∃ run, found = some run ∧ run.stage = .waiting ∧ queued = 0 ∧ waiting = 1 ∧ scanning = 0 := by
  cases found with
  | none =>
    obtain ⟨-, hnone, -⟩ := h
    omega
  | some run =>
    rw [Option.map_some] at h
    cases hstage : run.stage <;> rw [hstage] at h
    case waiting =>
      obtain ⟨honce, hscanning⟩ := h
      exact ⟨run, rfl, hstage, by omega, by omega, hscanning⟩
    all_goals
      obtain ⟨-, hnone, -⟩ := h
      omega

/-- A scan is under way for a run that says so: once, and the run is nowhere else. -/
theorem RunAt.of_scanning (h : RunAt queued waiting scanning (found.map Run.stage))
    (hone : 0 < scanning) :
    ∃ run, found = some run ∧ run.stage = .scanning ∧ queued = 0 ∧ waiting = 0 ∧ scanning = 1 := by
  cases found with
  | none =>
    obtain ⟨-, -, hnone⟩ := h
    omega
  | some run =>
    rw [Option.map_some] at h
    cases hstage : run.stage <;> rw [hstage] at h
    case scanning => exact ⟨run, rfl, hstage, h⟩
    case waiting =>
      obtain ⟨-, hnone⟩ := h
      omega
    all_goals
      obtain ⟨-, -, hnone⟩ := h
      omega

end RunAt

/-- A refresh of this stage, if there is one, is where the stage calls for. -/
def RefreshAt (s : Stance σ) (task : Nat) : Option RefreshStage → Prop
  | none => s.queued (.refresh task) = 0 ∧ s.timed task = 0
  | some (.launched _) => s.queued (.refresh task) = 1 ∧ s.timed task = 0
  | some .sleeping => s.queued (.refresh task) = 0 ∧ s.timed task = 1
  | some .due => s.queued (.refresh task) = 1 ∧ s.timed task = 0
  | some (.awaiting id) => s.timed task = 0 ∧ ∃ run : Run, s.db.runs[id]? = some run ∧
      run.recipient = .refresh task ∧
      s.queued (.refresh task) = if run.isOver ∧ task ∉ s.telling then 1 else 0
  | some .over => s.queued (.refresh task) = 0 ∧ s.timed task = 0

/-- All background work is where it should be. -/
structure Placed (s : Stance σ) : Prop where
  runs : ∀ id, RunAt (s.queued (.run id)) (s.db.waiting.count id) (s.db.scanning.count id)
    (s.db.runs[id]?.map Run.stage)
  refreshes : ∀ task, s.RefreshAt task (s.db.refreshes[task]?.map Refresh.stage)
  /-- A run for a refresh is the one that the refresh waits for, until it has ended. -/
  awaited : ∀ (id : Nat) (run : Run) (task : Nat), s.db.runs[id]? = some run →
    run.recipient = .refresh task →
    run.isOver = false → s.db.refreshes[task]?.map Refresh.stage = some (.awaiting id)
  telling : ∀ task ∈ s.telling, ∃ (id : Nat) (run : Run),
    s.db.refreshes[task]?.map Refresh.stage = some (.awaiting id) ∧ s.db.runs[id]? = some run ∧
      run.isOver
  attached : ∀ (task : Nat) (refresh : Refresh), s.db.refreshes[task]? = some refresh →
    refresh.live < s.db.lives.length

variable {s s' : Stance σ}

/-! ## Work that stays where it is -/

/-- What places depend on of a run. -/
def marks (run : Run) : Stage × Recipient :=
  (run.stage, run.recipient)

theorem exists_of_marks {runs runs' : List Run} {id : Nat} {run : Run}
    (h : runs'[id]?.map marks = runs[id]?.map marks) (hrun : runs[id]? = some run) :
    ∃ run', runs'[id]? = some run' ∧ run'.recipient = run.recipient ∧ run'.isOver = run.isOver := by
  rw [hrun, Option.map_some] at h
  obtain ⟨run', hrun', heq⟩ := Option.map_eq_some_iff.1 h
  have hstage : run'.stage = run.stage := congrArg Prod.fst heq
  exact ⟨run', hrun', congrArg Prod.snd heq, by rw [Run.isOver, Run.isOver, hstage]⟩

/-- The place of a refresh that does not go on. -/
theorem RefreshAt.congr {task : Nat} {stage : Option RefreshStage} (h : s.RefreshAt task stage)
    (hruns : ∀ (id : Nat) (run : Run), stage = some (.awaiting id) → s.db.runs[id]? = some run →
      ∃ run' : Run, s'.db.runs[id]? = some run' ∧ run'.recipient = run.recipient ∧
        run'.isOver = run.isOver)
    (hqueued : s'.queued (.refresh task) = s.queued (.refresh task))
    (htimed : s'.timed task = s.timed task) (htelling : task ∈ s'.telling ↔ task ∈ s.telling) :
    s'.RefreshAt task stage := by
  cases stage with
  | none => exact ⟨hqueued.trans h.1, htimed.trans h.2⟩
  | some stage =>
    cases stage with
    | awaiting id =>
      obtain ⟨hnone, run, hrun, hrecipient, hcount⟩ := h
      obtain ⟨run', hrun', hrecipient', hover⟩ := hruns id run rfl hrun
      refine ⟨htimed.trans hnone, run', hrun', hrecipient'.trans hrecipient, ?_⟩
      simp only [hqueued, hcount, htelling, hover]
    | _ => exact ⟨hqueued.trans h.1, htimed.trans h.2⟩

/-- Places do not depend on anything else. -/
theorem Placed.congr (h : s.Placed) (hqueued : ∀ job, s'.queued job = s.queued job)
    (hruns : ∀ id : Nat, s'.db.runs[id]?.map marks = s.db.runs[id]?.map marks)
    (hrefreshes : s'.db.refreshes = s.db.refreshes) (hwaiting : s'.db.waiting = s.db.waiting)
    (hscanning : s'.db.scanning = s.db.scanning) (htimers : s'.db.timers = s.db.timers)
    (htelling : s'.telling = s.telling) (hlives : s.db.lives.length ≤ s'.db.lives.length) :
    s'.Placed := by
  have hstages : ∀ id : Nat, s'.db.runs[id]?.map Run.stage = s.db.runs[id]?.map Run.stage := by
    intro id
    have hmarks := congrArg (Option.map Prod.fst) (hruns id)
    simpa [Option.map_map, Function.comp_def, marks] using hmarks
  refine ⟨?_, ?_, ?_, ?_, ?_⟩
  · intro id
    rw [hqueued, hwaiting, hscanning, hstages]
    exact h.runs id
  · intro task
    rw [hrefreshes]
    exact (h.refreshes task).congr (fun id _ _ hold => exists_of_marks (hruns id) hold) (hqueued _)
      (by rw [timed, timed, htimers]) (by rw [htelling])
  · intro id run' task hnew hrecipient hover
    obtain ⟨run, hold, hsame, hsameOver⟩ := exists_of_marks (hruns id).symm hnew
    rw [hrefreshes]
    exact h.awaited id run task hold (hsame.trans hrecipient) (hsameOver.trans hover)
  · intro task htask
    rw [htelling] at htask
    obtain ⟨id, run, hstage, hold, hover⟩ := h.telling task htask
    obtain ⟨run', hnew, -, hover'⟩ := exists_of_marks (hruns id) hold
    exact ⟨id, run', by rw [hrefreshes]; exact hstage, hnew, hover'.trans hover⟩
  · intro task refresh htask
    rw [hrefreshes] at htask
    exact Nat.lt_of_lt_of_le (h.attached task refresh htask) hlives

/-- A run may change in what places do not depend on. -/
theorem marks_updateRun {db : Database σ} {id : Nat} {change : Run → Run}
    (h : ∀ run, marks (change run) = marks run) (other : Nat) :
    (db.updateRun id change).runs[other]?.map marks = db.runs[other]?.map marks := by
  simp only [Database.updateRun, List.getElem?_modify]
  cases db.runs[other]? with
  | none => rfl
  | some run =>
    by_cases hother : id = other
    · simp [hother, h]
    · simp [hother]

theorem queued_of_eq (hready : s'.db.ready = s.db.ready) (hhand : s'.hand = s.hand) (job : Job) :
    s'.queued job = s.queued job := by
  rw [queued, queued, hready, hhand]

/-! ## Runs that go on -/

theorem getElem?_updateRun {db : Database σ} {id : Nat} {run : Run}
    (hrun : db.runs[id]? = some run) (change : Run → Run) (other : Nat) :
    (db.updateRun id change).runs[other]? =
      if other = id then some (change run) else db.runs[other]? :=
  Database.getElem?_modify_of_some hrun change other

/-- A run goes on to another place; when it ends, the refresh that waits for it can go on. -/
theorem Placed.of_run (h : s.Placed) {id : Nat} {run : Run} (run' : Run)
    (hrun : s.db.runs[id]? = some run) (hover : run.isOver = false)
    (hruns : ∀ other : Nat, s'.db.runs[other]? =
      if other = id then some run' else s.db.runs[other]?)
    (hrecipient : run'.recipient = run.recipient)
    (hplace : RunAt (s'.queued (.run id)) (s'.db.waiting.count id) (s'.db.scanning.count id)
      (some run'.stage))
    (hothers : ∀ other, other ≠ id → s'.queued (.run other) = s.queued (.run other) ∧
      s'.db.waiting.count other = s.db.waiting.count other ∧
      s'.db.scanning.count other = s.db.scanning.count other)
    (hwoken : ∀ task, s'.queued (.refresh task) = s.queued (.refresh task) +
      if run'.isOver ∧ run.recipient = .refresh task then 1 else 0)
    (hrefreshes : s'.db.refreshes = s.db.refreshes) (htimers : s'.db.timers = s.db.timers)
    (htelling : s'.telling = s.telling) (hlives : s'.db.lives = s.db.lives) : s'.Placed := by
  -- A run that ends wakes the refresh that waits for it, and no other.
  have hrecipients : ∀ task, run.recipient = .refresh task →
      s.db.refreshes[task]?.map Refresh.stage = some (.awaiting id) :=
    fun task htask => h.awaited id run task hrun htask hover
  refine ⟨?_, ?_, ?_, ?_, ?_⟩
  · intro other
    rw [hruns]
    by_cases hother : other = id
    · rw [if_pos hother, hother]
      exact hplace
    · obtain ⟨hqueued, hwaiting, hscanning⟩ := hothers other hother
      rw [if_neg hother, hqueued, hwaiting, hscanning]
      exact h.runs other
  · intro task
    have hat := h.refreshes task
    have htimed : s'.timed task = s.timed task := by rw [timed, timed, htimers]
    have hwoken := hwoken task
    rw [hrefreshes]
    by_cases hstage : s.db.refreshes[task]?.map Refresh.stage = some (.awaiting id)
    · rw [hstage] at hat ⊢
      obtain ⟨hnone, waited, hwaited, hfor, hcount⟩ := hat
      rw [hrun] at hwaited
      cases hwaited
      refine ⟨htimed.trans hnone, run', by rw [hruns, if_pos rfl], hrecipient.trans hfor, ?_⟩
      have htold : task ∉ s.telling := by
        intro htask
        obtain ⟨ended, told, hended, hover', htrue⟩ := h.telling task htask
        rw [hstage] at hended
        cases hended
        rw [hrun] at hover'
        cases hover'
        rw [hover] at htrue
        cases htrue
      rw [hwoken, hcount, htelling]
      simp [hover, htold, hfor]
    · have hsame : s'.queued (.refresh task) = s.queued (.refresh task) := by
        rw [hwoken, if_neg (fun hended => hstage (hrecipients task hended.2)), Nat.add_zero]
      refine hat.congr (fun other waited hother hwaited => ?_) hsame htimed (by rw [htelling])
      have hne : other ≠ id := fun heq => hstage (heq ▸ hother)
      exact ⟨waited, by rw [hruns, if_neg hne, hwaited], rfl, rfl⟩
  · intro other run'' task hnew hrecipient' hover'
    rw [hruns] at hnew
    rw [hrefreshes]
    by_cases hother : other = id
    · subst hother
      rw [if_pos rfl] at hnew
      cases hnew
      exact hrecipients task (hrecipient ▸ hrecipient')
    · rw [if_neg hother] at hnew
      exact h.awaited other run'' task hnew hrecipient' hover'
  · intro task htask
    rw [htelling] at htask
    obtain ⟨other, told, hstage, htold, htrue⟩ := h.telling task htask
    have hother : other ≠ id := by
      rintro rfl
      rw [hrun] at htold
      cases htold
      rw [hover] at htrue
      cases htrue
    exact ⟨other, told, by rw [hrefreshes]; exact hstage,
      by rw [hruns, if_neg hother]; exact htold, htrue⟩
  · intro task refresh htask
    rw [hrefreshes] at htask
    rw [hlives]
    exact h.attached task refresh htask

theorem queued_hand {job : Job} (hhand : s.hand = some job) (other : Job) :
    s.queued other = s.db.ready.count other + if other = job then 1 else 0 := by
  rw [queued, hhand]
  by_cases hother : other = job
  · simp [hother]
  · simp [hother, Ne.symm hother]

/-- Only the job in hand is not among those that can go on. -/
theorem count_ready {job : Job} (hhand : s.hand = some job) (other : Job) (hother : other ≠ job) :
    s.db.ready.count other = s.queued other := by
  rw [queued_hand hhand, if_neg hother, Nat.add_zero]

theorem queued_none (hhand : s.hand = none) (job : Job) : s.queued job = s.db.ready.count job := by
  rw [queued, hhand]
  rfl

theorem queued_wake (db : Database σ) (woken : Job) (pending : List (Observer × Change))
    (telling : List Nat) (hand : Option Job) (job : Job) :
    queued ⟨⟨db.wake woken, pending, telling⟩, hand⟩ job =
      queued ⟨⟨db, pending, telling⟩, hand⟩ job + if job = woken then 1 else 0 := by
  simp only [queued, Database.wake, List.count_append, List.count_singleton]
  by_cases hjob : job = woken
  · simp only [hjob, beq_self_eq_true, if_true]
    omega
  · simp [hjob, Ne.symm hjob]

/-- Where a run in hand is. -/
theorem Placed.run_hand (h : s.Placed) {id : Nat} {run : Run} (hhand : s.hand = some (.run id))
    (hrun : s.db.runs[id]? = some run) :
    s.db.ready.count (.run id) = 0 ∧ s.db.waiting.count id = 0 ∧ s.db.scanning.count id = 0 ∧
      run.stage ≠ .scanning ∧ run.isOver = false := by
  have hat := h.runs id
  have hqueued := queued_hand hhand (.run id)
  rw [if_pos rfl] at hqueued
  rw [hrun, Option.map_some, hqueued] at hat
  cases hstage : run.stage <;> rw [hstage] at hat
  case waiting =>
    obtain ⟨honce, hscanning⟩ := hat
    exact ⟨by omega, by omega, hscanning, by simp, by rw [Run.isOver, hstage]⟩
  case admitted =>
    obtain ⟨honce, hwaiting, hscanning⟩ := hat
    exact ⟨by omega, hwaiting, hscanning, by simp, by rw [Run.isOver, hstage]⟩
  case scanning =>
    obtain ⟨hnone, -, -⟩ := hat
    omega
  case scanned result =>
    obtain ⟨honce, hwaiting, hscanning⟩ := hat
    exact ⟨by omega, hwaiting, hscanning, by simp, by rw [Run.isOver, hstage]⟩
  case ended =>
    obtain ⟨hnone, -, -⟩ := hat
    omega

theorem Placed.permit (h : s.Placed) {id : Nat} {run : Run} (hhand : s.hand = some (.run id))
    (hrun : s.db.runs[id]? = some run) (hpermits : 0 < s.db.permits) :
    Placed { s with db := s.db.takePermit id } := by
  obtain ⟨hready, hwaiting, hscanning, -, hover⟩ := h.run_hand hhand hrun
  rw [Database.takePermit, if_pos hpermits]
  refine h.of_run { run with stage := .admitted } hrun hover
    (getElem?_updateRun hrun _) rfl ⟨?_, hwaiting, hscanning⟩ (fun _ _ => ⟨rfl, rfl, rfl⟩)
    (fun _ => ?_) rfl rfl rfl rfl
  · exact (queued_hand hhand (.run id)).trans (by rw [hready, if_pos rfl])
  · rw [if_neg (by simp [Run.isOver]), Nat.add_zero]
    rfl

theorem Placed.queue (h : s.Placed) {id : Nat} {run : Run} (hhand : s.hand = some (.run id))
    (hrun : s.db.runs[id]? = some run) (hstage : run.stage = .waiting)
    (hpermits : ¬0 < s.db.permits) :
    Placed { s with db := s.db.takePermit id, hand := none } := by
  obtain ⟨hready, hwaiting, hscanning, -, hover⟩ := h.run_hand hhand hrun
  rw [Database.takePermit, if_neg hpermits]
  refine h.of_run run hrun hover (fun other => ?_) rfl ?_ (fun other hother => ⟨?_, ?_, rfl⟩)
    (fun task => ?_) rfl rfl rfl rfl
  · by_cases hother : other = id
    · rw [if_pos hother, hother, hrun]
    · rw [if_neg hother]
  · rw [hstage, queued_none rfl]
    refine ⟨?_, hscanning⟩
    simp [hready, hwaiting]
  · rw [queued_none rfl]
    exact count_ready hhand _ (fun heq => hother (by cases heq; rfl))
  · simp [List.count_append, Ne.symm hother]
  · rw [queued_none rfl, hover, if_neg (by simp), Nat.add_zero]
    exact count_ready hhand _ (by simp)

theorem givePermit_of_nil {db : Database σ} (hwaiting : db.waiting = []) :
    db.givePermit = { db with permits := db.permits + 1 } := by
  rw [Database.givePermit]
  split
  · rfl
  · simp_all

theorem givePermit_of_cons {db : Database σ} {next : Nat} {rest : List Nat}
    (hwaiting : db.waiting = next :: rest) :
    db.givePermit = ({ db with waiting := rest }.updateRun next fun run =>
      { run with stage := .admitted }).wake (.run next) := by
  rw [Database.givePermit]
  split
  · simp_all
  next heq =>
    rw [hwaiting] at heq
    cases heq
    rfl

/-- Only runs that have no permit yet wait for one. -/
theorem Placed.of_waiting (h : s.Placed) {id : Nat} (hwaiting : id ∈ s.db.waiting) :
    ∃ run : Run, s.db.runs[id]? = some run ∧ run.stage = .waiting ∧ s.queued (.run id) = 0 ∧
      s.db.waiting.count id = 1 ∧ s.db.scanning.count id = 0 :=
  (h.runs id).of_waiting (List.count_pos_iff.2 hwaiting)

/-- A scan is under way for a run that says so. -/
theorem Placed.of_scanning (h : s.Placed) {id : Nat} {run : Run} (hscanning : id ∈ s.db.scanning)
    (hrun : s.db.runs[id]? = some run) :
    run.stage = .scanning ∧ s.queued (.run id) = 0 ∧ s.db.waiting.count id = 0 := by
  obtain ⟨found, hfound, hstage, hqueued, hwaiting, -⟩ :=
    (h.runs id).of_scanning (List.count_pos_iff.2 hscanning)
  rw [hrun, Option.some.injEq] at hfound
  exact ⟨hfound ▸ hstage, hqueued, hwaiting⟩

theorem Placed.grant (h : s.Placed) : Placed { s with db := s.db.givePermit } := by
  cases hwaiting : s.db.waiting with
  | nil =>
    rw [givePermit_of_nil hwaiting]
    exact h.congr (fun _ => rfl) (fun _ => rfl) rfl rfl rfl rfl rfl (Nat.le_refl _)
  | cons next rest =>
    obtain ⟨run, hrun, hstage, hnone, honce, hscanning⟩ :=
      h.of_waiting (show next ∈ s.db.waiting by rw [hwaiting]; exact List.mem_cons_self)
    rw [hwaiting, List.count_cons_self] at honce
    rw [givePermit_of_cons hwaiting]
    have hqueued := queued_wake
      (({ s.db with waiting := rest }).updateRun next fun run => { run with stage := .admitted })
      (.run next) s.pending s.telling s.hand
    refine h.of_run { run with stage := .admitted } hrun (by rw [Run.isOver, hstage])
      (getElem?_updateRun hrun _) rfl ⟨?_, ?_, hscanning⟩ (fun other hother => ⟨?_, ?_, rfl⟩)
      (fun task => ?_) rfl rfl rfl rfl
    · refine (hqueued (.run next)).trans ?_
      rw [if_pos rfl]
      exact congrArg (· + 1) hnone
    · show rest.count next = 0
      omega
    · refine (hqueued (.run other)).trans ?_
      rw [if_neg (fun heq => hother (by cases heq; rfl))]
      rfl
    · show rest.count other = s.db.waiting.count other
      rw [hwaiting, List.count_cons_of_ne (Ne.symm hother)]
    · refine (hqueued (.refresh task)).trans ?_
      rw [if_neg (by simp), if_neg (by simp [Run.isOver])]
      rfl

theorem Placed.startRun (h : s.Placed) {id : Nat} {run : Run} (hhand : s.hand = some (.run id))
    (hrun : s.db.runs[id]? = some run) :
    Placed
      { s with
        db := ({ s.db with scanning := s.db.scanning ++ [id] }).updateRun id fun run =>
          { run with control := .running, stage := .scanning }
        hand := none } := by
  obtain ⟨hready, hwaiting, hscanning, -, hover⟩ := h.run_hand hhand hrun
  refine h.of_run { run with control := .running, stage := .scanning } hrun hover
    (getElem?_updateRun hrun _) rfl ⟨?_, hwaiting, ?_⟩ (fun other hother => ⟨?_, rfl, ?_⟩)
    (fun task => ?_) rfl rfl rfl rfl
  · rw [queued_none rfl]
    exact hready
  · simp [Database.updateRun, List.count_append, hscanning]
  · rw [queued_none rfl]
    exact count_ready hhand _ (fun heq => hother (by cases heq; rfl))
  · simp [Database.updateRun, List.count_append, Ne.symm hother]
  · rw [queued_none rfl, if_neg (by simp [Run.isOver]), Nat.add_zero]
    exact count_ready hhand _ (by simp)

theorem count_wakeRecipient_run (db : Database σ) (recipient : Recipient) (id : Nat) :
    (db.wakeRecipient recipient).ready.count (.run id) = db.ready.count (.run id) := by
  cases recipient with
  | refresh task => simp [Database.wakeRecipient, Database.wake, List.count_append]
  | _ => rfl

theorem count_wakeRecipient_refresh (db : Database σ) (recipient : Recipient) (task : Nat) :
    (db.wakeRecipient recipient).ready.count (.refresh task) =
      db.ready.count (.refresh task) + if recipient = .refresh task then 1 else 0 := by
  cases recipient with
  | refresh woken =>
    simp only [Database.wakeRecipient, Database.wake, List.count_append, List.count_singleton]
    by_cases hwoken : woken = task
    · simp [hwoken]
    · simp [hwoken]
  | _ => rfl

theorem wakeRecipient_eq (db : Database σ) (recipient : Recipient) :
    db.wakeRecipient recipient = { db with ready := (db.wakeRecipient recipient).ready } := by
  cases recipient <;> rfl

/-- A run that ends wakes the refresh that waits for it. -/
theorem Placed.endRun (h : s.Placed) {id : Nat} {run : Run} (hhand : s.hand = some (.run id))
    (hrun : s.db.runs[id]? = some run) (change : Run → Run)
    (hchange : marks (change run) = (.ended, run.recipient)) :
    Placed
      { s with
        db := (s.db.updateRun id change).wakeRecipient run.recipient
        hand := none } := by
  obtain ⟨hready, hwaiting, hscanning, -, hover⟩ := h.run_hand hhand hrun
  have hstage : (change run).stage = .ended := congrArg Prod.fst hchange
  have hended : (change run).isOver := by rw [Run.isOver, hstage]
  rw [wakeRecipient_eq]
  refine h.of_run (change run) hrun hover (getElem?_updateRun hrun _)
    (congrArg Prod.snd hchange) ?_ (fun other hother => ⟨?_, rfl, rfl⟩) (fun task => ?_) rfl rfl rfl
      rfl
  · rw [hstage, queued_none rfl]
    refine ⟨?_, hwaiting, hscanning⟩
    exact (count_wakeRecipient_run _ _ id).trans hready
  · rw [queued_none rfl]
    exact (count_wakeRecipient_run _ _ other).trans
      (count_ready hhand _ (fun heq => hother (by cases heq; rfl)))
  · rw [queued_none rfl, ← count_ready hhand (.refresh task) (by simp)]
    refine (count_wakeRecipient_refresh _ _ task).trans ?_
    simp only [hended, true_and]
    rfl

theorem Placed.keepGeneration (h : s.Placed) (query : Nat) (outcome : Outcome) :
    Placed { s with db := s.db.keepGeneration query outcome } := by
  cases outcome <;>
    exact h.congr (fun _ => rfl) (fun _ => rfl) rfl rfl rfl rfl rfl (Nat.le_refl _)

theorem Placed.scan (h : s.Placed) {id : Nat} {run : Run} (hscanning : id ∈ s.db.scanning)
    (hrun : s.db.runs[id]? = some run) (store : Store) (result : Except IndexError Answer) :
    Placed
      { s with
        db := (({ s.db with
            store := store
            scanning := s.db.scanning.filter (· != id) }).updateRun id fun other =>
          { other with stage := .scanned result }).wake (.run id) } := by
  obtain ⟨hstage, hqueued, hwaiting⟩ := h.of_scanning hscanning hrun
  have hwoken := queued_wake
    (({ s.db with store := store, scanning := s.db.scanning.filter (· != id) }).updateRun id
      fun other => { other with stage := .scanned result })
    (.run id) s.pending s.telling s.hand
  refine h.of_run { run with stage := .scanned result } hrun (by rw [Run.isOver, hstage])
    (getElem?_updateRun hrun _) rfl ⟨?_, hwaiting, ?_⟩ (fun other hother => ⟨?_, rfl, ?_⟩)
    (fun task => ?_) rfl rfl rfl rfl
  · refine (hwoken (.run id)).trans ?_
    rw [if_pos rfl]
    exact congrArg (· + 1) hqueued
  · show (s.db.scanning.filter (· != id)).count id = 0
    rw [List.count_eq_zero]
    simp
  · refine (hwoken (.run other)).trans ?_
    rw [if_neg (fun heq => hother (by cases heq; rfl))]
    rfl
  · show (s.db.scanning.filter (· != id)).count other = s.db.scanning.count other
    exact List.count_filter (by simpa using hother)
  · refine (hwoken (.refresh task)).trans ?_
    rw [if_neg (by simp), if_neg (by simp [Run.isOver])]
    rfl

/-! ## New runs -/

theorem getElem?_enter (db : Database σ) (run : Run) (id : Nat) :
    (db.enter run).runs[id]? = if id = db.runs.length then some run else db.runs[id]? :=
  Database.getElem?_push db.runs run id

theorem getElem?_enter_of_some {db : Database σ} {id : Nat} {old : Run}
    (hold : db.runs[id]? = some old) (run : Run) : (db.enter run).runs[id]? = some old := by
  have hid := (List.getElem?_eq_some_iff.1 hold).1
  rw [getElem?_enter, if_neg (by omega), hold]

/-- A run that is new can go on. -/
theorem Placed.runs_enter (h : s.Placed) {run : Run} (hnew : run.stage = .waiting)
    (hruns : s'.db.runs = (s.db.enter run).runs)
    (hqueued : ∀ id, s'.queued (.run id) =
      s.queued (.run id) + if id = s.db.runs.length then 1 else 0)
    (hwaiting : s'.db.waiting = s.db.waiting) (hscanning : s'.db.scanning = s.db.scanning)
    (id : Nat) :
    RunAt (s'.queued (.run id)) (s'.db.waiting.count id) (s'.db.scanning.count id)
      (s'.db.runs[id]?.map Run.stage) := by
  have hat := h.runs id
  rw [hruns, getElem?_enter, hqueued, hwaiting, hscanning]
  by_cases hid : id = s.db.runs.length
  · rw [hid, List.getElem?_eq_none (Nat.le_refl _)] at hat
    obtain ⟨hnone, hwaits, hscans⟩ := hat
    rw [if_pos hid, if_pos hid, hid, Option.map_some, hnew, hnone, hwaits, hscans]
    exact ⟨rfl, rfl⟩
  · rw [if_neg hid, if_neg hid]
    exact hat

theorem Placed.submit (h : s.Placed) {run : Run} (hnew : run.stage = .waiting)
    (hrecipient : ∀ task, run.recipient ≠ .refresh task) :
    Placed { s with db := s.db.enter run } := by
  have hwoken := queued_wake { s.db with runs := s.db.runs ++ [run] } (.run s.db.runs.length)
    s.pending s.telling s.hand
  have hqueued : ∀ task, queued { s with db := s.db.enter run } (.refresh task) =
      s.queued (.refresh task) := by
    intro task
    refine (hwoken (.refresh task)).trans ?_
    rw [if_neg (by simp)]
    rfl
  refine ⟨?_, ?_, ?_, ?_, h.attached⟩
  · refine h.runs_enter hnew rfl (fun id => (hwoken (.run id)).trans ?_) rfl rfl
    by_cases hid : id = s.db.runs.length
    · rw [if_pos hid, if_pos (by rw [hid])]
      rfl
    · rw [if_neg hid, if_neg (fun heq => hid (by cases heq; rfl))]
      rfl
  · intro task
    exact (h.refreshes task).congr (fun _ other _ hother =>
      ⟨other, getElem?_enter_of_some hother run, rfl, rfl⟩) (hqueued task) rfl Iff.rfl
  · intro id other task hother hfor hover
    have hold : (s.db.enter run).runs[id]? = some other := hother
    rw [getElem?_enter] at hold
    by_cases hid : id = s.db.runs.length
    · rw [if_pos hid] at hold
      cases hold
      exact absurd hfor (hrecipient task)
    · rw [if_neg hid] at hold
      exact h.awaited id other task hold hfor hover
  · intro task htask
    obtain ⟨id, told, hstage, htold, hover⟩ := h.telling task htask
    exact ⟨id, told, hstage, getElem?_enter_of_some htold run, hover⟩

end Viewbase.Stance
