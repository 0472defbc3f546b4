import Viewbase.Proofs.Database.Attendance
import Viewbase.Proofs.Database.Offstage

/-!
What the dispatch of runs owes and is owed.

Permits are free or held by runs, a registered scan is one of a run or of somebody else, and every
run that has ended is counted under what it came to (`Balanced`).  A step gives the permit of a run
back, ends its registration and counts it before the run has ended; in between the balance keeps
what was done ahead (`Ahead`).  With the places of runs (`Lodged`) it is kept by everything that a
client or a job does (`Roster.perform`).
-/

namespace Viewbase

/-! ## What executions come to -/

/-- What became of an execution. -/
inductive Fate where
  | executed
  | failed
  | cancelled
  deriving DecidableEq, Repr

def fateOf : Outcome → Fate
  | .ok _ => .executed
  | .error .cancelled => .cancelled
  | .error _ => .failed

theorem fateOf_error {error : QueryError} (h : error ≠ .cancelled) :
    fateOf (.error error) = .failed := by
  cases error with
  | cancelled => exact absurd rfl h
  | _ => rfl

/-- How many executions were counted under a fate. -/
def Metrics.counted (m : Metrics) : Fate → Nat
  | .executed => m.executed
  | .failed => m.failed
  | .cancelled => m.cancelled

/-- How many outcomes there are of a fate. -/
def fates (outcomes : List Outcome) (fate : Fate) : Nat :=
  outcomes.countP fun outcome => fateOf outcome == fate

theorem fates_cons (outcome : Outcome) (outcomes : List Outcome) (fate : Fate) :
    fates (outcome :: outcomes) fate =
      fates outcomes fate + if fateOf outcome = fate then 1 else 0 := by
  simp only [fates, List.countP_cons, beq_iff_eq]

theorem fates_append (outcomes later : List Outcome) (fate : Fate) :
    fates (outcomes ++ later) fate = fates outcomes fate + fates later fate :=
  List.countP_append

/-- Every outcome has one fate. -/
theorem fates_total (outcomes : List Outcome) :
    fates outcomes .executed + fates outcomes .failed + fates outcomes .cancelled =
      outcomes.length := by
  induction outcomes with
  | nil => rfl
  | cons outcome outcomes ih =>
    rw [fates_cons, fates_cons, fates_cons, List.length_cons]
    cases fateOf outcome <;> simp <;> omega

/-- Refusals are failures. -/
theorem fates_refusals {errors : List QueryError} (h : ∀ error ∈ errors, error ≠ .cancelled)
    (fate : Fate) : fates (errors.map .error) fate =
      if fate = .failed then errors.length else 0 := by
  induction errors with
  | nil => simp [fates]
  | cons error errors ih =>
    have hlater := ih fun other hother => h other (List.mem_cons_of_mem error hother)
    rw [List.map_cons, fates_cons, hlater, fateOf_error (h error List.mem_cons_self)]
    cases fate <;> rfl

namespace Database

variable {σ : Type} {c : Client σ} {db db' : Database σ} {hand : Option Nat} {id : Nat} {run : Run}

/-- What the runs that have ended came to. -/
def answers (db : Database σ) : List Outcome :=
  (db.runs.filter Run.isOver).map Run.answer

theorem fates_answers (db : Database σ) (fate : Fate) :
    fates db.answers fate =
      db.runs.countP fun run => fateOf run.answer == fate && run.isOver := by
  rw [answers, fates, List.countP_map, List.countP_filter]
  rfl

/-! ## Where runs are -/

/-- Every run is in the place that its stage calls for; the one in hand could go on. -/
def Lodged (db : Database σ) (hand : Option Nat) : Prop :=
  ∀ id, Stance.RunAt (db.ready.count (.run id) + hand.toList.count id) (db.waiting.count id)
    (db.scanning.count id) (db.runs[id]?.map Run.stage)

/-- One run goes on, and all others stay where they are. -/
theorem Lodged.of_run (h : db.Lodged hand) (id : Nat) {hand' : Option Nat}
    (hat : Stance.RunAt (db'.ready.count (.run id) + hand'.toList.count id) (db'.waiting.count id)
      (db'.scanning.count id) (db'.runs[id]?.map Run.stage))
    (hothers : ∀ other, other ≠ id →
      db'.ready.count (.run other) + hand'.toList.count other =
        db.ready.count (.run other) + hand.toList.count other ∧
      db'.waiting.count other = db.waiting.count other ∧
      db'.scanning.count other = db.scanning.count other ∧
      db'.runs[other]?.map Run.stage = db.runs[other]?.map Run.stage) : db'.Lodged hand' := by
  intro other
  by_cases hother : other = id
  · rw [hother]
    exact hat
  · obtain ⟨hqueued, hwaiting, hscanning, hstage⟩ := hothers other hother
    rw [hqueued, hwaiting, hscanning, hstage]
    exact h other

theorem Lodged.apart (h : db.Lodged hand) (hapart : Apart db db') : db'.Lodged hand := by
  intro other
  have hstage := congrArg (Option.map Run.stage) (hapart.runs.getElem? other)
  rw [Option.map_map, Option.map_map] at hstage
  have hsame : db'.runs[other]?.map Run.stage = db.runs[other]?.map Run.stage := hstage
  rw [hapart.ready, hapart.waiting, hapart.scanning, hsame]
  exact h other

/-- Where the run in hand is, and how far it can have come. -/
theorem Lodged.in_hand (h : db.Lodged (some id)) :
    ∃ run, db.runs[id]? = some run ∧ run.stage ≠ .scanning ∧ run.isOver = false ∧
      db.ready.count (.run id) = 0 ∧ db.waiting.count id = 0 ∧ db.scanning.count id = 0 := by
  have hat := h id
  rw [Option.toList_some, List.count_singleton_self] at hat
  cases hrun : db.runs[id]? with
  | none =>
    rw [hrun] at hat
    obtain ⟨hnone, -⟩ := hat
    omega
  | some run =>
    rw [hrun, Option.map_some] at hat
    refine ⟨run, rfl, ?_⟩
    cases hstage : run.stage <;> rw [hstage] at hat
    case waiting =>
      obtain ⟨honce, hscanning⟩ := hat
      exact ⟨by simp, by rw [Run.isOver, hstage], by omega, by omega, hscanning⟩
    case admitted =>
      obtain ⟨honce, hwaiting, hscanning⟩ := hat
      exact ⟨by simp, by rw [Run.isOver, hstage], by omega, hwaiting, hscanning⟩
    case scanning =>
      obtain ⟨hnone, -⟩ := hat
      omega
    case scanned result =>
      obtain ⟨honce, hwaiting, hscanning⟩ := hat
      exact ⟨by simp, by rw [Run.isOver, hstage], by omega, hwaiting, hscanning⟩
    case ended =>
      obtain ⟨hnone, -⟩ := hat
      omega

theorem stage_modify_ne {runs : List Run} {other : Nat} (hother : other ≠ id)
    (change : Run → Run) :
    (runs.modify id change)[other]?.map Run.stage = runs[other]?.map Run.stage := by
  rw [List.getElem?_modify_ne _ _ (Ne.symm hother)]

theorem stage_modify_eq {runs : List Run} (hrun : runs[id]? = some run) (change : Run → Run) :
    (runs.modify id change)[id]?.map Run.stage = some (change run).stage := by
  rw [List.getElem?_modify_eq, hrun]
  rfl

/-- A run that waits for a permit is nowhere else. -/
theorem Lodged.of_waiting (h : db.Lodged hand) (hwaiting : id ∈ db.waiting) :
    ∃ run, db.runs[id]? = some run ∧ run.stage = .waiting ∧
      db.ready.count (.run id) + hand.toList.count id = 0 ∧ db.waiting.count id = 1 ∧
      db.scanning.count id = 0 :=
  (h id).of_waiting (List.count_pos_iff.2 hwaiting)

/-- A scan is under way, once, for a run that says so. -/
theorem Lodged.of_scanning (h : db.Lodged hand) (hscanning : id ∈ db.scanning) :
    ∃ run, db.runs[id]? = some run ∧ run.stage = .scanning ∧
      db.ready.count (.run id) + hand.toList.count id = 0 ∧ db.waiting.count id = 0 ∧
      db.scanning.count id = 1 :=
  (h id).of_scanning (List.count_pos_iff.2 hscanning)

/-! ## The balance -/

/-- What a step has done ahead of the end of the run that it carries on. -/
structure Ahead where
  /-- So many permits that the run holds were given back. -/
  permits : Nat
  /-- The scan that the run has registered was ended. -/
  registration : Option Nat
  /-- The run was counted. -/
  counted : Option Fate

/-- Between two steps nothing is ahead. -/
def Ahead.nothing : Ahead :=
  ⟨0, none, none⟩

/-- Every permit is free or held, every registered scan is one of a run or of others, and every run
that has ended is counted, as are the executions of others that came back. -/
structure Balanced (db : Database σ) (slots : Nat) (ahead : Ahead) (others : Nat → Nat)
    (returned : List Outcome) : Prop where
  permits : db.permits + db.runs.countP Run.holdsPermit = slots + ahead.permits
  guards : bump db.inFlight ahead.registration = guardsOf db.runs others
  submitted : db.metrics.submitted = db.runs.length
  counted : ∀ fate, db.metrics.counted fate =
    fates db.answers fate + fates returned fate + ahead.counted.toList.count fate
  /-- Nothing is delivered before the end. -/
  pending : ∀ run ∈ db.runs, run.isOver = false → run.outcome = none
  /-- A scan is refused for other reasons than that it was cancelled. -/
  refused : ∀ run ∈ db.runs, run.registration ≠ .error .cancelled
  known : db.Known

variable {slots : Nat} {ahead ahead' : Ahead} {others others' : Nat → Nat} {returned : List Outcome}

theorem mem_of_alike {runs runs' : List Run} (h : Alike runs runs') {run' : Run}
    (hrun' : run' ∈ runs') : ∃ run ∈ runs, run.unsteered = run'.unsteered := by
  obtain ⟨i, hi⟩ := List.mem_iff_getElem?.1 hrun'
  obtain ⟨run, hrun, hsame⟩ := Alike.exists_of_getElem? (Eq.symm h) hi
  exact ⟨run, List.mem_of_getElem? hrun, hsame⟩

/-- The balance is kept while no run goes on, but for scans that are registered or ended. -/
theorem Balanced.apart (h : db.Balanced slots ahead others returned) (hapart : Apart db db')
    (registration : Option Nat)
    (hguards : bump db'.inFlight registration = guardsOf db.runs others') :
    db'.Balanced slots { ahead with registration := registration } others' returned where
  permits := by
    rw [hapart.permits, hapart.runs.countP_eq fun run => run.unsteered_holdsPermit]
    exact h.permits
  guards := hguards.trans (hapart.runs.guardsOf_eq others').symm
  submitted := by
    have hsame : db'.metrics.submitted = db.metrics.submitted :=
      congrArg (fun counts => counts.1) hapart.executions
    rw [hsame, hapart.runs.length_eq]
    exact h.submitted
  counted := by
    intro fate
    have hsame : db'.metrics.counted fate = db.metrics.counted fate := by
      have hexecutions := hapart.executions
      simp only [executions, Prod.mk.injEq] at hexecutions
      obtain ⟨-, hexecuted, hfailed, hcancelled⟩ := hexecutions
      cases fate
      · exact hexecuted
      · exact hfailed
      · exact hcancelled
    rw [hsame, fates_answers, hapart.runs.countP_eq fun run => rfl, ← fates_answers]
    exact h.counted fate
  pending := by
    intro run' hrun' hover
    obtain ⟨run, hrun, hsame⟩ := mem_of_alike hapart.runs hrun'
    have houtcome := h.pending run hrun
    rw [← run.unsteered_isOver, ← run.unsteered_outcome, hsame] at houtcome
    exact houtcome hover
  refused := by
    intro run' hrun'
    obtain ⟨run, hrun, hsame⟩ := mem_of_alike hapart.runs hrun'
    have hregistration := h.refused run hrun
    rw [← run.unsteered_registration, hsame] at hregistration
    exact hregistration
  known := hapart.known h.known

theorem Balanced.offstage (h : db.Balanced slots ahead others returned)
    (hoffstage : Offstage db db') : db'.Balanced slots ahead others returned :=
  h.apart hoffstage.toApart _ (hoffstage.inFlight ▸ h.guards)

/-! ## One run goes on -/

theorem bump_cancel {count count' : Nat → Nat} (temporary : Option Nat)
    (h : bump count temporary = bump count' temporary) : count = count' := by
  funext id
  have hid := congrFun h id
  simp only [bump] at hid
  exact Nat.add_right_cancel hid

/-- How the end of a run counts. -/
def tallied (run : Run) (fate : Fate) : Nat :=
  if fateOf run.answer == fate && run.isOver then 1 else 0

theorem tallied_of_not_over (h : run.isOver = false) (fate : Fate) : tallied run fate = 0 := by
  rw [tallied, h, Bool.and_false]
  rfl

/-- What one run takes and leaves must even out with what is ahead. -/
theorem Balanced.of_run (h : db.Balanced slots ahead others returned)
    (hrun : db.runs[id]? = some run) (change : Run → Run)
    (hruns : db'.runs = db.runs.modify id change)
    (hmetrics : db'.metrics = db.metrics) (hqueries : db'.queries = db.queries)
    (htemporaries : db'.temporaries = db.temporaries)
    (hpermits : db'.permits + (if (change run).holdsPermit then 1 else 0) + ahead.permits =
      db.permits + (if run.holdsPermit then 1 else 0) + ahead'.permits)
    (hguards : bump (bump db.inFlight ahead'.registration) run.registered? =
      bump (bump db.inFlight ahead.registration) (change run).registered?)
    (hcounted : ∀ fate, ahead'.counted.toList.count fate + tallied (change run) fate =
      ahead.counted.toList.count fate + tallied run fate)
    (hpending : (change run).isOver = false → (change run).outcome = none)
    (hregistration : (change run).registration = run.registration) :
    db'.Balanced slots ahead' others returned where
  permits := by
    have hheld := countP_modify hrun change Run.holdsPermit
    have hbefore := h.permits
    rw [hruns]
    omega
  guards := by
    have hsame : db'.inFlight = db.inFlight := by
      funext temporary
      rw [inFlight, inFlight, htemporaries]
    rw [hsame, hruns]
    refine bump_cancel run.registered? ?_
    rw [hguards, h.guards, ← bump_guardsOf, ← bump_guardsOf, guardsOf_modify hrun]
  submitted := by
    rw [hmetrics, hruns, List.length_modify]
    exact h.submitted
  counted := by
    intro fate
    have hended := countP_modify hrun change fun run => fateOf run.answer == fate && run.isOver
    have hbefore := h.counted fate
    have hfate := hcounted fate
    rw [fates_answers] at hbefore
    rw [hmetrics, fates_answers, hruns]
    simp only [tallied] at hfate
    omega
  pending := by
    intro other hother
    rw [hruns] at hother
    rcases mem_modify_of_some hrun hother with rfl | hold
    · exact hpending
    · exact h.pending other hold
  refused := by
    intro other hother
    rw [hruns] at hother
    rcases mem_modify_of_some hrun hother with rfl | hold
    · rw [hregistration]
      exact h.refused run (List.mem_of_getElem? hrun)
    · exact h.refused other hold
  known := by
    rw [Known, hqueries, htemporaries]
    exact h.known

/-- A run goes on without an end and keeps what it holds. -/
theorem Balanced.updateRun (h : db.Balanced slots ahead others returned)
    (hrun : db.runs[id]? = some run) (hover : run.isOver = false) (change : Run → Run)
    (hheld : (change run).holdsPermit = run.holdsPermit)
    (hregistered : (change run).registered? = run.registered?)
    (hover' : (change run).isOver = false) (houtcome : (change run).outcome = run.outcome)
    (hregistration : (change run).registration = run.registration) :
    (db.updateRun id change).Balanced slots ahead others returned := by
  refine h.of_run hrun change rfl rfl rfl rfl ?_ ?_ (fun fate => ?_) (fun _ => ?_) hregistration
  · rw [hheld]
    rfl
  · rw [hregistered]
  · rw [tallied_of_not_over hover, tallied_of_not_over hover']
  · rw [houtcome]
    exact h.pending run (List.mem_of_getElem? hrun) hover

/-! ## What is done ahead -/

theorem Balanced.count {permits : Nat} {registration : Option Nat}
    (h : db.Balanced slots ⟨permits, registration, none⟩ others returned)
    (change : Metrics → Metrics) (fate : Fate)
    (hsubmitted : (change db.metrics).submitted = db.metrics.submitted)
    (hcounted : ∀ other, (change db.metrics).counted other =
      db.metrics.counted other + if other = fate then 1 else 0) :
    (db.count change).Balanced slots ⟨permits, registration, some fate⟩ others returned :=
  { h with
    submitted := hsubmitted.trans h.submitted
    counted := by
      intro other
      have hbefore := h.counted other
      have hone : [fate].count other = if other = fate then 1 else 0 := by
        by_cases hother : other = fate
        · simp [hother]
        · simp [hother, Ne.symm hother]
      exact (hcounted other).trans (by rw [hbefore, ← hone]; rfl) }

theorem Balanced.countCancelled {permits : Nat} {registration : Option Nat}
    (h : db.Balanced slots ⟨permits, registration, none⟩ others returned) (stage : String) :
    (db.countCancelled stage).Balanced slots ⟨permits, registration, some .cancelled⟩ others
      returned :=
  (h.count _ .cancelled rfl fun other => by cases other <;> rfl).offstage (offstage_note _ _ _)

/-- An execution is counted under what it came to. -/
theorem Balanced.complete {permits : Nat} {registration : Option Nat}
    (h : db.Balanced slots ⟨permits, registration, none⟩ others returned) (query : Nat)
    (target : Target) (result : Except IndexError Answer) :
    (db.complete query target result).1.Balanced slots
      ⟨permits, registration, some (fateOf (db.complete query target result).2)⟩ others
      returned := by
  cases result with
  | ok answer =>
    have hkept := h.offstage (offstage_updateQuery db query
      (fun q => { q with lastGeneration := some answer.generation }) fun _ _ h => h)
    exact (hkept.count _ .executed rfl fun other => by cases other <;> rfl).offstage
      (offstage_note _ _ _)
  | error error =>
    have hfate : fateOf (db.complete query target (.error error)).2 = .failed :=
      fateOf_error (Stance.ne_cancelled_of_failed error _)
    rw [hfate]
    exact (h.count _ .failed rfl fun other => by cases other <;> rfl).offstage (offstage_note _ _ _)

/-- What was counted is no longer ahead once it has come back to somebody else than a run. -/
theorem Balanced.comeBack {permits : Nat} {registration : Option Nat} {outcome : Outcome}
    (h : db.Balanced slots ⟨permits, registration, some (fateOf outcome)⟩ others returned) :
    db.Balanced slots ⟨permits, registration, none⟩ others (outcome :: returned) :=
  { h with
    counted := by
      intro fate
      have hbefore := h.counted fate
      rw [Option.toList_some, List.count_singleton] at hbefore
      rw [hbefore, fates_cons, Option.toList_none, List.count_nil]
      simp only [beq_iff_eq]
      omega }

/-- The scan that a run has registered ends. -/
theorem Balanced.endRegistration (hc : c.Passive) {permits : Nat} {counted : Option Fate}
    (h : db.Balanced slots ⟨permits, none, counted⟩ others returned) (temporary : Option Nat)
    (hheld : ∀ id, temporary = some id → 0 < guardsOf db.runs others id) :
    (db.endRegistration c temporary).Balanced slots ⟨permits, temporary, counted⟩ others
      returned := by
  have hguards : db.inFlight = guardsOf db.runs others := (bump_none _).symm.trans h.guards
  refine h.apart (apart_endRegistration hc temporary db) temporary ?_
  rw [inFlight_endRegistration hc fun id hid => by rw [hguards]; exact hheld id hid]
  exact hguards

theorem guardsOf_pos (hrun : run ∈ db.runs) {temporary : Nat}
    (hregistered : run.registered? = some temporary) : 0 < guardsOf db.runs others temporary := by
  have hone : 0 < registrants db.runs temporary :=
    List.countP_pos_iff.2 ⟨run, hrun, by rw [hregistered]; exact beq_self_eq_true _⟩
  exact Nat.lt_of_lt_of_le hone (Nat.le_add_right _ _)

/-- A permit is given back, and goes to the first run that waits for one. -/
theorem Balanced.givePermit (hlodged : db.Lodged hand) {permits : Nat} {registration : Option Nat}
    {counted : Option Fate}
    (h : db.Balanced slots ⟨permits, registration, counted⟩ others returned) :
    db.givePermit.Balanced slots ⟨permits + 1, registration, counted⟩ others returned := by
  cases hwaiting : db.waiting with
  | nil =>
    rw [Stance.givePermit_of_nil hwaiting]
    have hpermits := h.permits
    refine { h with permits := ?_ }
    dsimp only at hpermits ⊢
    omega
  | cons next rest =>
    obtain ⟨run, hrun, hstage, -⟩ :=
      hlodged.of_waiting (show next ∈ db.waiting by rw [hwaiting]; exact List.mem_cons_self)
    rw [Stance.givePermit_of_cons hwaiting]
    have hover : run.isOver = false := by rw [Run.isOver, hstage]
    refine h.of_run hrun (fun run => { run with stage := .admitted }) rfl rfl rfl rfl
      ?_ ?_ (fun fate => ?_) (fun _ => h.pending run (List.mem_of_getElem? hrun) hover) rfl
    · have hheld : run.holdsPermit = false := by rw [Run.holdsPermit, hstage]
      rw [hheld]
      simp [Run.holdsPermit, wake, Database.updateRun]
      omega
    · rw [registered?_permitted hstage]
    · rw [tallied_of_not_over hover, tallied_of_not_over rfl]

theorem Lodged.givePermit (h : db.Lodged hand) : db.givePermit.Lodged hand := by
  cases hwaiting : db.waiting with
  | nil =>
    rw [Stance.givePermit_of_nil hwaiting]
    exact h
  | cons next rest =>
    obtain ⟨run, hrun, hstage, hqueued, honce, hscanning⟩ :=
      h.of_waiting (show next ∈ db.waiting by rw [hwaiting]; exact List.mem_cons_self)
    rw [hwaiting, List.count_cons_self] at honce
    rw [Stance.givePermit_of_cons hwaiting]
    refine h.of_run next ?_ fun other hother => ?_
    · dsimp only [wake, Database.updateRun]
      rw [stage_modify_eq hrun, List.count_append, List.count_singleton_self]
      exact ⟨by omega, by omega, hscanning⟩
    · dsimp only [wake, Database.updateRun]
      rw [hwaiting, List.count_cons_of_ne (Ne.symm hother), stage_modify_ne hother,
        List.count_append, List.count_singleton, if_neg (by simpa using Ne.symm hother)]
      exact ⟨rfl, rfl, rfl, rfl⟩

/-! ## Steps of runs -/

/-- The run in hand takes a permit and stays in hand, or waits for one. -/
theorem Balanced.takePermit (h : db.Balanced slots ahead others returned)
    (hrun : db.runs[id]? = some run) (hstage : run.stage = .waiting) :
    (db.takePermit id).Balanced slots ahead others returned := by
  have hover : run.isOver = false := by rw [Run.isOver, hstage]
  have hheld : run.holdsPermit = false := by rw [Run.holdsPermit, hstage]
  rw [Database.takePermit]
  split
  next hpermits =>
    refine h.of_run hrun (fun run => { run with stage := .admitted }) rfl rfl rfl rfl
      ?_ ?_ (fun fate => ?_) (fun _ => h.pending run (List.mem_of_getElem? hrun) hover) rfl
    · rw [hheld]
      simp [Run.holdsPermit]
      omega
    · rw [registered?_permitted hstage]
    · rw [tallied_of_not_over hover, tallied_of_not_over rfl]
  · exact { h with }

theorem Lodged.permit (h : db.Lodged (some id)) (hrun : db.runs[id]? = some run)
    (hpermits : 0 < db.permits) : (db.takePermit id).Lodged (some id) := by
  obtain ⟨found, hfound, -, -, hready, hwaiting, hscanning⟩ := h.in_hand
  rw [Database.takePermit, if_pos hpermits]
  refine h.of_run id ?_ fun other hother => ⟨rfl, rfl, rfl, stage_modify_ne hother _⟩
  dsimp only [Database.updateRun]
  rw [stage_modify_eq hrun, Option.toList_some, List.count_singleton_self]
  exact ⟨by omega, hwaiting, hscanning⟩

theorem count_hand_ne {other : Nat} (hother : other ≠ id) : (some id).toList.count other = 0 := by
  rw [Option.toList_some, List.count_singleton, if_neg (by simpa using Ne.symm hother)]

theorem Lodged.queue (h : db.Lodged (some id)) (hrun : db.runs[id]? = some run)
    (hstage : run.stage = .waiting) (hpermits : ¬0 < db.permits) :
    (db.takePermit id).Lodged none := by
  obtain ⟨found, hfound, -, -, hready, hwaiting, hscanning⟩ := h.in_hand
  rw [Database.takePermit, if_neg hpermits]
  refine h.of_run id ?_ fun other hother => ⟨?_, ?_, rfl, rfl⟩
  · dsimp only
    rw [hrun, Option.map_some, hstage, List.count_append, List.count_singleton_self]
    exact ⟨by simp [hready, hwaiting], hscanning⟩
  · rw [count_hand_ne hother]
    rfl
  · dsimp only
    rw [List.count_append, List.count_singleton, if_neg (by simpa using Ne.symm hother)]
    rfl

/-- The scan of the run in hand is put under way. -/
theorem Lodged.startRun (h : db.Lodged (some id)) (hrun : db.runs[id]? = some run)
    {change : Run → Run} (hstage : (change run).stage = .scanning) :
    Lodged { db.updateRun id change with scanning := db.scanning ++ [id] } none := by
  obtain ⟨found, hfound, -, -, hready, hwaiting, hscanning⟩ := h.in_hand
  refine h.of_run id ?_ fun other hother => ⟨?_, rfl, ?_, stage_modify_ne hother _⟩
  · dsimp only [Database.updateRun]
    rw [stage_modify_eq hrun, hstage, List.count_append, List.count_singleton_self]
    exact ⟨by simp [hready], hwaiting, by omega⟩
  · rw [count_hand_ne hother]
    rfl
  · dsimp only
    rw [List.count_append, List.count_singleton, if_neg (by simpa using Ne.symm hother)]
    rfl

/-- The run in hand ends. -/
theorem Lodged.endRun (h : db.Lodged (some id)) (hrun : db.runs[id]? = some run)
    {change : Run → Run} (hstage : (change run).stage = .ended) (recipient : Recipient) :
    ((db.updateRun id change).wakeRecipient recipient).Lodged none := by
  obtain ⟨found, hfound, -, -, hready, hwaiting, hscanning⟩ := h.in_hand
  have hended : (db.updateRun id change).Lodged none := by
    refine h.of_run id ?_ fun other hother => ⟨?_, rfl, rfl, stage_modify_ne hother _⟩
    · dsimp only [Database.updateRun]
      rw [stage_modify_eq hrun, hstage]
      exact ⟨by simp [hready], hwaiting, hscanning⟩
    · rw [count_hand_ne hother]
      rfl
  exact hended.apart (offstage_wakeRecipient recipient _).toApart

/-- A run ends whose permit was given back, whose registered scan was ended, and which was counted
under what it came to. -/
theorem Balanced.endRun {fate : Fate}
    (h : db.Balanced slots ⟨1, run.registered?, some fate⟩ others returned)
    (hrun : db.runs[id]? = some run) (hover : run.isOver = false) (hheld : run.holdsPermit = true)
    {change : Run → Run} (hstage : (change run).stage = .ended)
    (hregistration : (change run).registration = run.registration)
    (hfate : fateOf (change run).answer = fate) (recipient : Recipient) :
    ((db.updateRun id change).wakeRecipient recipient).Balanced slots .nothing others returned := by
  have hover' : (change run).isOver = true := by rw [Run.isOver, hstage]
  have hended : (db.updateRun id change).Balanced slots .nothing others returned := by
    refine h.of_run hrun change rfl rfl rfl rfl ?_ ?_ (fun other => ?_) (fun hnot => ?_)
      hregistration
    · have hreleased : (change run).holdsPermit = false := by rw [Run.holdsPermit, hstage]
      rw [hheld, hreleased]
      rfl
    · have hnone : (change run).registered? = none := by rw [Run.registered?, hstage]
      rw [hnone]
      simp [Ahead.nothing]
    · rw [tallied, tallied, hover, hover', hfate, Bool.and_true, Bool.and_false]
      by_cases hother : other = fate
      · simp [Ahead.nothing, hother]
      · simp [Ahead.nothing, Ne.symm hother]
    · rw [hover'] at hnot
      cases hnot
  exact hended.offstage (offstage_wakeRecipient recipient _)

theorem deliver_passive (hc : c.Passive) (id : Nat) (recipient : Recipient) (outcome : Outcome)
    (db : Database σ) : db.deliver c id recipient outcome =
      (db.updateRun id fun run =>
        { run with stage := .ended, outcome := some outcome }).wakeRecipient recipient := by
  cases recipient with
  | callback callback => exact hc.notify callback (.completed outcome) _
  | _ => rfl

/-- Runs, their registered scans and their permits between two steps. -/
structure Roster (db : Database σ) (slots : Nat) (others : Nat → Nat) (returned : List Outcome) :
    Prop where
  lodged : db.Lodged none
  balanced : db.Balanced slots .nothing others returned

theorem Roster.offstage (h : db.Roster slots others returned) (hoffstage : Offstage db db') :
    db'.Roster slots others returned :=
  ⟨h.lodged.apart hoffstage.toApart, h.balanced.offstage hoffstage⟩

/-- It is no matter in which order executions of others came back. -/
theorem Roster.perm (h : db.Roster slots others returned) {returned' : List Outcome}
    (hperm : returned.Perm returned') : db.Roster slots others returned' where
  lodged := h.lodged
  balanced := { h.balanced with
    counted := by
      intro fate
      have hsame : fates returned fate = fates returned' fate := hperm.countP_eq _
      rw [← hsame]
      exact h.balanced.counted fate }

/-- The run in hand is over, and its outcome is delivered. -/
theorem roster_deliver (hc : c.Passive) (hlodged : db.Lodged (some id))
    (hrun : db.runs[id]? = some run) (hheld : run.holdsPermit = true) (outcome : Outcome)
    (h : db.Balanced slots ⟨1, run.registered?, some (fateOf outcome)⟩ others returned)
    (recipient : Recipient) : (db.deliver c id recipient outcome).Roster slots others returned := by
  obtain ⟨found, hfound, -, hover, -⟩ := hlodged.in_hand
  rw [hrun] at hfound
  cases hfound
  rw [deliver_passive hc]
  exact ⟨hlodged.endRun hrun rfl recipient, h.endRun hrun hover hheld rfl rfl rfl recipient⟩

/-- The run in hand was not cancelled meanwhile: it is over with its outcome. -/
theorem roster_conclude (hc : c.Passive) (hlodged : db.Lodged (some id))
    (hrun : db.runs[id]? = some run) (hheld : run.holdsPermit = true)
    (hnone : run.registered? = none) {started : Run} (hstarted : started.control = .running)
    {outcome : Database σ → Database σ × Outcome} {counted : Option Fate}
    (h : db.Balanced slots ⟨1, none, counted⟩ others returned)
    (hruns : ∀ db : Database σ, (outcome db).1.runs = db.runs)
    (hlodges : ∀ db : Database σ, db.Lodged (some id) → (outcome db).1.Lodged (some id))
    (hcounts : ∀ db : Database σ, db.Balanced slots ⟨1, none, counted⟩ others returned →
      (outcome db).1.Balanced slots ⟨1, none, some (fateOf (outcome db).2)⟩ others returned) :
    (db.conclude c id started outcome).Roster slots others returned := by
  obtain ⟨done, hdone⟩ :
      ∃ done, done = db.updateRun id fun run => { run with control := .done } := ⟨_, rfl⟩
  have hoffstage : Offstage db done := by
    rw [hdone]
    exact offstage_updateRun db id fun _ => rfl
  have hrun' : (outcome done).1.runs[id]? = some { run with control := .done } := by
    rw [hruns, hdone]
    simp [Database.updateRun, hrun]
  have hcounted := hcounts done (h.offstage hoffstage)
  rw [conclude, hstarted]
  simp only [Control.finish]
  rw [← hdone]
  rw [← hnone] at hcounted
  exact roster_deliver hc (hlodges done (hlodged.apart hoffstage.toApart)) hrun' hheld _ hcounted
    started.recipient

/-- The run in hand was cancelled meanwhile: it is counted so, and comes to that. -/
theorem roster_discard (hc : c.Passive) (hlodged : db.Lodged (some id))
    (hrun : db.runs[id]? = some run) (hheld : run.holdsPermit = true)
    (hnone : run.registered? = none) (hcontrol : run.control ≠ .running)
    (h : db.Balanced slots ⟨1, none, none⟩ others returned)
    (outcome : Database σ → Database σ × Outcome) :
    (db.conclude c id run outcome).Roster slots others returned := by
  have hcounted := h.countCancelled "after_start"
  have hlodged' : (db.countCancelled "after_start").Lodged (some id) := hlodged
  rw [← hnone] at hcounted
  have hdelivered :=
    roster_deliver hc hlodged' hrun hheld (.error .cancelled) hcounted run.recipient
  rw [conclude]
  cases hcancelled : run.control with
  | running => exact absurd hcancelled hcontrol
  | _ => exact hdelivered

/-- A run whose scan has ended gives its permit back and is over. -/
theorem roster_finishRun (hc : c.Passive) (hlodged : db.Lodged (some id))
    (h : db.Balanced slots .nothing others returned) (hrun : db.runs[id]? = some run)
    {result : Except IndexError Answer} (hstage : run.stage = .scanned result) :
    (db.finishRun c id result).Roster slots others returned := by
  have hheld : run.holdsPermit = true := by rw [Run.holdsPermit, hstage]
  have hnone : run.registered? = none := by rw [Run.registered?, hstage]
  have hgiven := h.givePermit hlodged
  have hrun' : db.givePermit.runs[id]? = some run := by
    obtain ⟨-, -, -, -, -, hwaiting, -⟩ := hlodged.in_hand
    exact (Stance.runs_givePermit (List.count_eq_zero.1 hwaiting)).trans hrun
  simp only [finishRun, hrun]
  cases hcontrol : run.control with
  | running =>
    refine roster_conclude hc hlodged.givePermit hrun' hheld hnone hcontrol hgiven (fun db => ?_)
      (fun db hlodged => ?_) fun db h => h.complete _ _ _
    · cases result <;> rfl
    · cases result <;> exact hlodged
  | _ => exact roster_discard hc hlodged.givePermit hrun' hheld hnone (by simp [hcontrol]) hgiven _

/-- A run that was cancelled before it started, and counted, gives up what it holds and ends. -/
theorem roster_abandon (hc : c.Passive) (hlodged : db.Lodged (some id))
    (h : db.Balanced slots ⟨0, none, some .cancelled⟩ others returned)
    (hrun : db.runs[id]? = some run) (hstage : run.stage = .admitted) :
    ((db.givePermit.endRegistration c run.registered?).abandon id run.recipient).Roster slots others
      returned := by
  obtain ⟨-, -, -, -, -, hwaiting, -⟩ := hlodged.in_hand
  have hrun' : db.givePermit.runs[id]? = some run :=
    (Stance.runs_givePermit (List.count_eq_zero.1 hwaiting)).trans hrun
  have hended := (h.givePermit hlodged).endRegistration hc run.registered?
    fun temporary hid => guardsOf_pos (List.mem_of_getElem? hrun') hid
  have hapart := apart_endRegistration hc run.registered? db.givePermit
  obtain ⟨left, hleft, hsame⟩ := hapart.runs.exists_of_getElem? hrun'
  have hstage' : left.stage = .admitted := by
    rw [← left.unsteered_stage, hsame, run.unsteered_stage, hstage]
  have hover : left.isOver = false := by rw [Run.isOver, hstage']
  have hregistered : run.registered? = left.registered? := by
    rw [← left.unsteered_registered?, hsame, run.unsteered_registered?]
  have hfate : fateOf (Run.answer { left with stage := .ended }) = .cancelled := by
    have hpending := hended.pending left (List.mem_of_getElem? hleft) hover
    rw [Run.answer]
    dsimp only
    rw [hpending]
    rfl
  rw [hregistered] at hended hleft hapart ⊢
  have hheld : left.holdsPermit = true := by rw [Run.holdsPermit, hstage']
  exact ⟨(hlodged.givePermit.apart hapart).endRun hleft rfl run.recipient,
    hended.endRun hleft hover hheld rfl rfl hfate run.recipient⟩

theorem registered?_admitted (hstage : run.stage = .admitted) :
    run.registered? = registered? run.registration := by
  rw [Run.registered?, hstage]
  cases run.registration <;> rfl

/-- A run that was started, and counted as failed, ends with the refusal of its scan. -/
theorem roster_refuse (hc : c.Passive) (hlodged : db.Lodged (some id))
    (h : db.Balanced slots ⟨0, none, some .failed⟩ others returned)
    (hrun : db.runs[id]? = some run)
    (hstage : run.stage = .admitted) (hcontrol : run.control = .running) {error : QueryError}
    (hregistration : run.registration = .error error) :
    (db.givePermit.conclude c id run fun db => (db, .error error)).Roster slots others
      returned := by
  obtain ⟨-, -, -, -, -, hwaiting, -⟩ := hlodged.in_hand
  have hrun' : db.givePermit.runs[id]? = some run :=
    (Stance.runs_givePermit (List.count_eq_zero.1 hwaiting)).trans hrun
  have hheld : run.holdsPermit = true := by rw [Run.holdsPermit, hstage]
  have hnone : run.registered? = none := by
    rw [registered?_admitted hstage, hregistration]
    rfl
  have hfate : fateOf (.error error) = .failed := fateOf_error fun heq =>
    h.refused run (List.mem_of_getElem? hrun) (hregistration.trans (congrArg _ heq))
  refine roster_conclude hc hlodged.givePermit hrun' hheld hnone hcontrol (h.givePermit hlodged)
    (fun _ => rfl) (fun _ hlodged => hlodged) fun _ h => ?_
  rw [hfate]
  exact h

/-- An admitted run starts, or ends at once if it was cancelled or its scan was refused. -/
theorem roster_startRun (hc : c.Passive) (hlodged : db.Lodged (some id))
    (h : db.Balanced slots .nothing others returned) (hrun : db.runs[id]? = some run)
    (hstage : run.stage = .admitted) : (db.startRun c id).Roster slots others returned := by
  have hregistered := registered?_admitted hstage
  have hheld : run.holdsPermit = true := by rw [Run.holdsPermit, hstage]
  have hover : run.isOver = false := by rw [Run.isOver, hstage]
  cases hcontrol : run.control with
  | pending =>
    cases hregistration : run.registration with
    | ok temporary =>
      simp only [startRun, hrun, hcontrol, Control.start, hregistration]
      refine ⟨hlodged.startRun hrun rfl, ?_⟩
      have hstarted := h.updateRun hrun hover
        (fun run => { run with control := .running, stage := .scanning })
        hheld.symm ?_ rfl rfl rfl
      · exact { hstarted with }
      · rw [hregistered, Run.registered?]
        cases run.registration <;> rfl
    | error error =>
      simp only [startRun, hrun, hcontrol, Control.start, hregistration]
      obtain ⟨started, hstarted⟩ :
          ∃ started, started = db.updateRun id fun run => { run with control := .running } :=
        ⟨_, rfl⟩
      have hoffstage : Offstage db started := by
        rw [hstarted]
        exact offstage_updateRun db id fun _ => rfl
      have hrun' : started.runs[id]? = some { run with control := .running } := by
        rw [hstarted]
        simp [Database.updateRun, hrun]
      have hlodged' : started.Lodged (some id) := hlodged.apart hoffstage.toApart
      have hfailed := (h.offstage hoffstage).count
        (fun m => { m with failed := m.failed + 1 }) .failed rfl fun other => by
          cases other <;> rfl
      rw [← hstarted]
      exact @roster_refuse σ c (started.count fun m => { m with failed := m.failed + 1 }) id
        { run with control := .running } slots others returned hc hlodged' hfailed hrun' hstage rfl
        error hregistration
  | _ =>
    have habandoned := roster_abandon hc
      (show (db.countCancelled "before_start").Lodged (some id) from hlodged)
      (h.countCancelled "before_start") hrun hstage
    cases hregistration : run.registration <;>
      simp only [startRun, hrun, hcontrol, Control.start, hregistration] <;>
      simpa only [hregistered, hregistration, registered?, endRegistration] using habandoned

/-- The run in hand goes on as far as it can. -/
theorem roster_pollRun (hc : c.Passive) (hlodged : db.Lodged (some id))
    (h : db.Balanced slots .nothing others returned) :
    (db.pollRun c id).Roster slots others returned := by
  obtain ⟨run, hrun, hscanning, hover, -⟩ := hlodged.in_hand
  simp only [pollRun, hrun, Option.map_some]
  cases hstage : run.stage with
  | waiting =>
    have htaken := h.takePermit hrun hstage
    dsimp only
    by_cases hpermits : 0 < db.permits
    · rw [if_pos hpermits]
      have hrun' : (db.takePermit id).runs[id]? = some { run with stage := .admitted } := by
        rw [takePermit, if_pos hpermits]
        simp [Database.updateRun, hrun]
      exact roster_startRun hc (hlodged.permit hrun hpermits) htaken hrun' rfl
    · rw [if_neg hpermits]
      exact ⟨hlodged.queue hrun hstage hpermits, htaken⟩
  | admitted => exact roster_startRun hc hlodged h hrun hstage
  | scanned result => exact roster_finishRun hc hlodged h hrun hstage
  | scanning => exact absurd hstage hscanning
  | ended =>
    rw [Run.isOver, hstage] at hover
    cases hover

theorem Lodged.scanned (h : db.Lodged none) (hscanning : id ∈ db.scanning)
    (hapart : Apart { db with scanning := db.scanning.filter (· != id) } db')
    (hrun : db'.runs[id]? = some run) (result : Except IndexError Answer) :
    ((db'.updateRun id fun run => { run with stage := .scanned result }).wake
      (.run id)).Lodged none := by
  obtain ⟨-, -, -, hqueued, hwaiting, -⟩ := h.of_scanning hscanning
  refine h.of_run id ?_ fun other hother => ?_
  · dsimp only [wake, Database.updateRun]
    rw [stage_modify_eq hrun, List.count_append, List.count_singleton_self, hapart.ready,
      hapart.waiting, hapart.scanning]
    refine ⟨Nat.succ_inj.2 hqueued, hwaiting, ?_⟩
    rw [List.count_eq_zero]
    simp
  · have hstages := congrArg (Option.map Run.stage) (hapart.runs.getElem? other)
    rw [Option.map_map, Option.map_map] at hstages
    dsimp only [wake, Database.updateRun]
    rw [stage_modify_ne hother, List.count_append, List.count_singleton,
      if_neg (by simpa using Ne.symm hother), hapart.ready, hapart.waiting, hapart.scanning,
      List.count_filter (by simpa using hother)]
    exact ⟨rfl, rfl, rfl, hstages⟩

/-- The scan of a run ended; the run keeps its permit and can go on. -/
theorem Balanced.scanned (h : db.Balanced slots ⟨0, run.registered?, none⟩ others returned)
    (hrun : db.runs[id]? = some run) (hstage : run.stage = .scanning)
    (result : Except IndexError Answer) :
    ((db.updateRun id fun run => { run with stage := .scanned result }).wake (.run id)).Balanced
      slots .nothing others returned := by
  have hover : run.isOver = false := by rw [Run.isOver, hstage]
  have hheld : run.holdsPermit = true := by rw [Run.holdsPermit, hstage]
  refine h.of_run hrun (fun run => { run with stage := .scanned result }) rfl rfl rfl rfl
    ?_ ?_ (fun fate => ?_) (fun _ => h.pending run (List.mem_of_getElem? hrun) hover) rfl
  · rw [hheld]
    rfl
  · have hnone : Run.registered? { run with stage := .scanned result } = none := rfl
    rw [hnone]
    simp [Ahead.nothing]
  · rw [tallied_of_not_over hover, tallied_of_not_over rfl]
    rfl

theorem Roster.scanRun (hc : c.Passive) (h : db.Roster slots others returned)
    (hscanning : id ∈ db.scanning) : (db.scanRun c id).Roster slots others returned := by
  obtain ⟨run, hrun, hstage, -⟩ := h.lodged.of_scanning hscanning
  simp only [Database.scanRun, hrun]
  obtain ⟨cleared, hcleared⟩ :
      ∃ cleared, cleared = { db with scanning := db.scanning.filter (· != id) } := ⟨_, rfl⟩
  have hbalanced : cleared.Balanced slots .nothing others returned := by
    rw [hcleared]
    exact { h.balanced with }
  have hrun' : cleared.runs[id]? = some run := by rw [hcleared, hrun]
  rw [← hcleared]
  have hscanned := offstage_scan hc run.request cleared
  have hapart := hscanned.toApart.trans
    (apart_endRegistration hc run.registered? (cleared.scan c run.request).1)
  have hended := (hbalanced.offstage hscanned).endRegistration hc run.registered?
    fun temporary hid => by
      rw [hscanned.runs.guardsOf_eq]
      exact guardsOf_pos (List.mem_of_getElem? hrun') hid
  obtain ⟨left, hleft, hsame⟩ := hapart.runs.exists_of_getElem? hrun'
  have hstage' : left.stage = .scanning := by
    rw [← left.unsteered_stage, hsame, run.unsteered_stage, hstage]
  have hregistered : run.registered? = left.registered? := by
    rw [← left.unsteered_registered?, hsame, run.unsteered_registered?]
  generalize (cleared.scan c run.request).1.endRegistration c run.registered? = ended
    at hapart hended hleft ⊢
  rw [hregistered] at hended
  exact ⟨h.lodged.scanned hscanning (hcleared ▸ hapart) hleft _, hended.scanned hleft hstage' _⟩

/-! ## Actions -/

/-- A run that is new can go on. -/
theorem Lodged.enter (h : db.Lodged none) (run : Run) (hstage : run.stage = .waiting) :
    (db.enter run).Lodged none := by
  refine h.of_run db.runs.length ?_ fun other hother => ⟨?_, rfl, rfl, ?_⟩
  · have hnew := h db.runs.length
    rw [List.getElem?_eq_none (Nat.le_refl _)] at hnew
    obtain ⟨hqueued, hwaiting, hscanning⟩ := hnew
    dsimp only [Database.enter, wake]
    rw [getElem?_push, if_pos rfl, Option.map_some, hstage, List.count_append,
      List.count_singleton_self]
    exact ⟨by omega, hscanning⟩
  · dsimp only [Database.enter, wake]
    rw [List.count_append, List.count_singleton, if_neg (by simpa using Ne.symm hother)]
    rfl
  · dsimp only [Database.enter, wake]
    rw [getElem?_push, if_neg hother]

/-- A run that is new brings the scan that it has registered along, and was counted. -/
theorem Balanced.enter (h : db.Balanced slots .nothing (bump others run.registered?) returned)
    (hstage : run.stage = .waiting) (houtcome : run.outcome = none)
    (hregistration : run.registration ≠ .error .cancelled) :
    ((db.count fun m => { m with submitted := m.submitted + 1 }).enter run).Balanced slots .nothing
      others returned where
  permits := by
    have hheld : run.holdsPermit = false := by rw [Run.holdsPermit, hstage]
    have hbefore := h.permits
    simp [Database.enter, wake, Database.count, List.countP_append, hheld]
    omega
  guards := by
    have hpushed := guardsOf_push db.runs run others
    exact h.guards.trans hpushed.symm
  submitted := by
    simp [Database.enter, wake, Database.count, h.submitted]
  counted := by
    intro fate
    have hover : run.isOver = false := by rw [Run.isOver, hstage]
    have hbefore := h.counted fate
    rw [fates_answers] at hbefore ⊢
    simp only [Database.enter, wake, Database.count, List.countP_append, List.countP_singleton,
      hover, Bool.and_false, Bool.false_eq_true, if_false, Nat.add_zero]
    refine Eq.trans ?_ hbefore
    cases fate <;> rfl
  pending := by
    intro other hother hover
    rcases List.mem_append.1 hother with hold | hnew
    · exact h.pending other hold hover
    · rw [List.mem_singleton.1 hnew]
      exact houtcome
  refused := by
    intro other hother
    rcases List.mem_append.1 hother with hold | hnew
    · exact h.refused other hold
    · rw [List.mem_singleton.1 hnew]
      exact hregistration
  known := h.known

/-- A scan is registered, or refused, for somebody else than a run. -/
theorem Roster.register (h : db.Roster slots others returned) (query : Nat) :
    (db.register query).1.Roster slots (bump others (registered? (db.register query).2))
      returned := by
  obtain ⟨hapart, hinFlight⟩ := apart_register h.balanced.known query
  refine ⟨h.lodged.apart hapart, h.balanced.apart hapart none ?_⟩
  rw [bump_none, hinFlight, bump_guardsOf]
  exact congrArg (bump · _) ((bump_none _).symm.trans h.balanced.guards)

/-- A scan of somebody else than a run ends, and is counted under what it came to. -/
theorem Roster.comeBack (hc : c.Passive) {temporary : Option Nat}
    (h : db.Roster slots (bump others temporary) returned) (query : Nat) (target : Target)
    (result : Except IndexError Answer) :
    ((db.endRegistration c temporary).complete query target result).1.Roster slots others
      (((db.endRegistration c temporary).complete query target result).2 :: returned) := by
  have hheld : ∀ id, temporary = some id → 0 < guardsOf db.runs (bump others temporary) id := by
    intro id hid
    rw [hid]
    exact Nat.lt_of_lt_of_le (bump_pos others id) (Nat.le_add_left _ _)
  have hleft := h.balanced.endRegistration hc temporary hheld
  have hapart := apart_endRegistration hc temporary db
  generalize db.endRegistration c temporary = left at hleft hapart
  have hlodged : (left.complete query target result).1.Lodged none := by
    have hkept := h.lodged.apart hapart
    cases result <;> exact hkept
  have hguards : bump left.inFlight none = guardsOf left.runs others := by
    rw [bump_none]
    exact bump_cancel temporary (hleft.guards.trans (bump_guardsOf left.runs others temporary))
  exact ⟨hlodged, ((hleft.apart (.refl left) none hguards).complete query target result).comeBack⟩

/-- A query is submitted: its scan is registered or refused, and the run can go on. -/
theorem Roster.submit (h : db.Roster slots others returned) (query : Nat) (recipient : Recipient) :
    (db.submit query recipient).1.Roster slots others returned := by
  have hregistered := h.register query
  have hne := Stance.register_ne_cancelled query db
  obtain ⟨run, hrun⟩ : ∃ run, run =
      Run.new query (Stance.requestOf query db) (db.register query).2 recipient := ⟨_, rfl⟩
  have hsame : registered? (db.register query).2 = run.registered? := by
    rw [hrun]
    cases (db.register query).2 <;> rfl
  rw [hsame] at hregistered
  have hlodged := hregistered.lodged.enter run (by rw [hrun]; rfl)
  have hbalanced := hregistered.balanced.enter (by rw [hrun]; rfl) (by rw [hrun]; rfl)
    (by rw [hrun]; exact hne)
  rw [hrun] at hlodged hbalanced
  exact ⟨hlodged, { hbalanced with }⟩

/-! ## Actions -/

theorem roster_executeLive (h : db.Roster slots others returned) (task id epoch : Nat) :
    (db.executeLive task id epoch).Roster slots others returned := by
  rw [executeLive]
  split
  · exact h
  next live _ =>
    split
    · exact h.offstage (offstage_updateRefresh db task _)
    · exact ((h.submit live.query (.refresh task)).offstage (offstage_updateLive _ id _)).offstage
        (offstage_updateRefresh _ task _)

theorem roster_pollRefresh (hc : c.Passive) (h : db.Roster slots others returned) (task : Nat) :
    (db.pollRefresh c task).Roster slots others returned := by
  rw [pollRefresh]
  split
  · exact h
  next refresh _ =>
    dsimp only
    split
    · exact (roster_executeLive h task refresh.live refresh.epoch).offstage
        (offstage_reap hc refresh.live _)
    next delay _ _ =>
      have hslept : Offstage db
          { db with timers := db.timers ++ [Timer.mk (db.clock + delay) task] } :=
        { Offstage.refl db with }
      exact (h.offstage hslept).offstage (offstage_updateRefresh _ task _)
    · exact (roster_executeLive h task refresh.live refresh.epoch).offstage
        (offstage_reap hc refresh.live _)
    · split
      · exact h
      next run _ =>
        have htaken := h.offstage
          (offstage_finishLive hc refresh.live refresh.epoch run.answer db)
        exact (htaken.offstage (offstage_updateRefresh _ task _)).offstage
          (offstage_reap hc refresh.live _)
    · exact h
    · exact h

/-- A run that can go on is taken in hand. -/
theorem Lodged.in_turn (h : db.Lodged none) (hready : .run id ∈ db.ready) :
    { db with ready := db.ready.erase (.run id) }.Lodged (some id) := by
  intro other
  have hat := h other
  by_cases hother : other = id
  · have hone : 0 < db.ready.count (.run id) := List.count_pos_iff.2 hready
    have hqueued : (db.ready.erase (.run id)).count (.run id) + [id].count id =
        db.ready.count (.run id) + 0 := by
      rw [List.count_erase_self, List.count_singleton_self]
      omega
    rw [hother] at hat ⊢
    exact hqueued ▸ hat
  · rw [count_hand_ne hother, List.count_erase_of_ne (by simpa using hother)]
    exact hat

theorem Roster.go (hc : c.Passive) (h : db.Roster slots others returned) (job : Job) :
    (db.go c job).Roster slots others returned := by
  rw [Database.go]
  split
  next hready =>
    have hmem : job ∈ db.ready := by simpa using hready
    cases job with
    | run id => exact roster_pollRun hc (h.lodged.in_turn hmem) { h.balanced with }
    | refresh task =>
      refine roster_pollRefresh hc (h.offstage ?_) task
      exact { Offstage.refl db with
        ready := fun id => List.count_erase_of_ne (by simp) }
  · exact h

/-- No scan is registered or ended for somebody else than a run. -/
def SparesScans : Action → Prop
  | .runQuery _ => False
  | .beginScan _ => False
  | .endScan _ => False
  | _ => True

/-- No run is submitted, and none goes on. -/
def SparesRuns : Action → Prop
  | .submit _ _ => False
  | .go _ => False
  | .scanRun _ => False
  | _ => True

theorem offstage_perform (hc : c.Passive) {action : Action} (hspares : SparesScans action)
    (hruns : SparesRuns action) (db : Database σ) : Offstage db (db.perform c action) := by
  cases action with
  | put id body => exact offstage_write hc id _ db
  | delete id => exact offstage_write hc id _ db
  | addConflict id rev => exact offstage_write hc id _ db
  | resolveConflicts id => exact offstage_write hc id _ db
  | defineView name map reduce => exact offstage_store db _
  | deleteIndex index => exact offstage_deleteIndex hc index db
  | subscribe index callback => exact offstage_store db _
  | unsubscribe token => exact offstage_store db _
  | scan request => exact offstage_scan hc request db
  | queryIndex index => exact offstage_queryIndex index db
  | queryDocuments => exact offstage_queryDocuments db
  | queryMap map => exact offstage_queryMap hc map db
  | copyQuery query => exact offstage_copyQuery query db
  | configure query change => exact offstage_configure query change db
  | disposeQuery query => exact offstage_dispose hc query db
  | dropQuery query => exact offstage_dropQuery hc query db
  | runQuery query => exact hspares.elim
  | submit query recipient => exact hruns.elim
  | cancel run => exact offstage_cancel run db
  | acquireOwner temporary => exact offstage_acquireOwner temporary db
  | releaseOwner temporary => exact offstage_releaseOwner hc temporary db
  | releaseDeferred temporary => exact offstage_releaseDeferred hc temporary db
  | deleteTemporary temporary => exact offstage_deleteTemporary hc temporary db
  | beginScan temporary => exact hspares.elim
  | endScan temporary => exact hspares.elim
  | makeLive query => exact offstage_makeLive query db
  | startLive live => exact offstage_startLive live db
  | stopLive live => exact offstage_stopLive live db
  | disposeLive live => exact offstage_disposeLive hc live db
  | dropLive live => exact offstage_dropLive hc live db
  | addListener live callback => exact offstage_updateLive db live _
  | removeListener live callback => exact offstage_removeListener live callback db
  | go job => exact hruns.elim
  | scanRun run => exact hruns.elim
  | fire => exact offstage_fireNext db

theorem Roster.perform (hc : c.Passive) (h : db.Roster slots others returned) {action : Action}
    (hspares : SparesScans action) : (db.perform c action).Roster slots others returned := by
  cases action with
  | submit query recipient => exact h.submit query recipient
  | go job => exact h.go hc job
  | scanRun run =>
    rw [Database.perform, endRunScan]
    split
    next hscanning => exact h.scanRun hc (by simpa using hscanning)
    · exact h
  | _ => exact h.offstage (offstage_perform hc hspares trivial db)

end Database

end Viewbase
