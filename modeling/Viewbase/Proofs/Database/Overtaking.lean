import Viewbase.Proofs.Database.Dispatch

/-!
Refused runs that are cancelled after their start.

A run whose scan was refused starts, is counted as failed, gives its permit back and finishes.  A
call for its cancellation may come between its start and its finish: the run is then counted a
second time, as cancelled, and delivers that it was cancelled (`overtakeRun`).  With no such call
the run does what `pollRun` has it do in one step (`go_of_refused`).
-/

namespace Viewbase.Database

variable {σ : Type} {c : Client σ} {db : Database σ} {id : Nat} {run : Run} {error : QueryError}
  {slots : Nat} {others : Nat → Nat} {returned : List Outcome}

/-! ## What a refused run does in its turn -/

/-- A run that waits takes a permit. -/
def ensurePermit (id : Nat) (db : Database σ) : Database σ :=
  match db.runs[id]?.map Run.stage with
  | some .waiting => db.takePermit id
  | _ => db

/-- A run whose scan was refused starts, and is counted as failed. -/
def startRefused (id : Nat) (db : Database σ) : Database σ :=
  (db.updateRun id fun run => { run with control := .running }).count fun m =>
    { m with failed := m.failed + 1 }

/-- A run whose scan was refused gives its permit back and finishes. -/
def endRefused (c : Client σ) (id : Nat) (error : QueryError) (db : Database σ) : Database σ :=
  match db.runs[id]? with
  | none => db
  | some run => db.givePermit.conclude c id run fun db => (db, .error error)

/-- The run's turn comes, and it is cancelled after its start. -/
def cancelRefused (id : Nat) (db : Database σ) : Database σ :=
  let db := { db with ready := db.ready.erase (.run id) }
  (((db.ensurePermit id).startRefused id).cancel id).1

/-- The run's turn comes, and it is cancelled after its start and before its finish. -/
def overtakeRun (c : Client σ) (id : Nat) (error : QueryError) (db : Database σ) : Database σ :=
  (db.cancelRefused id).endRefused c id error

/-- A run that was not cancelled, whose scan was refused, and for which a permit is there. -/
structure AtRefusal (db : Database σ) (id : Nat) (run : Run) (error : QueryError) : Prop where
  found : db.runs[id]? = some run
  control : run.control = .pending
  registration : run.registration = .error error
  permit : run.stage = .admitted ∨ run.stage = .waiting ∧ 0 < db.permits

theorem AtRefusal.not_isOver (h : db.AtRefusal id run error) : run.isOver = false := by
  rcases h.permit with hadmitted | ⟨hwaiting, -⟩
  · rw [Run.isOver, hadmitted]
  · rw [Run.isOver, hwaiting]

theorem AtRefusal.getElem?_ensurePermit (h : db.AtRefusal id run error) :
    (db.ensurePermit id).runs[id]? = some { run with stage := .admitted } := by
  rw [ensurePermit, h.found, Option.map_some]
  rcases h.permit with hadmitted | ⟨hwaiting, hpermits⟩
  · rw [hadmitted]
    exact h.found.trans (by rw [← hadmitted])
  · rw [hwaiting]
    dsimp only
    rw [takePermit, if_pos hpermits]
    simp [updateRun, h.found]

theorem getElem?_startRefused (hrun : db.runs[id]? = some run) :
    (db.startRefused id).runs[id]? = some { run with control := .running } := by
  simp [startRefused, count, updateRun, hrun]

theorem startRun_of_refused (hrun : db.runs[id]? = some run) (hcontrol : run.control = .pending)
    (hregistration : run.registration = .error error) :
    db.startRun c id = (db.startRefused id).endRefused c id error := by
  rw [endRefused, getElem?_startRefused hrun]
  simp only [startRun, hrun, hcontrol, Control.start, hregistration]
  rfl

theorem AtRefusal.in_turn (h : db.AtRefusal id run error) (ready : List Job) :
    { db with ready := ready }.AtRefusal id run error :=
  ⟨h.found, h.control, h.registration, h.permit⟩

/-- With no call in between, a refused run whose turn comes does all of that in one step. -/
theorem go_of_refused (hready : .run id ∈ db.ready) (h : db.AtRefusal id run error) :
    db.go c (.run id) =
      let db := { db with ready := db.ready.erase (.run id) }
      ((db.ensurePermit id).startRefused id).endRefused c id error := by
  have hat := h.in_turn (db.ready.erase (.run id))
  rw [go, if_pos (by simpa using hready)]
  dsimp only
  rw [← startRun_of_refused hat.getElem?_ensurePermit hat.control hat.registration]
  rw [poll, pollRun, ensurePermit, hat.found, Option.map_some]
  rcases hat.permit with hadmitted | ⟨hwaiting, hpermits⟩
  · rw [hadmitted]
  · rw [hwaiting]
    simp only [if_pos hpermits]

/-! ## What it comes to if it is cancelled -/

theorem getElem?_ensurePermit_ne {other : Nat} (hother : other ≠ id) :
    (db.ensurePermit id).runs[other]? = db.runs[other]? := by
  rw [ensurePermit]
  split
  · rw [takePermit]
    split
    · exact List.getElem?_modify_ne _ _ (Ne.symm hother)
    · rfl
  · rfl

theorem AtRefusal.lodged_ensurePermit (h : db.AtRefusal id run error)
    (hlodged : db.Lodged (some id)) : (db.ensurePermit id).Lodged (some id) := by
  rw [ensurePermit, h.found, Option.map_some]
  rcases h.permit with hadmitted | ⟨hwaiting, hpermits⟩
  · rw [hadmitted]
    exact hlodged
  · rw [hwaiting]
    exact hlodged.permit h.found hpermits

theorem AtRefusal.balanced_ensurePermit (h : db.AtRefusal id run error)
    (hbalanced : db.Balanced slots .nothing others returned) :
    (db.ensurePermit id).Balanced slots .nothing others returned := by
  rw [ensurePermit, h.found, Option.map_some]
  rcases h.permit with hadmitted | ⟨hwaiting, -⟩
  · rw [hadmitted]
    exact hbalanced
  · rw [hwaiting]
    exact hbalanced.takePermit h.found hwaiting

theorem getElem?_startRefused_ne {other : Nat} (hother : other ≠ id) :
    (db.startRefused id).runs[other]? = db.runs[other]? :=
  List.getElem?_modify_ne _ _ (Ne.symm hother)

theorem lodged_startRefused {hand : Option Nat} (h : db.Lodged hand) :
    (db.startRefused id).Lodged hand := by
  have hstart : Offstage db (db.updateRun id fun run => { run with control := .running }) :=
    offstage_updateRun db id fun _ => rfl
  have hstarted := h.apart hstart.toApart
  exact hstarted

/-- Its start is counted as if the refusal had come back to somebody else. -/
theorem balanced_startRefused (h : db.Balanced slots .nothing others returned)
    (hne : error ≠ .cancelled) :
    (db.startRefused id).Balanced slots .nothing others (.error error :: returned) := by
  have hstart : Offstage db (db.updateRun id fun run => { run with control := .running }) :=
    offstage_updateRun db id fun _ => rfl
  have hcounted := (h.offstage hstart).count (fun m => { m with failed := m.failed + 1 }) .failed
    rfl fun other => by cases other <;> rfl
  rw [← fateOf_error hne] at hcounted
  exact hcounted.comeBack

theorem getElem?_cancel (hrun : db.runs[id]? = some run) :
    (db.cancel id).1.runs[id]? = some { run with control := run.control.cancel.1 } := by
  simp [cancel, hrun, updateRun]

theorem getElem?_cancel_ne {other : Nat} (hother : other ≠ id) :
    (db.cancel id).1.runs[other]? = db.runs[other]? := by
  rw [cancel]
  split
  · rfl
  · exact List.getElem?_modify_ne _ _ (Ne.symm hother)

/-- A scan is refused for other reasons than that it was cancelled. -/
theorem Roster.ne_cancelled (h : db.Roster slots others returned)
    (hat : db.AtRefusal id run error) : error ≠ .cancelled := fun heq =>
  h.balanced.refused run (List.mem_of_getElem? hat.found) (hat.registration.trans (congrArg _ heq))

theorem AtRefusal.getElem?_cancelRefused (h : db.AtRefusal id run error) :
    (db.cancelRefused id).runs[id]? =
      some { run with stage := .admitted, control := .cancelled } :=
  getElem?_cancel (getElem?_startRefused (h.in_turn _).getElem?_ensurePermit)

theorem getElem?_cancelRefused_ne {other : Nat} (hother : other ≠ id) :
    (db.cancelRefused id).runs[other]? = db.runs[other]? := by
  rw [cancelRefused, getElem?_cancel_ne hother, getElem?_startRefused_ne hother,
    getElem?_ensurePermit_ne hother]

theorem AtRefusal.lodged_cancelRefused (h : db.AtRefusal id run error) (hlodged : db.Lodged none)
    (hready : .run id ∈ db.ready) : (db.cancelRefused id).Lodged (some id) := by
  have hadmitted := (h.in_turn _).lodged_ensurePermit (hlodged.in_turn hready)
  exact (lodged_startRefused hadmitted).apart (offstage_cancel id _).toApart

theorem AtRefusal.balanced_cancelRefused (h : db.AtRefusal id run error)
    (hroster : db.Roster slots others returned) :
    (db.cancelRefused id).Balanced slots .nothing others (.error error :: returned) := by
  have hadmitted := (h.in_turn (db.ready.erase (.run id))).balanced_ensurePermit
    { hroster.balanced with }
  exact (balanced_startRefused hadmitted (hroster.ne_cancelled h)).offstage (offstage_cancel id _)

/-- A refused run that is cancelled after its start is over, with its refusal counted as if it had
come back to somebody else. -/
theorem Roster.overtakeRun (hc : c.Passive) (h : db.Roster slots others returned)
    (hready : .run id ∈ db.ready) (hat : db.AtRefusal id run error) :
    (db.overtakeRun c id error).Roster slots others (.error error :: returned) := by
  have hlodged := hat.lodged_cancelRefused h.lodged hready
  have hbalanced := hat.balanced_cancelRefused h
  have hrun := hat.getElem?_cancelRefused
  obtain ⟨-, -, -, -, -, hwaiting, -⟩ := hlodged.in_hand
  have hgiven := (Stance.runs_givePermit (List.count_eq_zero.1 hwaiting)).trans hrun
  have hnone : Run.registered? { run with stage := .admitted, control := .cancelled } = none := by
    rw [registered?_admitted rfl, hat.registration]
    rfl
  rw [Database.overtakeRun, endRefused, hrun]
  exact roster_discard hc hlodged.givePermit hgiven rfl hnone (by simp)
    (hbalanced.givePermit hlodged) _

end Viewbase.Database
