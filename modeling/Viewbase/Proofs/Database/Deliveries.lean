import Viewbase.Proofs.Database.Sightings
import Viewbase.Proofs.Database.Submission

/-!
What runs report once they are over.

A run reports the outcome that was delivered, or that it was cancelled (`Run.report`).  In its turn
a run goes on without a report, or reports what it has found (`reports_pollRun`); no other run
reports anything meanwhile, and no run reports in the course of another action
(`unreported_perform`).
-/

namespace Viewbase

namespace Run

/-- What a run has come to, once it is over. -/
def report (run : Run) : Option Outcome :=
  if run.isOver then some run.answer else none

variable {run : Run}

theorem report_of_isOver (h : run.isOver = true) : run.report = some run.answer := by
  rw [report, if_pos h]

theorem report_of_not_isOver (h : run.isOver = false) : run.report = none := by
  rw [report, h, if_neg Bool.false_ne_true]

@[simp] theorem unsteered_query (run : Run) : run.unsteered.query = run.query := rfl

@[simp] theorem unsteered_report (run : Run) : run.unsteered.report = run.report := rfl

end Run

namespace Database

variable {σ : Type} {c : Client σ} {db db' : Database σ} {id : Nat} {run : Run}

/-- The queries of all runs, and what the runs report. -/
def reports (db : Database σ) : List (Nat × Option Outcome) :=
  db.runs.map fun run => (run.query, run.report)

theorem reports_of_runs (h : db'.runs = db.runs) : db'.reports = db.reports := by
  rw [reports, h, reports]

theorem Apart.reports (h : Apart db db') : db'.reports = db.reports :=
  h.runs.map_eq fun _ => rfl

theorem getElem?_reports (hrun : db.runs[id]? = some run) :
    db.reports[id]? = some (run.query, run.report) := by
  rw [reports, List.getElem?_map, hrun, Option.map_some]

theorem report_of_reports (db : Database σ) (id : Nat) :
    db.runs[id]?.bind Run.report = db.reports[id]?.bind Prod.snd := by
  rw [reports, List.getElem?_map]
  cases db.runs[id]? <;> rfl

theorem answers_eq (db : Database σ) : db.answers = db.reports.filterMap Prod.snd := by
  rw [answers, reports, List.filterMap_map, ← List.filterMap_eq_filter, List.map_filterMap]
  refine List.filterMap_congr fun run _ => ?_
  cases hover : run.isOver with
  | false => simp [hover, Run.report_of_not_isOver hover]
  | true => simp [hover, Run.report_of_isOver hover]

/-- A report is added in the place of one that was outstanding. -/
theorem filterMap_set_perm {reports : List (Nat × Option Outcome)} {id query : Nat}
    (hnone : reports[id]? = some (query, none)) (outcome : Outcome) :
    ((reports.set id (query, some outcome)).filterMap Prod.snd).Perm
      (outcome :: reports.filterMap Prod.snd) := by
  induction reports generalizing id with
  | nil => cases hnone
  | cons report reports ih =>
    cases id with
    | zero =>
      cases hnone
      exact .refl _
    | succ id =>
      have hlater := ih hnone
      cases hreport : report.2 with
      | none =>
        rw [List.set_cons_succ, List.filterMap_cons_none hreport, List.filterMap_cons_none hreport]
        exact hlater
      | some reported =>
        rw [List.set_cons_succ, List.filterMap_cons_some hreport, List.filterMap_cons_some hreport]
        exact (hlater.cons reported).trans (.swap outcome reported _)

theorem reports_updateRun (hrun : db.runs[id]? = some run) (change : Run → Run)
    (hquery : (change run).query = run.query) : (db.updateRun id change).reports =
      db.reports.set id (run.query, (change run).report) := by
  have hlt : id < db.runs.length := (List.getElem?_eq_some_iff.1 hrun).1
  refine List.ext_getElem? fun other => ?_
  simp only [reports, updateRun, List.getElem?_map, List.getElem?_modify, List.getElem?_set,
    List.length_map]
  by_cases hother : id = other
  · rw [← hother, hrun]
    simp [hlt, hquery]
  · simp [hother]

/-- A run goes on without a new report. -/
theorem reports_goOn (hrun : db.runs[id]? = some run) (change : Run → Run)
    (hquery : (change run).query = run.query) (hreport : (change run).report = run.report) :
    (db.updateRun id change).reports = db.reports := by
  rw [reports_updateRun hrun change hquery, hreport]
  refine List.ext_getElem? fun other => ?_
  rw [List.getElem?_set]
  split
  next hother =>
    rw [← hother, getElem?_reports hrun, if_pos]
    exact (List.getElem?_eq_some_iff.1 (getElem?_reports hrun)).1
  · rfl

theorem reports_deliver (hc : c.Passive) (hrun : db.runs[id]? = some run) (recipient : Recipient)
    (outcome : Outcome) : (db.deliver c id recipient outcome).reports =
      db.reports.set id (run.query, some outcome) := by
  have hended := reports_updateRun hrun
    (fun run => { run with stage := .ended, outcome := some outcome }) rfl
  rw [deliver_passive hc]
  cases recipient <;> exact hended

theorem reports_abandon (hrun : db.runs[id]? = some run) (hnone : run.outcome = none)
    (recipient : Recipient) : (db.abandon id recipient).reports =
      db.reports.set id (run.query, some (.error .cancelled)) := by
  have hended := reports_updateRun hrun (fun run => { run with stage := .ended }) rfl
  rw [Run.report_of_isOver rfl, Run.answer, hnone, Option.getD_none] at hended
  cases recipient <;> exact hended

theorem reports_register (id : Nat) (db : Database σ) : (db.register id).1.reports = db.reports :=
  reports_of_runs (beside_register id db).runs

theorem reports_complete (query : Nat) (target : Target) (result : Except IndexError Answer)
    (db : Database σ) : (db.complete query target result).1.reports = db.reports :=
  reports_of_runs (store_complete query target result db).2.2

/-! ## Permits -/

theorem reports_givePermit (hlined : db.Lined) : db.givePermit.reports = db.reports := by
  rw [givePermit]
  split
  · rfl
  next next rest hwaiting =>
    cases hnext : db.runs[next]? with
    | none =>
      refine reports_of_runs ?_
      simp only [wake, updateRun]
      exact List.modify_eq_self (List.getElem?_eq_none_iff.1 hnext)
    | some run =>
      have hstage := hlined next (hwaiting ▸ List.mem_cons_self) run hnext
      have hadmitted := reports_goOn hnext (fun run => { run with stage := .admitted }) rfl <| by
        rw [Run.report_of_not_isOver rfl, Run.report_of_not_isOver (by rw [Run.isOver, hstage])]
      exact hadmitted

/-- A run that does not wait for a permit is as it was when one is given back. -/
theorem getElem?_givePermit (hlined : db.Lined) (hrun : db.runs[id]? = some run)
    (hstage : run.stage ≠ .waiting) : db.givePermit.runs[id]? = some run := by
  have hid : id ∉ db.waiting := fun hwaiting => hstage (hlined id hwaiting run hrun)
  exact (Stance.runs_givePermit hid).trans hrun

/-! ## Runs in their turn -/

/-- A run is over, with the outcome if it was not cancelled meanwhile. -/
theorem reports_conclude (hc : c.Passive) (hrun : db.runs[id]? = some run) (started : Run)
    {outcome : Database σ → Database σ × Outcome}
    (hruns : ∀ db : Database σ, (outcome db).1.runs = db.runs) {reported : Outcome}
    (hreported : started.control = .running → ∀ db' : Database σ, db'.queries = db.queries →
      (outcome db').2 = reported)
    (hdiscarded : started.control ≠ .running → reported = .error .cancelled) :
    (db.conclude c id started outcome).reports = db.reports.set id (run.query, some reported) := by
  obtain ⟨done, hdone⟩ : ∃ done, done = db.updateRun id fun run => { run with control := .done } :=
    ⟨_, rfl⟩
  have hqueries : done.queries = db.queries := by
    rw [hdone]
    rfl
  have hrun' : (outcome done).1.runs[id]? = some { run with control := .done } := by
    rw [hruns, hdone]
    simp [updateRun, hrun]
  have hsame : (outcome done).1.reports = db.reports := by
    rw [reports_of_runs (hruns done), hdone]
    exact reports_goOn hrun (fun run => { run with control := .done }) rfl rfl
  cases hcontrol : started.control with
  | running =>
    simp only [conclude, hcontrol, Control.finish, ← hdone]
    rw [reports_deliver hc hrun', hsame, hreported hcontrol done hqueries]
  | _ =>
    have hcounted : (db.countCancelled "after_start").runs[id]? = some run := hrun
    simp only [conclude, hcontrol, Control.finish]
    rw [reports_deliver hc hcounted, hdiscarded (by simp [hcontrol])]
    rfl

/-- A run whose scan has ended reports what it has found. -/
theorem reports_finishRun (hc : c.Passive) (hlined : db.Lined) (hrun : db.runs[id]? = some run)
    {result : Except IndexError Answer} (hstage : run.stage = .scanned result) :
    (db.finishRun c id result).reports =
      db.reports.set id (run.query, some (run.due (db.lastGeneration run.query))) := by
  have hgiven := getElem?_givePermit hlined hrun (by simp [hstage])
  rw [finishRun, hrun, ← reports_givePermit hlined]
  refine reports_conclude hc hgiven run (fun db => ?_) (fun hcontrol db' hqueries => ?_)
    fun hcontrol => ?_
  · cases result <;> rfl
  · have hseen : db'.lastGeneration run.query = db.lastGeneration run.query := by
      rw [lastGeneration, hqueries, queries_givePermit, lastGeneration]
    rw [snd_complete, hseen, Run.due, Run.finding?, hstage, hcontrol]
    rfl
  · rw [Run.due, Run.finding?, hstage]
    cases hcancelled : run.control with
    | running => exact absurd hcancelled hcontrol
    | _ => rfl

/-- A run whose scan was refused is over once it is admitted. -/
theorem reports_refuse (hc : c.Passive) (hlined : db.Lined) (hrun : db.runs[id]? = some run)
    (hstage : run.stage ≠ .waiting) (error : QueryError) :
    ((db.updateRun id fun run => { run with control := .running }).givePermit.conclude c id
      { run with control := .running } fun db => (db, .error error)).reports =
        db.reports.set id (run.query, some (.error error)) := by
  have hwaiting : id ∉ db.waiting := fun hwaiting => hstage (hlined id hwaiting run hrun)
  obtain ⟨started, hstarted⟩ : ∃ started,
      started = db.updateRun id fun run => { run with control := .running } := ⟨_, rfl⟩
  have hlined' : started.Lined := hstarted ▸ hlined.updateRun hwaiting _
  have hrun' : started.runs[id]? = some { run with control := .running } := by
    simp [hstarted, updateRun, hrun]
  have hsame : started.reports = db.reports := by
    rw [hstarted]
    exact reports_goOn hrun (fun run => { run with control := .running }) rfl rfl
  rw [← hstarted, ← hsame, ← reports_givePermit hlined']
  exact reports_conclude hc (getElem?_givePermit hlined' hrun' hstage) _ (fun _ => rfl)
    (fun _ _ _ => rfl) fun hcontrol => absurd rfl hcontrol

/-- A run that was cancelled before it was admitted is over then. -/
theorem reports_cancelled (hc : c.Passive) (hlined : db.Lined) (hrun : db.runs[id]? = some run)
    (hstage : run.stage ≠ .waiting) (hnone : run.outcome = none) (temporary : Option Nat) :
    ((db.givePermit.endRegistration c temporary).abandon id run.recipient).reports =
      db.reports.set id (run.query, some (.error .cancelled)) := by
  have hapart := apart_endRegistration hc temporary db.givePermit
  obtain ⟨left, hleft, hsame⟩ :=
    hapart.runs.exists_of_getElem? (getElem?_givePermit hlined hrun hstage)
  have hquery : left.query = run.query := by
    rw [← left.unsteered_query, hsame, run.unsteered_query]
  have houtcome : left.outcome = none := by
    rw [← left.unsteered_outcome, hsame, run.unsteered_outcome, hnone]
  rw [reports_abandon hleft houtcome, hapart.reports, reports_givePermit hlined, hquery]

/-- An admitted run is put under way, or it is over: its scan was refused, or it was cancelled. -/
theorem reports_startRun (hc : c.Passive) (hlined : db.Lined) (hrun : db.runs[id]? = some run)
    (hstage : run.stage = .admitted) (hnone : run.outcome = none) (generation : Option Nat) :
    (db.startRun c id).reports = db.reports ∨
      (db.startRun c id).reports = db.reports.set id (run.query, some (run.due generation)) := by
  have hleft : run.stage ≠ .waiting := by simp [hstage]
  cases hcontrol : run.control with
  | pending =>
    cases hregistration : run.registration with
    | ok temporary =>
      left
      simp only [startRun, hrun, hcontrol, Control.start, hregistration]
      have hstarted := reports_goOn hrun
        (fun run => { run with control := .running, stage := .scanning }) rfl <| by
          rw [Run.report_of_not_isOver rfl, Run.report_of_not_isOver (by rw [Run.isOver, hstage])]
      exact hstarted
    | error error =>
      right
      have hdue : run.due generation = .error error := by
        rw [Run.due, Run.finding?, hstage, hcontrol, hregistration]
        rfl
      have hrefused := reports_refuse hc
        (show (db.count fun m => { m with failed := m.failed + 1 }).Lined from hlined) hrun hleft
        error
      rw [hregistration] at hrefused
      simp only [startRun, hrun, hcontrol, Control.start, hregistration, hdue]
      exact hrefused
  | _ =>
    right
    have hdue : run.due generation = .error .cancelled := by
      rw [Run.due, Run.finding?, hstage, hcontrol]
      rfl
    have hended := reports_cancelled hc
      (show (db.countCancelled "before_start").Lined from hlined) hrun hleft hnone
    cases hregistration : run.registration with
    | ok temporary =>
      simp only [startRun, hrun, hcontrol, Control.start, hregistration, hdue]
      exact hended temporary
    | error error =>
      simp only [startRun, hrun, hcontrol, Control.start, hregistration, hdue]
      exact hended none

/-- A run in its turn goes on without a report, or it is over and reports what it has found.  Once
its scan has ended it does. -/
theorem reports_pollRun (hc : c.Passive) (hlined : db.Lined) (hwaiting : id ∉ db.waiting)
    (hrun : db.runs[id]? = some run) (hopen : run.isOver = false) (hnone : run.outcome = none) :
    ((db.pollRun c id).reports = db.reports ∧ ∀ result, run.stage ≠ .scanned result) ∨
      (db.pollRun c id).reports =
        db.reports.set id (run.query, some (run.due (db.lastGeneration run.query))) := by
  rw [pollRun, hrun, Option.map_some]
  cases hstage : run.stage with
  | waiting =>
    dsimp only
    by_cases hpermits : 0 < db.permits
    · rw [if_pos hpermits]
      have hrun' : (db.takePermit id).runs[id]? = some { run with stage := .admitted } := by
        rw [takePermit, if_pos hpermits]
        simp [updateRun, hrun]
      have hlined' : (db.takePermit id).Lined := by
        rw [takePermit, if_pos hpermits]
        exact hlined.updateRun hwaiting _
      have hsame : (db.takePermit id).reports = db.reports := by
        rw [takePermit, if_pos hpermits]
        have hadmitted := reports_goOn hrun (fun run => { run with stage := .admitted }) rfl <| by
          rw [Run.report_of_not_isOver rfl, Run.report_of_not_isOver hopen]
        exact hadmitted
      have hdue : Run.due (db.lastGeneration run.query) { run with stage := .admitted } =
          run.due (db.lastGeneration run.query) := by
        rw [Run.due, Run.due, Run.finding?, Run.finding?, hstage]
        cases run.control <;> cases run.registration <;> rfl
      have hstarted := reports_startRun hc hlined' hrun' rfl hnone (db.lastGeneration run.query)
      rw [hsame, hdue] at hstarted
      exact hstarted.imp_left fun hsame => ⟨hsame, by simp⟩
    · rw [if_neg hpermits, takePermit, if_neg hpermits]
      exact .inl ⟨rfl, by simp⟩
  | admitted =>
    have hstarted := reports_startRun hc hlined hrun hstage hnone (db.lastGeneration run.query)
    exact hstarted.imp_left fun hsame => ⟨hsame, by simp⟩
  | scanning => exact .inl ⟨rfl, by simp⟩
  | scanned result => exact .inr (reports_finishRun hc hlined hrun hstage)
  | ended =>
    rw [Run.isOver, hstage] at hopen
    cases hopen

theorem Lodged.lined {hand : Option Nat} (h : db.Lodged hand) : db.Lined := by
  intro other hwaiting run hrun
  obtain ⟨found, hfound, hstage, -⟩ := h.of_waiting hwaiting
  rw [hrun] at hfound
  cases hfound
  exact hstage

/-- If a run may go on, nothing is reported and seen, or the run reports what it has come to, and
that is what its query has seen. -/
theorem reports_go {slots : Nat} {others : Nat → Nat} {returned : List Outcome} (hc : c.Passive)
    (h : db.Roster slots others returned) (id : Nat) :
    ((db.go c (.run id)).reports = db.reports ∧ (db.go c (.run id)).seen = db.seen) ∨
      ∃ run, db.runs[id]? = some run ∧ run.isOver = false ∧
        (db.go c (.run id)).reports =
          db.reports.set id (run.query, some (run.due (db.lastGeneration run.query))) ∧
        (db.go c (.run id)).seen =
          seenAfter run.query db.seen (run.due (db.lastGeneration run.query)) := by
  rw [go]
  split
  next hready =>
    have hlodged := h.lodged.in_turn (show .run id ∈ db.ready by simpa using hready)
    obtain ⟨run, hrun, -, hopen, -, hwaiting, -⟩ := hlodged.in_hand
    have hnone := h.balanced.pending run (List.mem_of_getElem? hrun) hopen
    have hseen := seen_pollRun hc hrun (db.lastGeneration run.query)
    have hreports := reports_pollRun hc hlodged.lined (List.count_eq_zero.1 hwaiting) hrun hopen
      hnone
    rcases hreports with ⟨hsame, hunscanned⟩ | hended
    · exact .inl ⟨hsame, hseen.trans (seenAfter_due _ hunscanned run.query _)⟩
    · exact .inr ⟨run, hrun, hopen, hended, hseen⟩
  · exact .inl ⟨rfl, rfl⟩

theorem AtRefusal.reports_cancelRefused {error : QueryError} (h : db.AtRefusal id run error) :
    (db.cancelRefused id).reports = db.reports := by
  refine List.ext_getElem? fun other => ?_
  by_cases hother : other = id
  · rw [hother, getElem?_reports h.getElem?_cancelRefused, getElem?_reports h.found,
      Run.report_of_not_isOver h.not_isOver]
    rfl
  · rw [reports, reports, List.getElem?_map, List.getElem?_map, getElem?_cancelRefused_ne hother]

/-- A refused run that is cancelled after its start reports that it was cancelled. -/
theorem reports_overtakeRun {slots : Nat} {others : Nat → Nat} {returned : List Outcome}
    {error : QueryError} (hc : c.Passive) (h : db.Roster slots others returned)
    (hready : .run id ∈ db.ready) (hat : db.AtRefusal id run error) :
    (db.overtakeRun c id error).reports =
      db.reports.set id (run.query, some (.error .cancelled)) := by
  have hlined := (hat.lodged_cancelRefused h.lodged hready).lined
  have hgiven := getElem?_givePermit hlined hat.getElem?_cancelRefused (by simp)
  rw [overtakeRun, endRefused, hat.getElem?_cancelRefused, ← hat.reports_cancelRefused,
    ← reports_givePermit hlined]
  exact reports_conclude hc hgiven _ (fun _ => rfl) (by simp) fun _ => rfl

/-! ## Other actions -/

/-- From `db` to `db'` no run has reported anything; one may have been submitted. -/
def Unreported (db db' : Database σ) : Prop :=
  db'.reports = db.reports ∨ ∃ query, db'.reports = db.reports ++ [(query, none)]

theorem Unreported.apart {db'' : Database σ} (h : Unreported db db') (hapart : Apart db' db'') :
    Unreported db db'' := by
  rw [Unreported, hapart.reports]
  exact h

theorem Unreported.filterMap_eq (h : Unreported db db') :
    db'.reports.filterMap Prod.snd = db.reports.filterMap Prod.snd := by
  rcases h with hsame | ⟨query, hadded⟩
  · rw [hsame]
  · rw [hadded, List.filterMap_append, List.filterMap_cons_none rfl, List.filterMap_nil,
      List.append_nil]

theorem unreported_submit (query : Nat) (recipient : Recipient) (db : Database σ) :
    Unreported db (db.submit query recipient).1 := by
  obtain ⟨noted, hbeside, -, -, heq⟩ := Stance.exists_submit query recipient db
  refine .inr ⟨query, ?_⟩
  rw [heq, ← reports_of_runs hbeside.runs]
  exact List.map_append

theorem unreported_executeLive (task id epoch : Nat) (db : Database σ) :
    Unreported db (db.executeLive task id epoch) := by
  rw [executeLive]
  split
  · exact .inl rfl
  next live _ =>
    split
    · exact .inl rfl
    · exact unreported_submit live.query (.refresh task) db

theorem unreported_pollRefresh (hc : c.Passive) (task : Nat) (db : Database σ) :
    Unreported db (db.pollRefresh c task) := by
  rw [pollRefresh]
  split
  · exact .inl rfl
  next refresh _ =>
    have hexecuted := (unreported_executeLive task refresh.live refresh.epoch db).apart
      (offstage_reap hc refresh.live _).toApart
    dsimp only
    split
    · exact hexecuted
    · exact .inl rfl
    · exact hexecuted
    · split
      · exact .inl rfl
      next submitted _ =>
        have hfinished := offstage_finishLive hc refresh.live refresh.epoch submitted.answer db
        have hover := hfinished.trans
          (offstage_updateRefresh _ task fun refresh => { refresh with stage := .over })
        exact .inl (hover.trans (offstage_reap hc refresh.live _)).reports
    · exact .inl rfl
    · exact .inl rfl

theorem reports_scanRun (hc : c.Passive) (hlodged : db.Lodged none) (hscanning : id ∈ db.scanning) :
    (db.scanRun c id).reports = db.reports := by
  obtain ⟨run, hrun, hstage, -⟩ := hlodged.of_scanning hscanning
  simp only [scanRun, hrun]
  obtain ⟨cleared, hcleared⟩ :
      ∃ cleared, cleared = { db with scanning := db.scanning.filter (· != id) } := ⟨_, rfl⟩
  have hrun' : cleared.runs[id]? = some run := by rw [hcleared, hrun]
  have hsame : cleared.reports = db.reports := by
    rw [hcleared]
    rfl
  rw [← hcleared, ← hsame]
  have hapart := (offstage_scan hc run.request cleared).toApart.trans
    (apart_endRegistration hc run.registered? (cleared.scan c run.request).1)
  obtain ⟨left, hleft, hunsteered⟩ := hapart.runs.exists_of_getElem? hrun'
  have hopen : left.isOver = false := by
    rw [← left.unsteered_isOver, hunsteered, run.unsteered_isOver, Run.isOver, hstage]
  have hscanned := reports_goOn hleft
    (fun run' => { run' with stage := .scanned (cleared.scan c run.request).2 }) rfl
    (by rw [Run.report_of_not_isOver rfl, Run.report_of_not_isOver hopen])
  exact hscanned.trans hapart.reports

theorem SparesScans.sparesSeen {action : Action} (h : SparesScans action)
    (hgo : ∀ id, action ≠ .go (.run id)) : SparesSeen action := by
  cases action with
  | runQuery query => exact h
  | go job =>
    cases job with
    | run id => exact absurd rfl (hgo id)
    | refresh task => trivial
  | _ => trivial

/-- Short of a run in its turn, no run reports anything. -/
theorem unreported_perform (hc : c.Passive) (hlodged : db.Lodged none) {action : Action}
    (hspares : SparesScans action) (hgo : ∀ id, action ≠ .go (.run id)) :
    Unreported db (db.perform c action) := by
  cases action with
  | submit query recipient => exact unreported_submit query recipient db
  | go job =>
    cases job with
    | run id => exact absurd rfl (hgo id)
    | refresh task =>
      simp only [perform, go]
      split
      · exact unreported_pollRefresh hc task { db with ready := db.ready.erase (.refresh task) }
      · exact .inl rfl
  | scanRun id =>
    simp only [perform, endRunScan]
    split
    next hscanning => exact .inl (reports_scanRun hc hlodged (by simpa using hscanning))
    · exact .inl rfl
  | _ => exact .inl (offstage_perform hc hspares trivial db).reports

end Database

end Viewbase
