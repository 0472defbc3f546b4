import Viewbase.Proofs.Database.Course
import Viewbase.Proofs.Query.Cancellation

/-!
The runs of a database as executions.

Whatever a run of a database goes through is a history of its task and of calls for its
cancellation (`Moment.Reached.traced`), each of which nothing comes between.  So what holds of every
history holds of every run, whatever is done with the database.
-/

namespace Viewbase

namespace Execution

/-- Where a run is seen between the steps of a database. -/
inductive Seen : Place → Stage → Prop where
  | waiting : Seen .waiting .waiting
  | admitted : Seen .admitted .admitted
  | scanning : Seen .started .scanning
  | scanned (result : Except IndexError Answer) :
      Seen (.found (.scanned result)) (.scanned result)
  | delivered : Seen .delivered .ended
  | abandoned : Seen .abandoned .ended

theorem Seen.eq_waiting {place : Place} (h : Seen place .waiting) : place = .waiting := by
  cases h
  rfl

theorem Seen.eq_admitted {place : Place} (h : Seen place .admitted) : place = .admitted := by
  cases h
  rfl

theorem Seen.eq_started {place : Place} (h : Seen place .scanning) : place = .started := by
  cases h
  rfl

theorem Seen.eq_found {place : Place} {result : Except IndexError Answer}
    (h : Seen place (.scanned result)) : place = .found (.scanned result) := by
  cases h
  rfl

/-- The run is where the execution has come to. -/
structure Shows (e : Execution) (run : Run) : Prop where
  place : Seen e.place run.stage
  control : run.control = e.control
  outcome : run.outcome = e.delivered.head?.map Delivery.outcome

variable {e : Execution} {run run' : Run}

theorem Shows.answer (h : e.Shows run) : run.answer = e.answer := by
  rw [Run.answer, Execution.answer, h.outcome]

theorem shows_new (query : Nat) (request : Request)
    (registration : Except QueryError (Option Nat)) (recipient : Recipient) :
    submitted.Shows (.new query request registration recipient) :=
  ⟨.waiting, rfl, rfl⟩

/-- A call with its three accesses. -/
def wholeCall (id : Nat) : List Event :=
  [.call, .proceed id, .proceed id, .proceed id]

/-- A call that nothing comes between does what asking for cancellation at once does, and has the
same reply. -/
theorem performAll_wholeCall (e : Execution) :
    ∃ effect, e.performAll (wholeCall e.calls.length) =
      { e with
        control := e.control.cancel.1
        calls := e.calls ++ [⟨.returned e.control.cancel.2, effect⟩] } := by
  obtain ⟨place, control, began, finding, scans, delivered, calls⟩ := e
  cases control <;>
    simp [performAll, wholeCall, perform, proceed, access, Control.exchange, Control.cancel]

/-- An execution that has found a result finishes and delivers what its run concludes with. -/
theorem Shows.concludes (h : e.Shows run) (hsound : e.Sound) {control : Control}
    {outcome : Outcome} (hconcludes : run.Concludes control outcome) :
    ∃ events, (e.performAll events).Shows
      { run with control := control, stage := .ended, outcome := some outcome } := by
  obtain ⟨hplace, hcontrol, -⟩ := h
  cases hconcludes with
  | @refused error hstage hpending =>
    have hadmitted := (hstage ▸ hplace).eq_admitted
    cases hsound.fits with
    | admitted =>
      obtain rfl := hcontrol.symm.trans hpending
      exact ⟨[.start (some error), .finish, .deliver none], .delivered, rfl, rfl⟩
    | _ => cases hadmitted
  | discarded hstage hclosed =>
    have hfound := (hstage ▸ hplace).eq_found
    cases hsound.fits with
    | found _ hopen =>
      cases hfound
      obtain rfl := hopen.resolve_left fun heq => hclosed (hcontrol.trans heq)
      exact ⟨[.finish, .deliver none], .delivered, hcontrol, rfl⟩
    | _ => cases hfound
  | failed generation hstage hrunning =>
    have hfound := (hstage ▸ hplace).eq_found
    cases hsound.fits with
    | found =>
      cases hfound
      obtain rfl := hcontrol.symm.trans hrunning
      exact ⟨[.finish, .deliver generation], .delivered, rfl, rfl⟩
    | _ => cases hfound
  | answered hstage hrunning =>
    have hfound := (hstage ▸ hplace).eq_found
    cases hsound.fits with
    | found =>
      cases hfound
      obtain rfl := hcontrol.symm.trans hrunning
      exact ⟨[.finish, .deliver none], .delivered, rfl, rfl⟩
    | _ => cases hfound

/-- Going one stage further is a history. -/
theorem Shows.goes (h : e.Shows run) (hsound : e.Sound) (hgoes : run.Goes run') :
    ∃ events, (e.performAll events).Shows run' := by
  obtain ⟨hplace, hcontrol, houtcome⟩ := h
  cases hgoes with
  | stay => exact ⟨[], hplace, hcontrol, houtcome⟩
  | cancel =>
    obtain ⟨effect, heq⟩ := performAll_wholeCall e
    exact ⟨wholeCall e.calls.length, heq ▸ ⟨hplace, by rw [hcontrol], houtcome⟩⟩
  | permit hstage =>
    have hwaiting := (hstage ▸ hplace).eq_waiting
    cases hsound.fits with
    | waiting => exact ⟨[.permit], .admitted, hcontrol, houtcome⟩
    | _ => cases hwaiting
  | start hstage hpending =>
    have hadmitted := (hstage ▸ hplace).eq_admitted
    cases hsound.fits with
    | admitted =>
      obtain rfl := hcontrol.symm.trans hpending
      exact ⟨[.start none], .scanning, rfl, houtcome⟩
    | _ => cases hadmitted
  | abandon hstage hclosed =>
    have hadmitted := (hstage ▸ hplace).eq_admitted
    cases hsound.fits with
    | admitted hopen =>
      obtain rfl := hopen.resolve_left fun heq => hclosed (hcontrol.trans heq)
      exact ⟨[.start none], .abandoned, hcontrol, houtcome⟩
    | _ => cases hadmitted
  | scan hstage result =>
    have hstarted := (hstage ▸ hplace).eq_started
    cases hsound.fits with
    | started => exact ⟨[.scan result], .scanned result, hcontrol, houtcome⟩
    | _ => cases hstarted
  | conclude hconcludes => exact Shows.concludes ⟨hplace, hcontrol, houtcome⟩ hsound hconcludes

theorem Shows.goes_on {history : List Event} (h : (after history).Shows run)
    (hgoes : Relation.ReflTransGen Run.Goes run run') :
    ∃ later, (after (history ++ later)).Shows run' := by
  induction hgoes with
  | refl => exact ⟨[], by rwa [List.append_nil]⟩
  | tail _ hgoes ih =>
    obtain ⟨later, hshows⟩ := ih
    obtain ⟨events, hshows'⟩ := hshows.goes (sound_after _) hgoes
    exact ⟨later ++ events, by rwa [← List.append_assoc, after_append]⟩

end Execution

/-! ## The runs of a database -/

namespace Stance

open Execution

variable {σ : Type} {s s' : Stance σ}

theorem length_cancelRunning (running : Option Nat) (db : Database σ) :
    (db.cancelRunning running).runs.length = db.runs.length := by
  cases running with
  | none => rfl
  | some id =>
    rw [Database.cancelRunning, Database.cancel]
    split
    · rfl
    · exact List.length_modify ..

theorem length_takePermit (id : Nat) (db : Database σ) :
    (db.takePermit id).runs.length = db.runs.length := by
  rw [Database.takePermit]
  split
  · exact List.length_modify ..
  · rfl

/-- A run that was not there before is a new one. -/
theorem new_runs (hmove : Move s s') :
    s'.db.runs.length = s.db.runs.length ∨ ∃ query request registration recipient,
      s'.db.runs = s.db.runs ++ [.new query request registration recipient] := by
  have hlength : ∀ (id : Nat) (change : Run → Run),
      (s.db.runs.modify id change).length = s.db.runs.length := fun id change =>
    List.length_modify ..
  cases hmove with
  | beside h => exact .inl (by rw [h.runs])
  | submit => exact .inr ⟨_, _, _, _, rfl⟩
  | execute => exact .inr ⟨_, _, _, _, rfl⟩
  | @cancel id => exact .inl (length_cancelRunning (some id) s.db)
  | @permit id => exact .inl (length_takePermit id s.db)
  | @queue id => exact .inl (length_takePermit id s.db)
  | grant =>
    rw [Database.givePermit]
    split
    · exact .inl rfl
    · exact .inl (hlength ..)
  | startRun => exact .inl (hlength ..)
  | abandon =>
    rw [Database.abandon, wakeRecipient_eq]
    exact .inl (hlength ..)
  | scan => exact .inl (hlength ..)
  | @conclude id run control outcome =>
    rw [wakeRecipient_eq]
    cases outcome <;> exact .inl (hlength ..)
  | makeLive h => exact .inl (by rw [h.runs])
  | @stop id live =>
    exact .inl ((congrArg List.length (runs_endSubscription live.token _)).trans
      (length_cancelRunning live.running _))
  | giveUp h => exact .inl (congrArg List.length h.runs)
  | takeIn =>
    rw [Database.settleLive]
    split <;> exact .inl rfl
  | _ => exact .inl rfl

/-- Every run has come to where a history has. -/
def Traced (s : Stance σ) : Prop :=
  ∀ run ∈ s.db.runs, ∃ history, (after history).Shows run

theorem Traced.move (h : s.Traced) (hplaced : s.Placed) (hmove : Move s s') : s'.Traced := by
  intro run' hrun'
  obtain ⟨i, hi⟩ := List.mem_iff_getElem?.1 hrun'
  cases hrun : s.db.runs[i]? with
  | some run =>
    obtain ⟨history, hshows⟩ := h run (List.mem_of_getElem? hrun)
    obtain ⟨next, hnext, hgoes⟩ := follows_runs hplaced hmove i run hrun
    obtain rfl : run' = next := Option.some.inj (hi.symm.trans hnext)
    obtain ⟨events, hshows'⟩ := hshows.goes (sound_after history) hgoes
    exact ⟨history ++ events, after_append history events ▸ hshows'⟩
  | none =>
    have hlt := (List.getElem?_eq_some_iff.1 hi).1
    have hle := List.getElem?_eq_none_iff.1 hrun
    rcases new_runs hmove with heq | ⟨query, request, registration, recipient, heq⟩
    · omega
    · rw [heq, Database.getElem?_push] at hi
      split at hi
      · cases hi
        exact ⟨[], shows_new query request registration recipient⟩
      · rw [hrun] at hi
        cases hi

theorem Traced.moves (h : s.Traced) (hplaced : s.Placed) (hmoves : Moves s s') : s'.Traced := by
  induction hmoves with
  | refl => exact h
  | tail hmoves hmove ih => exact ih.move (Moment.onward_moves hplaced hmoves).1 hmove

end Stance

namespace Moment

open Execution

variable {σ : Type} {m m' : Moment σ}

/-- Every run of a database is the course of a history. -/
theorem Reached.traced (h : m.Reached) :
    ∀ run ∈ m.db.runs, ∃ history, (after history).Shows run := by
  induction h with
  | @create config least numbered client db hcreate =>
    rw [Database.create] at hcreate
    split at hcreate
    · cases hcreate
    · cases hcreate
      intro run hrun
      cases hrun
  | @step m m' hreached hstep ih =>
    have htraced : Stance.Traced ⟨m, none⟩ := ih
    obtain ⟨hplaced, -⟩ := hreached.attended
    exact htraced.moves hplaced (hstep.moves hplaced.runsApart)

end Moment

namespace Execution

open Relation

/-- The cancellation of a run, for every order of its task and of any number of calls.

The store is scanned and a result delivered at most once, and neither if a call takes effect before
the start.  A run that began and is over has delivered one thing: that it was cancelled, exactly if
a call took effect after the start, and otherwise what it has come to.  A call returns `true`
exactly if that is never delivered.

Every run of a database is such a run, and goes on as one. -/
theorem cancelled_or_delivered :
    (∀ history,
      ((after history).delivered.length ≤ 1 ∧ (after history).scans ≤ 1) ∧
      ((∃ call ∈ (after history).calls, call.effect = some .beforeStart) →
        ∀ later, (after (history ++ later)).scans = 0 ∧
          (after (history ++ later)).delivered = [] ∧
          (after (history ++ later)).answer = .error .cancelled) ∧
      ((after history).began = true → (after history).isOver = true →
        ∃ delivery, (after history).delivered = [delivery] ∧
          ((∃ call ∈ (after history).calls, call.effect = some .afterStart) →
            delivery = .cancelled) ∧
          ((¬∃ call ∈ (after history).calls, call.effect = some .afterStart) →
            ∃ found generation, (after history).finding = some found ∧
              delivery = .real (found.outcome generation))) ∧
      ∀ call ∈ (after history).calls, ∀ reply, call.progress = .returned reply →
        (reply = true ↔
          ∀ later outcome, .real outcome ∉ (after (history ++ later)).delivered) ∧
        (reply = false → ∀ later, (after (history ++ later)).isOver = true →
          ∃ outcome, .real outcome ∈ (after (history ++ later)).delivered)) ∧
    ∀ (σ : Type) (m m' : Moment σ), m.Reached → ReflTransGen Moment.Step m m' →
      ∀ (id : Nat) (run : Run), m.db.runs[id]? = some run →
        (∃ history, (after history).Shows run) ∧
        ∀ history, (after history).Shows run → ∃ later run', m'.db.runs[id]? = some run' ∧
          (after (history ++ later)).Shows run' := by
  refine ⟨fun history => ⟨(sound_after history).at_most_once, ?_, ?_, ?_⟩, ?_⟩
  · rintro ⟨call, hcall, heffect⟩ later
    obtain ⟨hcancelled, hbegan⟩ := (sound_after history).of_beforeStart hcall heffect
    obtain ⟨hcancelled', hbegan'⟩ := (onward_after history later).cancelled hcancelled
    exact (sound_after _).untouched hcancelled' (hbegan'.trans hbegan)
  · intro hbegan hover
    have hside := (sound_after history).afterStart_iff hbegan
    obtain ⟨delivery, hdelivered, hcases⟩ := (sound_after history).delivers_one hbegan hover
    refine ⟨delivery, hdelivered, fun hafter => ?_, fun hnot => ?_⟩
    · rcases hcases with ⟨-, hdelivery⟩ | ⟨hdone, -⟩
      · exact hdelivery
      · rw [hside, hdone] at hafter
        cases hafter
    · rcases hcases with ⟨hcancelled, -⟩ | ⟨-, hreal⟩
      · exact absurd (hside.2 hcancelled) hnot
      · exact hreal
  · intro call hcall reply hreturned
    have hknows := (sound_after history).knows call hcall
    rw [hreturned] at hknows
    obtain ⟨hclosed, hreply⟩ := hknows
    refine ⟨⟨fun htrue later outcome hreal => ?_, fun hnever => ?_⟩, fun hfalse later hover => ?_⟩
    · have hcancelled := ((onward_after history later).cancelled (hreply.1 htrue)).1
      rw [(sound_after _).done_of_real hreal] at hcancelled
      cases hcancelled
    · refine hreply.2 (hclosed.resolve_right fun hdone => ?_)
      obtain ⟨outcome, hreal⟩ := (sound_after history).real_of_done hdone
      exact hnever [.deliver none] outcome (after_append history _ ▸ hreal)
    · have hdone : (after history).control = .done :=
        hclosed.resolve_left fun hcancelled => by simp [hreply.2 hcancelled] at hfalse
      have hdone' := (onward_after history later).done hdone
      have hsound := sound_after (history ++ later)
      obtain ⟨delivery, hdelivered, ⟨hcancelled, -⟩ | ⟨-, found, generation, -, rfl⟩⟩ :=
        hsound.delivers_one (hsound.began_of_done hdone') hover
      · rw [hdone'] at hcancelled
        cases hcancelled
      · exact ⟨_, hdelivered ▸ List.mem_singleton.2 rfl⟩
  · intro σ m m' hreached hsteps id run hrun
    refine ⟨hreached.traced run (List.mem_of_getElem? hrun), fun history hshows => ?_⟩
    obtain ⟨run', hrun', hgoes⟩ := (hreached.onward hsteps).runs id run hrun
    obtain ⟨later, hshows'⟩ := hshows.goes_on hgoes
    exact ⟨later, run', hrun', hshows'⟩

end Execution

end Viewbase
