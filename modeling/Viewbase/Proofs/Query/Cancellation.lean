import Mathlib.Data.List.Induction
import Viewbase.Query.Run

/-!
The cancellation of a background run, access by access.

The task of a run and any number of calls for its cancellation share one control and change it by
exchanges only.  A call is up to three accesses of its own, and anything may happen between them.
What holds of a run and its calls holds after every history of both (`Sound`).
-/

namespace Viewbase

namespace Control

/-- Exchange a control for another if it is the one expected; the reply tells whether it was. -/
def exchange (expected next control : Control) : Control × Bool :=
  if control = expected then (next, true) else (control, false)

theorem start_eq (control : Control) : control.start = exchange .pending .running control := by
  cases control <;> rfl

theorem finish_eq (control : Control) : control.finish = exchange .running .done control := by
  cases control <;> rfl

/-- A call for cancellation that nothing comes between: two exchanges and, if both fail, one more
look. -/
theorem cancel_eq (control : Control) :
    control.cancel =
      match exchange .pending .cancelled control with
      | (first, true) => (first, true)
      | (first, false) =>
        match exchange .running .cancelled first with
        | (second, true) => (second, true)
        | (second, false) => (second, decide (second = .cancelled)) := by
  cases control <;> rfl

end Control

/-! ## The task and the calls -/

namespace Execution

/-- What the task of a run comes to: its scan is refused, or it has a result. -/
inductive Found where
  | refused (error : QueryError)
  | scanned (result : Except IndexError Answer)

/-- The real result.  An error of the store comes with the generation that the query has. -/
def Found.outcome (generation : Option Nat) : Found → Outcome
  | .refused error => .error error
  | .scanned (.ok answer) => .ok answer
  | .scanned (.error error) => .error ((QueryError.ofIndexError error).wrap generation)

/-- How often the store is scanned for it. -/
def Found.scans : Found → Nat
  | .refused _ => 0
  | .scanned _ => 1

/-- How far the task has come. -/
inductive Place where
  | waiting
  /-- It has a permit. -/
  | admitted
  | started
  | found (found : Found)
  /-- It has finished, and the real result is to be delivered. -/
  | finished (found : Found)
  /-- It was cancelled meanwhile, which is to be delivered. -/
  | discarded
  | delivered
  /-- It ended without having started. -/
  | abandoned

/-- What is delivered. -/
inductive Delivery where
  | real (outcome : Outcome)
  | cancelled

def Delivery.outcome : Delivery → Outcome
  | .real outcome => outcome
  | .cancelled => .error .cancelled

/-- When a call for cancellation took effect. -/
inductive Effect where
  | beforeStart
  | afterStart
  deriving DecidableEq

/-- How far a call for cancellation has come: to which of its three accesses, or to its end. -/
inductive Progress where
  | first
  | second
  | reread
  | returned (reply : Bool)

structure Call where
  progress : Progress
  effect : Option Effect

/-- Something that happens in the task, or in a call for cancellation. -/
inductive Event where
  | permit
  /-- The task starts; the registration of its scan may have been refused. -/
  | start (refusal : Option QueryError)
  | scan (result : Except IndexError Answer)
  | finish
  | deliver (generation : Option Nat)
  | call
  /-- A call makes its next access. -/
  | proceed (call : Nat)

end Execution

open Execution

/-- A run with the calls for its cancellation, and what has come of them. -/
structure Execution where
  place : Place
  control : Control
  /-- The task has started. -/
  began : Bool
  /-- What the task has come to. -/
  finding : Option Found
  /-- How often the store was scanned. -/
  scans : Nat
  delivered : List Delivery
  calls : List Call

namespace Execution

def submitted : Execution :=
  ⟨.waiting, .pending, false, none, 0, [], []⟩

/-- The task has come to its end. -/
def isOver (e : Execution) : Bool :=
  match e.place with
  | .delivered => true
  | .abandoned => true
  | _ => false

/-- What whoever waits for the run is told. -/
def answer (e : Execution) : Outcome :=
  (e.delivered.head?.map Delivery.outcome).getD (.error .cancelled)

/-! ### The task -/

def permit (e : Execution) : Execution :=
  match e.place with
  | .waiting => { e with place := .admitted }
  | _ => e

def find (found : Found) (e : Execution) : Execution :=
  { e with place := .found found, finding := some found, scans := e.scans + found.scans }

def start (refusal : Option QueryError) (e : Execution) : Execution :=
  match e.place with
  | .admitted =>
    match e.control.start, refusal with
    | (control, true), none => { e with control := control, began := true, place := .started }
    | (control, true), some error =>
      { e with control := control, began := true }.find (.refused error)
    | (_, false), _ => { e with place := .abandoned }
  | _ => e

def scan (result : Except IndexError Answer) (e : Execution) : Execution :=
  match e.place with
  | .started => e.find (.scanned result)
  | _ => e

def finish (e : Execution) : Execution :=
  match e.place with
  | .found found =>
    match e.control.finish with
    | (control, true) => { e with control := control, place := .finished found }
    | (_, false) => { e with place := .discarded }
  | _ => e

def deliver (generation : Option Nat) (e : Execution) : Execution :=
  match e.place with
  | .finished found =>
    { e with place := .delivered, delivered := e.delivered ++ [.real (found.outcome generation)] }
  | .discarded => { e with place := .delivered, delivered := e.delivered ++ [.cancelled] }
  | _ => e

/-! ### The calls -/

/-- The next access of a call: two exchanges in turn, then one more look. -/
def access (control : Control) : Progress → Control × Progress
  | .first =>
    match Control.exchange .pending .cancelled control with
    | (control, true) => (control, .returned true)
    | (control, false) => (control, .second)
  | .second =>
    match Control.exchange .running .cancelled control with
    | (control, true) => (control, .returned true)
    | (control, false) => (control, .reread)
  | .reread => (control, .returned (decide (control = .cancelled)))
  | .returned reply => (control, .returned reply)

/-- The effect that a call has which takes effect now. -/
def effectNow (e : Execution) : Effect :=
  if e.began then .afterStart else .beforeStart

/-- A call makes its next access.  It takes effect if that changes the control. -/
def proceed (id : Nat) (e : Execution) : Execution :=
  match e.calls[id]? with
  | none => e
  | some call =>
    let (control, progress) := access e.control call.progress
    let effect := if control = e.control then call.effect else some e.effectNow
    { e with control := control, calls := e.calls.set id ⟨progress, effect⟩ }

/-! ### Histories -/

def perform (e : Execution) : Event → Execution
  | .permit => e.permit
  | .start refusal => e.start refusal
  | .scan result => e.scan result
  | .finish => e.finish
  | .deliver generation => e.deliver generation
  | .call => { e with calls := e.calls ++ [⟨.first, none⟩] }
  | .proceed id => e.proceed id

def performAll (e : Execution) (events : List Event) : Execution :=
  events.foldl perform e

/-- A run and its calls after a history of both. -/
def after (history : List Event) : Execution :=
  submitted.performAll history

theorem after_append (history later : List Event) :
    after (history ++ later) = (after history).performAll later :=
  List.foldl_append

/-! ## What holds throughout -/

/-- What goes with each place of the task. -/
inductive Fits : Execution → Prop where
  | waiting {control : Control} {calls : List Call}
      (h : control = .pending ∨ control = .cancelled) :
      Fits ⟨.waiting, control, false, none, 0, [], calls⟩
  | admitted {control : Control} {calls : List Call}
      (h : control = .pending ∨ control = .cancelled) :
      Fits ⟨.admitted, control, false, none, 0, [], calls⟩
  | started {control : Control} {calls : List Call}
      (h : control = .running ∨ control = .cancelled) :
      Fits ⟨.started, control, true, none, 0, [], calls⟩
  | found {control : Control} {calls : List Call} (found : Found)
      (h : control = .running ∨ control = .cancelled) :
      Fits ⟨.found found, control, true, some found, found.scans, [], calls⟩
  | finished {calls : List Call} (found : Found) :
      Fits ⟨.finished found, .done, true, some found, found.scans, [], calls⟩
  | discarded {calls : List Call} (found : Found) :
      Fits ⟨.discarded, .cancelled, true, some found, found.scans, [], calls⟩
  | real {calls : List Call} (found : Found) (generation : Option Nat) :
      Fits ⟨.delivered, .done, true, some found, found.scans,
        [.real (found.outcome generation)], calls⟩
  | cancelled {calls : List Call} (found : Found) :
      Fits ⟨.delivered, .cancelled, true, some found, found.scans, [.cancelled], calls⟩
  | abandoned {calls : List Call} : Fits ⟨.abandoned, .cancelled, false, none, 0, [], calls⟩

/-- What a call has found out so far about the control. -/
def Progress.Knows (control : Control) : Progress → Prop
  | .first => True
  | .second => control ≠ .pending
  | .reread => control = .cancelled ∨ control = .done
  | .returned reply =>
    (control = .cancelled ∨ control = .done) ∧ (reply = true ↔ control = .cancelled)

/-- The run and its calls know the same of each other. -/
structure Sound (e : Execution) : Prop where
  fits : e.Fits
  knows : ∀ call ∈ e.calls, call.progress.Knows e.control
  /-- Calls that took effect all did on the same side of the start. -/
  side : ∀ call ∈ e.calls, ∀ effect, call.effect = some effect → effect = e.effectNow
  cancelled : e.control = .cancelled ↔ ∃ call ∈ e.calls, call.effect ≠ none

theorem sound_submitted : Sound submitted where
  fits := .waiting (.inl rfl)
  knows := by simp [submitted]
  side := by simp [submitted]
  cancelled := by simp [submitted]

/-- What the task does to the control, and when it begins. -/
inductive Advance : Control → Bool → Control → Bool → Prop where
  | stay {control : Control} {began : Bool} : Advance control began control began
  | start : Advance .pending false .running true
  | finish : Advance .running true .done true

variable {e e' : Execution}

theorem Progress.Knows.advance {control control' : Control} {began began' : Bool}
    {progress : Progress} (h : progress.Knows control)
    (hadvance : Advance control began control' began') : progress.Knows control' := by
  cases hadvance with
  | stay => exact h
  | start | finish => cases progress <;> simp_all [Progress.Knows]

/-- The task goes on while the calls stay where they are. -/
theorem Sound.task (h : e.Sound) (hcalls : e'.calls = e.calls)
    (hfits : e'.Fits)
    (hadvance : Advance e.control e.began e'.control e'.began) : e'.Sound := by
  have hsame : (e'.control = .cancelled ↔ e.control = .cancelled) ∧
      (e.control = .cancelled → e'.effectNow = e.effectNow) := by
    unfold effectNow
    generalize e.control = control, e.began = began, e'.control = control', e'.began = began'
      at hadvance
    cases hadvance <;> simp
  refine ⟨hfits, ?_, ?_, ?_⟩
  · rw [hcalls]
    exact fun call hcall => (h.knows call hcall).advance hadvance
  · rw [hcalls]
    intro call hcall effect heffect
    have hcancelled := h.cancelled.2 ⟨call, hcall, by simp [heffect]⟩
    rw [hsame.2 hcancelled]
    exact h.side call hcall effect heffect
  · rw [hcalls, hsame.1]
    exact h.cancelled

theorem Sound.permit (h : e.Sound) : e.permit.Sound := by
  cases hplace : e.place with
  | waiting =>
    cases h.fits with
    | waiting hcontrol => exact h.task rfl (.admitted hcontrol) .stay
    | _ => cases hplace
  | _ => simpa [Execution.permit, hplace] using h

theorem Sound.start (h : e.Sound) (refusal : Option QueryError) : (e.start refusal).Sound := by
  cases hplace : e.place with
  | admitted =>
    cases h.fits with
    | admitted hcontrol =>
      rcases hcontrol with rfl | rfl
      · cases refusal with
        | none => exact h.task rfl (.started (.inl rfl)) .start
        | some error => exact h.task rfl (.found (.refused error) (.inl rfl)) .start
      · exact h.task rfl .abandoned .stay
    | _ => cases hplace
  | _ => simpa [Execution.start, hplace] using h

theorem Sound.scan (h : e.Sound) (result : Except IndexError Answer) : (e.scan result).Sound := by
  cases hplace : e.place with
  | started =>
    cases h.fits with
    | started hcontrol => exact h.task rfl (.found (.scanned result) hcontrol) .stay
    | _ => cases hplace
  | _ => simpa [Execution.scan, hplace] using h

theorem Sound.finish (h : e.Sound) : e.finish.Sound := by
  cases hplace : e.place with
  | found found =>
    cases h.fits with
    | found found hcontrol =>
      rcases hcontrol with rfl | rfl
      · exact h.task rfl (.finished found) .finish
      · exact h.task rfl (.discarded found) .stay
    | _ => cases hplace
  | _ => simpa [Execution.finish, hplace] using h

theorem Sound.deliver (h : e.Sound) (generation : Option Nat) : (e.deliver generation).Sound := by
  cases hplace : e.place with
  | finished found =>
    cases h.fits with
    | finished found => exact h.task rfl (.real found generation) .stay
    | _ => cases hplace
  | discarded =>
    cases h.fits with
    | discarded found => exact h.task rfl (.cancelled found) .stay
    | _ => cases hplace
  | _ => simpa [Execution.deliver, hplace] using h

/-! ## Calls -/

/-- The calls change nothing but the control, and that only to cancel what is neither over nor
cancelled. -/
theorem Fits.cancel (h : e.Fits) (hopen : e.control = .pending ∨ e.control = .running)
    (calls : List Call) : Fits { e with control := .cancelled, calls := calls } := by
  cases h with
  | waiting => exact .waiting (.inr rfl)
  | admitted => exact .admitted (.inr rfl)
  | started => exact .started (.inr rfl)
  | found found => exact .found found (.inr rfl)
  | finished | real => simp at hopen
  | discarded found => exact .discarded found
  | cancelled found => exact .cancelled found
  | abandoned => exact .abandoned

theorem Fits.calls (h : e.Fits) (calls : List Call) : Fits { e with calls := calls } := by
  cases h <;> constructor <;> assumption

/-- What an access comes to. -/
theorem access_cases (control : Control) (progress : Progress) (h : progress.Knows control) :
    ((control = .pending ∨ control = .running) ∧
        access control progress = (.cancelled, .returned true)) ∨
      ∃ progress', access control progress = (control, progress') ∧ progress'.Knows control := by
  cases progress <;> cases control <;> simp_all [access, Control.exchange, Progress.Knows]

theorem Sound.call (h : e.Sound) :
    Sound { e with calls := e.calls ++ [⟨.first, none⟩] } where
  fits := h.fits.calls _
  knows := by
    intro call hcall
    rcases List.mem_append.1 hcall with hold | hnew
    · exact h.knows call hold
    · rw [List.mem_singleton.1 hnew]
      trivial
  side := by
    intro call hcall effect heffect
    rcases List.mem_append.1 hcall with hold | hnew
    · exact h.side call hold effect heffect
    · rw [List.mem_singleton.1 hnew] at heffect
      cases heffect
  cancelled := by simpa [or_and_right, exists_or] using h.cancelled

theorem Progress.Knows.cancel {control : Control} {progress : Progress}
    (h : progress.Knows control) (hopen : control = .pending ∨ control = .running) :
    progress.Knows .cancelled := by
  cases progress <;> rcases hopen with rfl | rfl <;> simp_all [Progress.Knows]

theorem map_effect_set {calls : List Call} {id : Nat} {call : Call} (hcall : calls[id]? = some call)
    (progress : Progress) :
    (calls.set id ⟨progress, call.effect⟩).map Call.effect = calls.map Call.effect := by
  obtain ⟨hlt, rfl⟩ := List.getElem?_eq_some_iff.1 hcall
  rw [List.map_set]
  exact List.ext_getElem (by simp) fun j _ _ => by
    rw [List.getElem_set]
    split
    next heq => simp [heq]
    next => rfl

theorem Sound.proceed (h : e.Sound) (id : Nat) : (e.proceed id).Sound := by
  cases hcall : e.calls[id]? with
  | none => simpa [Execution.proceed, hcall] using h
  | some call =>
    have hmem := List.mem_of_getElem? hcall
    rcases access_cases e.control call.progress (h.knows call hmem) with
      ⟨hopen, haccess⟩ | ⟨progress, haccess, hknows⟩
    · -- The call takes effect, as the first one.
      have hchanged : Control.cancelled ≠ e.control := by
        rcases hopen with heq | heq <;> simp [heq]
      have hnone : ∀ other ∈ e.calls, other.effect = none := fun other hother => by
        by_contra heffect
        exact hchanged (h.cancelled.2 ⟨other, hother, heffect⟩).symm
      have heq : e.proceed id = { e with
          control := .cancelled
          calls := e.calls.set id ⟨.returned true, some e.effectNow⟩ } := by
        simp [Execution.proceed, hcall, haccess, hchanged]
      rw [heq]
      refine ⟨h.fits.cancel hopen _, ?_, ?_, ?_⟩
      · intro other hother
        rcases List.mem_or_eq_of_mem_set hother with hold | rfl
        · exact (h.knows other hold).cancel hopen
        · exact ⟨.inl rfl, by simp⟩
      · intro other hother effect heffect
        rcases List.mem_or_eq_of_mem_set hother with hold | rfl
        · rw [hnone other hold] at heffect
          cases heffect
        · exact (Option.some.inj heffect).symm
      · refine iff_of_true rfl ⟨_, List.mem_set (List.getElem?_eq_some_iff.1 hcall).1 _, ?_⟩
        simp
    · have heq : e.proceed id =
          { e with calls := e.calls.set id ⟨progress, call.effect⟩ } := by
        simp [Execution.proceed, hcall, haccess]
      have heffects := map_effect_set hcall progress
      rw [heq]
      refine ⟨h.fits.calls _, ?_, ?_, ?_⟩
      · intro other hother
        rcases List.mem_or_eq_of_mem_set hother with hold | rfl
        · exact h.knows other hold
        · exact hknows
      · intro other hother effect heffect
        have hsome : some effect ∈ e.calls.map Call.effect :=
          heffects ▸ List.mem_map.2 ⟨other, hother, heffect⟩
        obtain ⟨old, hold, hsame⟩ := List.mem_map.1 hsome
        exact h.side old hold effect hsame
      · have hany : ∀ calls : List Call, (∃ call ∈ calls, call.effect ≠ none) ↔
            ∃ effect ∈ calls.map Call.effect, effect ≠ none := by simp
        exact h.cancelled.trans ((hany _).trans (heffects ▸ (hany _).symm))

/-! ## Every history -/

theorem Sound.perform (h : e.Sound) (event : Event) : (e.perform event).Sound := by
  cases event with
  | permit => exact h.permit
  | start refusal => exact h.start refusal
  | scan result => exact h.scan result
  | finish => exact h.finish
  | deliver generation => exact h.deliver generation
  | call => exact h.call
  | proceed id => exact h.proceed id

theorem Sound.performAll (h : e.Sound) (events : List Event) : (e.performAll events).Sound := by
  induction events generalizing e with
  | nil => exact h
  | cons event events ih => exact ih (h.perform event)

theorem sound_after (history : List Event) : (after history).Sound :=
  sound_submitted.performAll history

/-- What was cancelled stays so and does not start, and what is done stays done. -/
structure Onward (e e' : Execution) : Prop where
  cancelled : e.control = .cancelled → e'.control = .cancelled ∧ e'.began = e.began
  done : e.control = .done → e'.control = .done

theorem Onward.of_eq (hcontrol : e'.control = e.control) (hbegan : e'.began = e.began) :
    e.Onward e' :=
  ⟨fun h => ⟨hcontrol.trans h, hbegan⟩, hcontrol.trans⟩

theorem access_closed {control : Control} (h : control = .cancelled ∨ control = .done)
    (progress : Progress) : (access control progress).1 = control := by
  rcases h with rfl | rfl <;> cases progress <;> rfl

theorem onward_perform (e : Execution) (event : Event) : e.Onward (e.perform event) := by
  cases event with
  | permit =>
    rw [perform, permit]
    split <;> exact .of_eq rfl rfl
  | start refusal =>
    rw [perform]
    unfold start
    split
    · obtain ⟨place, control, began, finding, scans, delivered, calls⟩ := e
      cases control with
      | pending => cases refusal <;> exact ⟨nofun, nofun⟩
      | _ => exact .of_eq rfl rfl
    · exact .of_eq rfl rfl
  | scan result =>
    rw [perform, scan]
    split <;> exact .of_eq rfl rfl
  | finish =>
    rw [perform, finish]
    split
    · obtain ⟨place, control, began, finding, scans, delivered, calls⟩ := e
      cases control with
      | running => exact ⟨nofun, nofun⟩
      | _ => exact .of_eq rfl rfl
    · exact .of_eq rfl rfl
  | deliver generation =>
    rw [perform, deliver]
    split <;> exact .of_eq rfl rfl
  | call => exact .of_eq rfl rfl
  | proceed id =>
    rw [perform, proceed]
    split
    · exact .of_eq rfl rfl
    next call _ =>
      exact ⟨fun h => ⟨(access_closed (.inl h) call.progress).trans h, rfl⟩,
        fun h => (access_closed (.inr h) call.progress).trans h⟩

theorem onward_performAll (e : Execution) (events : List Event) :
    e.Onward (e.performAll events) := by
  induction events generalizing e with
  | nil => exact .of_eq rfl rfl
  | cons event events ih =>
    have hfirst := onward_perform e event
    have hrest := ih (e.perform event)
    refine ⟨fun h => ?_, fun h => hrest.done (hfirst.done h)⟩
    obtain ⟨hcontrol, hbegan⟩ := hfirst.cancelled h
    obtain ⟨hcontrol', hbegan'⟩ := hrest.cancelled hcontrol
    exact ⟨hcontrol', hbegan'.trans hbegan⟩

theorem onward_after (history later : List Event) :
    (after history).Onward (after (history ++ later)) := by
  rw [after_append]
  exact onward_performAll _ later

/-! ## What comes of a run -/

theorem Sound.at_most_once (h : e.Sound) : e.delivered.length ≤ 1 ∧ e.scans ≤ 1 := by
  have hscans : ∀ found : Found, found.scans ≤ 1 := fun found => by
    cases found <;> simp [Found.scans]
  cases h.fits <;> simp [hscans]

/-- A run that is cancelled and has not begun comes to nothing. -/
theorem Sound.untouched (h : e.Sound) (hcancelled : e.control = .cancelled)
    (hbegan : e.began = false) :
    e.scans = 0 ∧ e.delivered = [] ∧ e.answer = .error .cancelled := by
  cases h.fits with
  | waiting | admitted | abandoned => exact ⟨rfl, rfl, rfl⟩
  | _ => simp_all

/-- A run that began and is over has delivered one thing. -/
theorem Sound.delivers_one (h : e.Sound) (hbegan : e.began = true) (hover : e.isOver = true) :
    ∃ delivery, e.delivered = [delivery] ∧
      ((e.control = .cancelled ∧ delivery = .cancelled) ∨
        (e.control = .done ∧ ∃ found generation, e.finding = some found ∧
          delivery = .real (found.outcome generation))) := by
  cases h.fits with
  | real found generation => exact ⟨_, rfl, .inr ⟨rfl, found, generation, rfl, rfl⟩⟩
  | cancelled found => exact ⟨_, rfl, .inl ⟨rfl, rfl⟩⟩
  | abandoned => cases hbegan
  | _ => cases hover

/-- A run that has started is running until it is cancelled. -/
theorem Sound.of_started (h : e.Sound) (hstarted : e.place = .started) :
    e.control = .running ∨ e.control = .cancelled := by
  cases h.fits with
  | started hcontrol => exact hcontrol
  | _ => cases hstarted

/-- A run that is cancelled comes to nothing else. -/
theorem Sound.answer_of_cancelled (h : e.Sound) (hcancelled : e.control = .cancelled) :
    e.answer = .error .cancelled := by
  cases h.fits with
  | waiting | admitted | started | found | abandoned | discarded | cancelled => rfl
  | _ => cases hcancelled

/-- Only a run that is done delivers a real result. -/
theorem Sound.done_of_real (h : e.Sound) {outcome : Outcome} (hreal : .real outcome ∈ e.delivered) :
    e.control = .done := by
  cases h.fits <;> simp_all

/-- A run that is done has delivered the real result, or can do so. -/
theorem Sound.real_of_done (h : e.Sound) (hdone : e.control = .done) :
    ∃ outcome, .real outcome ∈ (e.deliver none).delivered := by
  cases h.fits with
  | finished found => exact ⟨found.outcome none, List.mem_singleton.2 rfl⟩
  | real found generation => exact ⟨found.outcome generation, List.mem_singleton.2 rfl⟩
  | waiting hcontrol | admitted hcontrol | started hcontrol | found found hcontrol => simp_all
  | _ => cases hdone

theorem Sound.began_of_done (h : e.Sound) (hdone : e.control = .done) : e.began = true := by
  cases h.fits <;> simp_all

/-- A run has been cancelled after its start exactly if it began and is cancelled. -/
theorem Sound.afterStart_iff (h : e.Sound) (hbegan : e.began = true) :
    (∃ call ∈ e.calls, call.effect = some .afterStart) ↔ e.control = .cancelled := by
  rw [h.cancelled]
  constructor
  · rintro ⟨call, hcall, heffect⟩
    exact ⟨call, hcall, by simp [heffect]⟩
  · rintro ⟨call, hcall, heffect⟩
    obtain ⟨effect, heq⟩ := Option.ne_none_iff_exists'.1 heffect
    have hside := h.side call hcall effect heq
    rw [effectNow, if_pos hbegan] at hside
    exact ⟨call, hcall, hside ▸ heq⟩

theorem Sound.of_beforeStart (h : e.Sound) {call : Call} (hcall : call ∈ e.calls)
    (heffect : call.effect = some .beforeStart) : e.control = .cancelled ∧ e.began = false := by
  refine ⟨h.cancelled.2 ⟨call, hcall, by simp [heffect]⟩, ?_⟩
  have hside := h.side call hcall _ heffect
  rw [effectNow] at hside
  cases hbegan : e.began with
  | false => rfl
  | true => simp [hbegan] at hside

end Execution

end Viewbase
