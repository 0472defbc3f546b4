import Mathlib.Data.List.Nodup
import Viewbase.Proofs.Database.Deed
import Viewbase.Proofs.Database.Overtaking

/-!
Sessions of background runs and of queries that are run at once.

Beside everything that can happen to a database, with a store that may refuse any request, queries
are run at once on threads of their own, and a refused run may be cancelled after its start.
Permits and registered scans are conserved (`Reached.permits_and_guards_conserved`).  Every
execution that was let in is counted once, under what it came to, with one exception: a refused run
that is cancelled after its start counts as failed besides (`Reached.every_execution_counted`,
`overtaken_run_counted_twice`).  A query that is run at once and refused is counted nowhere
(`refused_call_uncounted`).
-/

namespace Viewbase

/-- A query that is run at once and has been let in. -/
structure AtOnce where
  query : Nat
  request : Request
  /-- The temporary index that its scan is registered with, if it needs one. -/
  temporary : Option Nat

/-- A moment, and the queries that are run at once. -/
structure Session (σ : Type) extends Moment σ where
  /-- How many were. -/
  made : Nat
  /-- Those that are under way. -/
  calls : List AtOnce
  /-- What those came to that were let in and have come back. -/
  returned : List Outcome
  /-- Why the others were refused. -/
  refusals : List QueryError
  /-- Why the runs were refused that were cancelled after their start. -/
  overtaken : List QueryError

namespace Session

open Database Moment Relation

variable {σ : Type} {s s' : Session σ} {config : Config}

/-- How many queries that are run at once have a scan registered with a temporary index. -/
def holds (s : Session σ) (id : Nat) : Nat :=
  s.calls.countP fun call => call.temporary == some id

/-- What can happen next.  Any action may be taken while the store refuses what it likes, and what
is told to whom may come in steps of its own.  A query that is run at once registers its scan or is
refused; once it is let in, anything else happens until it comes back with whatever its scan
answered.  A refused run whose turn comes may be cancelled after its start and before its finish. -/
inductive Step : Session σ → Session σ → Prop where
  | act {s : Session σ} {c : Client σ} (hc : c.Passive) (action : Action)
      (hspares : SparesScans action) : Step s { s with db := s.db.perform c action }
  | deed {s : Session σ} {m : Moment σ} {deed : Deed σ} (hdeed : ∀ action, deed ≠ .act action)
      (hdoes : s.toMoment.Does deed m) : Step s { s with toMoment := m }
  | call {s : Session σ} {id : Nat} {query : Query} {temporary : Option Nat}
      (hquery : s.db.queries[id]? = some query)
      (hregister : (s.db.register id).2 = .ok temporary) :
      Step s
        { s with
          db := (s.db.register id).1
          made := s.made + 1
          calls := ⟨id, query.request, temporary⟩ :: s.calls }
  | refuse {s : Session σ} {id : Nat} {error : QueryError}
      (hregister : (s.db.register id).2 = .error error) :
      Step s
        { s with
          db := (s.db.register id).1
          made := s.made + 1
          refusals := error :: s.refusals }
  | comeBack {s : Session σ} {c : Client σ} (hc : c.Passive) {earlier later : List AtOnce}
      {call : AtOnce} (hcalls : s.calls = earlier ++ call :: later)
      (result : Except IndexError Answer) :
      Step s
        { s with
          db := ((s.db.endRegistration c call.temporary).complete call.query call.request.target
            result).1
          calls := earlier ++ later
          returned := ((s.db.endRegistration c call.temporary).complete call.query
            call.request.target result).2 :: s.returned }
  | overtake {s : Session σ} {c : Client σ} (hc : c.Passive) {id : Nat} {run : Run}
      {error : QueryError} (hready : .run id ∈ s.db.ready)
      (hrefused : s.db.AtRefusal id run error) :
      Step s
        { s with
          db := s.db.overtakeRun c id error
          overtaken := error :: s.overtaken }

/-- The sessions that steps lead to from a new database. -/
inductive Reached (config : Config) : Session σ → Prop where
  | create {least : Severity} {numbered : Nat} {client : σ} {db : Database σ}
      (hcreate : Database.create config least numbered client = .ok db) :
      Reached config ⟨⟨db, [], []⟩, 0, [], [], [], []⟩
  | step {s s' : Session σ} (hreached : Reached config s) (hstep : Step s s') : Reached config s'

/-- To run a query at once without a break is to be let in, to scan and to come back. -/
theorem steps_runQuery {c : Client σ} (hc : c.Passive) {id : Nat} {query : Query}
    {temporary : Option Nat} (hquery : s.db.queries[id]? = some query)
    (hregister : (s.db.register id).2 = .ok temporary) :
    ReflTransGen Step s
      { s with
        db := (s.db.runQuery c id).1
        made := s.made + 1
        returned := (s.db.runQuery c id).2 :: s.returned } := by
  have hcalled := @Step.call σ s id query temporary hquery hregister
  have hscanned := @Step.act σ { s with
    db := (s.db.register id).1
    made := s.made + 1
    calls := ⟨id, query.request, temporary⟩ :: s.calls } c hc (.scan query.request) trivial
  have hback := @Step.comeBack σ { s with
    db := ((s.db.register id).1.scan c query.request).1
    made := s.made + 1
    calls := ⟨id, query.request, temporary⟩ :: s.calls } c hc [] s.calls
      ⟨id, query.request, temporary⟩ rfl ((s.db.register id).1.scan c query.request).2
  have hrun : s.db.runQuery c id = (((s.db.register id).1.scan c query.request).1.endRegistration c
      temporary).complete id query.request.target
        ((s.db.register id).1.scan c query.request).2 := by
    rw [runQuery, hquery]
    dsimp only
    cases hregistered : s.db.register id with
    | mk registered registration =>
      rw [hregistered] at hregister
      cases hregister
      rfl
  rw [hrun]
  exact ((ReflTransGen.single hcalled).tail hscanned).tail hback

/-- To run a query at once that is refused is to be refused. -/
theorem step_runQuery_refused {c : Client σ} {id : Nat} {error : QueryError}
    (hregister : (s.db.register id).2 = .error error) :
    (s.db.runQuery c id).2 = .error error ∧
      Step s
        { s with
          db := (s.db.runQuery c id).1
          made := s.made + 1
          refusals := error :: s.refusals } := by
  have hrun : s.db.runQuery c id = ((s.db.register id).1, .error error) := by
    rw [runQuery]
    split
    next hnone =>
      rw [register, hnone] at hregister ⊢
      cases hregister
      rfl
    next query _ =>
      cases hregistered : s.db.register id with
      | mk registered registration =>
        rw [hregistered] at hregister
        cases hregister
        rfl
  rw [hrun]
  exact ⟨rfl, .refuse hregister⟩

/-! ## What sessions conserve -/

/-- The permits, the registered scans and the counts of a session are as they should be. -/
structure Settled (slots : Nat) (s : Session σ) : Prop where
  roster : s.db.Roster slots s.holds (s.overtaken.map .error ++ s.returned)
  overtaken : ∀ error ∈ s.overtaken, error ≠ .cancelled
  made : s.made = s.calls.length + s.returned.length + s.refusals.length

/-- What is done to a moment besides actions leaves runs alone. -/
theorem offstage_does {m m' : Moment σ} {deed : Deed σ} (hdeed : ∀ action, deed ≠ .act action)
    (hdoes : m.Does deed m') : Offstage m.db m'.db := by
  have hsilent := Client.passive_silent σ
  cases hdoes with
  | act action hpermitted htells => exact absurd rfl (hdeed action)
  | write hedit hwrite => exact offstage_store m.db _
  | tell observer change => exact offstage_notifyOne hsilent change observer _
  | @takeIn _ task run refresh submitted hready htask hstage hrun =>
    have herased : Offstage m.db { m.db with ready := m.db.ready.erase (.refresh task) } :=
      { Offstage.refl m.db with ready := fun id => List.count_erase_of_ne (by simp) }
    exact herased.trans (offstage_finishLive hsilent refresh.live refresh.epoch submitted.answer _)
  | @retire _ task refresh htelling htask =>
    exact (offstage_updateRefresh m.db task _).trans (offstage_reap hsilent refresh.live _)
  | touch client => exact { Offstage.refl m.db with }

/-- A call that is let in holds what its scan is registered with. -/
theorem bump_holds (s : Session σ) (call : AtOnce) :
    bump s.holds call.temporary = holds { s with calls := call :: s.calls } := by
  funext id
  rw [bump, holds, holds, List.countP_cons]
  simp

theorem Settled.step {slots : Nat} (h : s.Settled slots) (hstep : s.Step s') :
    s'.Settled slots := by
  obtain ⟨hroster, hovertaken, hmade⟩ := h
  cases hstep with
  | act hc action hspares => exact ⟨hroster.perform hc hspares, hovertaken, hmade⟩
  | deed hdeed hdoes => exact ⟨hroster.offstage (offstage_does hdeed hdoes), hovertaken, hmade⟩
  | @call id query temporary hquery hregister =>
    have hregistered := hroster.register id
    rw [hregister] at hregistered
    have hbumped : bump s.holds temporary = _ := bump_holds s ⟨id, query.request, temporary⟩
    rw [Database.registered?, hbumped] at hregistered
    constructor
    · exact hregistered
    · exact hovertaken
    · simp only [List.length_cons]
      omega
  | @refuse id error hregister =>
    have hregistered := hroster.register id
    rw [hregister] at hregistered
    constructor
    · exact bump_none s.holds ▸ hregistered
    · exact hovertaken
    · simp only [List.length_cons]
      omega
  | @comeBack c hc earlier later call hcalls result =>
    have hholds : s.holds = bump (fun id => (earlier ++ later).countP fun call =>
        call.temporary == some id) call.temporary := by
      funext id
      simp only [holds, hcalls, bump, List.countP_append, List.countP_cons, beq_iff_eq]
      omega
    constructor
    · exact (Roster.comeBack hc (hholds ▸ hroster) call.query call.request.target result).perm
        List.perm_middle.symm
    · exact hovertaken
    · simp only [hcalls, List.length_append, List.length_cons] at hmade ⊢
      omega
  | overtake hc hready hrefused =>
    constructor
    · exact hroster.overtakeRun hc hready hrefused
    · exact List.forall_mem_cons.2 ⟨hroster.ne_cancelled hrefused, hovertaken⟩
    · exact hmade

theorem settled_create {least : Severity} {numbered : Nat} {client : σ} {db : Database σ}
    (hcreate : Database.create config least numbered client = .ok db) :
    Settled config.maxConcurrentScans ⟨⟨db, [], []⟩, 0, [], [], [], []⟩ := by
  rw [Database.create] at hcreate
  split at hcreate
  · cases hcreate
  · cases hcreate
    refine ⟨⟨fun id => ⟨rfl, rfl, rfl⟩, ?_⟩, List.forall_mem_nil _, rfl⟩
    constructor
    · rfl
    · rfl
    · rfl
    · intro fate
      cases fate <;> rfl
    · intro run hrun
      cases hrun
    · intro run hrun
      cases hrun
    · intro query hquery
      cases hquery

theorem Reached.settled (h : s.Reached config) : s.Settled config.maxConcurrentScans := by
  induction h with
  | create hcreate => exact settled_create hcreate
  | step _ hstep ih => exact ih.step hstep

/-! ## Permits and registered scans -/

/-- There are at least as many items with a property as there are different places of such. -/
theorem length_le_countP {α : Type} {items : List α} {p : α → Bool} {places : List Nat}
    (hnodup : places.Nodup) (h : ∀ i ∈ places, ∃ a, items[i]? = some a ∧ p a = true) :
    places.length ≤ items.countP p := by
  induction items using List.reverseRecOn generalizing places with
  | nil =>
    have hnone : places = [] := by
      refine List.eq_nil_iff_forall_not_mem.2 fun i hi => ?_
      obtain ⟨a, ha, -⟩ := h i hi
      cases ha
    rw [hnone]
    exact Nat.le_refl 0
  | append_singleton items a ih =>
    have hearlier : ∀ i ∈ places.erase items.length, ∃ b, items[i]? = some b ∧ p b = true := by
      intro i hi
      obtain ⟨hne, hplace⟩ := (hnodup.mem_erase_iff).1 hi
      obtain ⟨b, hb, hp⟩ := h i hplace
      rw [getElem?_push, if_neg hne] at hb
      exact ⟨b, hb, hp⟩
    have hfewer := ih (hnodup.erase _) hearlier
    rw [List.countP_append, List.countP_singleton]
    by_cases hlast : items.length ∈ places
    · obtain ⟨b, hb, hp⟩ := h _ hlast
      rw [getElem?_push, if_pos rfl] at hb
      cases hb
      rw [List.length_erase_of_mem hlast] at hfewer
      rw [if_pos hp]
      omega
    · rw [List.erase_of_not_mem hlast] at hfewer
      omega

/-- Every permit is free or held by a run, so no more scans of runs are under way than there are
permits; and the scans registered with a temporary index are those of runs and of queries run at
once.  Once no run is left all permits are free, and once no call is left either no scan is
registered. -/
theorem Reached.permits_and_guards_conserved (h : s.Reached config) :
    s.db.permits + s.db.runs.countP Run.holdsPermit = config.maxConcurrentScans ∧
    s.db.scanning.length ≤ config.maxConcurrentScans ∧
    (∀ (id : Nat) (record : Temporary), s.db.temporaries[id]? = some record →
      record.inFlight = registrants s.db.runs id + s.holds id) ∧
    ((∀ run ∈ s.db.runs, run.isOver = true) → s.db.permits = config.maxConcurrentScans ∧
      (s.calls = [] → ∀ record ∈ s.db.temporaries, record.inFlight = 0)) := by
  obtain ⟨⟨hlodged, hbalanced⟩, -, -⟩ := h.settled
  have hpermits := hbalanced.permits
  have hguards : ∀ (id : Nat) (record : Temporary), s.db.temporaries[id]? = some record →
      record.inFlight = registrants s.db.runs id + s.holds id := by
    intro id record hrecord
    have hid := congrFun hbalanced.guards id
    rw [Ahead.nothing, bump_none, inFlight_of_getElem? hrecord] at hid
    exact hid
  have hscanning : s.db.scanning.length ≤ s.db.runs.countP Run.holdsPermit := by
    refine length_le_countP (List.nodup_iff_count_eq_one.2 fun id hid => ?_) fun id hid => ?_
    · obtain ⟨run, -, -, -, -, honce⟩ := hlodged.of_scanning hid
      exact honce
    · obtain ⟨run, hrun, hstage, -⟩ := hlodged.of_scanning hid
      exact ⟨run, hrun, by rw [Run.holdsPermit, hstage]⟩
  refine ⟨hpermits, ?_, hguards, fun hover => ⟨?_, fun hcalls record hrecord => ?_⟩⟩
  · exact Nat.le_trans hscanning (Nat.le_trans (Nat.le_add_left _ _) (Nat.le_of_eq hpermits))
  · have hnone : s.db.runs.countP Run.holdsPermit = 0 := by
      refine List.countP_eq_zero.2 fun run hrun => ?_
      have hended := hover run hrun
      cases hstage : run.stage <;> simp [Run.isOver, Run.holdsPermit, hstage] at hended ⊢
    rw [hnone] at hpermits
    exact hpermits
  · obtain ⟨id, hid⟩ := List.mem_iff_getElem?.1 hrecord
    rw [hguards id record hid, holds, hcalls, List.countP_nil, Nat.add_zero, registrants]
    refine List.countP_eq_zero.2 fun run hrun => ?_
    have hended := hover run hrun
    cases hstage : run.stage <;> simp [Run.isOver, Run.registered?, hstage] at hended ⊢

/-- Two runs share one permit, and a call of their query is under way: the first run scans, the
second waits, and the scans of all three are registered. -/
theorem conserved_under_load : ∃ (s : Session Unit) (record : Temporary),
    s.Reached { maxConcurrentScans := 1 } ∧ s.db.temporaries[0]? = some record ∧
      s.db.scanning = [0] ∧ s.db.waiting = [1] ∧ s.db.permits = 0 ∧ record.inFlight = 3 := by
  have hmade := @Reached.create Unit { maxConcurrentScans := 1 } .info 0 () _ rfl
  have hsilent := Client.passive_silent Unit
  have hqueried := hmade.step (.act hsilent (.queryMap Store.bodyById) trivial)
  have hfirst := hqueried.step (.act hsilent (.submit 0 .handle) trivial)
  have hsecond := hfirst.step (.act hsilent (.submit 0 .handle) trivial)
  have hstarted := hsecond.step (.act hsilent (.go (.run 0)) trivial)
  have hqueued := hstarted.step (.act hsilent (.go (.run 1)) trivial)
  have hcalled := hqueued.step (@Step.call Unit _ 0 _ (some 0) rfl rfl)
  obtain ⟨-, -, hguards, -⟩ := hcalled.permits_and_guards_conserved
  exact ⟨_, _, hcalled, rfl, rfl, rfl, rfl, hguards 0 _ rfl⟩

/-! ## Counts -/

/-- Every background run that has ended, and every query run at once that was let in and has come
back, is counted once, under what it came to, but for the refused runs that were cancelled after
their start, which are counted as failed besides; and every submission is counted.  So once no run
and no call is left, the executions that are counted and the calls that were refused make up the
runs that were submitted, the queries that were run at once, and the refused runs that were
cancelled after their start. -/
theorem Reached.every_execution_counted (h : s.Reached config) :
    (∀ fate, s.db.metrics.counted fate = fates s.db.answers fate + fates s.returned fate +
      if fate = .failed then s.overtaken.length else 0) ∧
    s.db.metrics.submitted = s.db.runs.length ∧
    ((∀ run ∈ s.db.runs, run.isOver = true) → s.calls = [] →
      s.db.metrics.executed + s.db.metrics.failed + s.db.metrics.cancelled + s.refusals.length =
        s.db.metrics.submitted + s.made + s.overtaken.length) := by
  obtain ⟨⟨-, hbalanced⟩, hovertaken, hmade⟩ := h.settled
  have hcounted : ∀ fate, s.db.metrics.counted fate =
      fates s.db.answers fate + fates s.returned fate +
        if fate = .failed then s.overtaken.length else 0 := by
    intro fate
    have hfate : s.db.metrics.counted fate =
        fates s.db.answers fate + fates (s.overtaken.map .error ++ s.returned) fate :=
      hbalanced.counted fate
    rw [hfate, fates_append, fates_refusals hovertaken]
    omega
  refine ⟨hcounted, hbalanced.submitted, fun hover hcalls => ?_⟩
  have hexecuted : s.db.metrics.executed =
      fates s.db.answers .executed + fates s.returned .executed := hcounted .executed
  have hfailed : s.db.metrics.failed = fates s.db.answers .failed + fates s.returned .failed +
      s.overtaken.length := hcounted .failed
  have hcancelled : s.db.metrics.cancelled =
      fates s.db.answers .cancelled + fates s.returned .cancelled := hcounted .cancelled
  have hended : s.db.answers.length = s.db.runs.length := by
    rw [answers, List.length_map, List.filter_eq_self.2 hover]
  have hruns := fates_total s.db.answers
  have hreturned := fates_total s.returned
  rw [hcalls] at hmade
  rw [hbalanced.submitted, hexecuted, hfailed, hcancelled, hmade]
  simp only [List.length_nil]
  omega

/-- A client whose store fails every scan. -/
def failing : Client Unit :=
  { Client.silent Unit with
    beforeScan := fun _ db => (db, some (.internal (.other "no connection"))) }

/-- One run answers, one is cancelled before it starts, the store fails one, and one is refused
since its query was disposed of; a call answers and another is refused. -/
theorem counted_of_each_kind : ∃ s : Session Unit, s.Reached {} ∧
    s.db.metrics.submitted = 4 ∧ s.made = 2 ∧ s.refusals.length = 1 ∧
      s.db.metrics.executed = 2 ∧ s.db.metrics.failed = 2 ∧ s.db.metrics.cancelled = 1 := by
  have hmade := @Reached.create Unit {} .info 0 () _ rfl
  have hsilent := Client.passive_silent Unit
  have hfailing : Client.Passive failing := { Client.passive_silent Unit with
    beforeScan := fun _ _ => rfl }
  have hdefined := hmade.step (.act hsilent (.defineView "v" Store.bodyById none) trivial)
  have hqueried := hdefined.step (.act hsilent (.queryIndex (.named ⟨1⟩ "v" false)) trivial)
  have hfirst := hqueried.step (.act hsilent (.submit 0 .handle) trivial)
  have hstarted := hfirst.step (.act hsilent (.go (.run 0)) trivial)
  have hscanned := hstarted.step (.act hsilent (.scanRun 0) trivial)
  have hanswered := hscanned.step (.act hsilent (.go (.run 0)) trivial)
  have hsecond := hanswered.step (.act hsilent (.submit 0 .handle) trivial)
  have hcancelled := hsecond.step (.act hsilent (.cancel 1) trivial)
  have habandoned := hcancelled.step (.act hsilent (.go (.run 1)) trivial)
  have hthird := habandoned.step (.act hsilent (.submit 0 .handle) trivial)
  have hrestarted := hthird.step (.act hsilent (.go (.run 2)) trivial)
  have hfailed := hrestarted.step (.act hfailing (.scanRun 2) trivial)
  have hended := hfailed.step (.act hsilent (.go (.run 2)) trivial)
  have hcalled := hended.step (@Step.call Unit _ 0 _ none rfl rfl)
  have hback := hcalled.step (@Step.comeBack Unit _ _ hsilent [] [] _ rfl (.ok ⟨[], 0⟩))
  have hdisposed := hback.step (.act hsilent (.disposeQuery 0) trivial)
  have hfourth := hdisposed.step (.act hsilent (.submit 0 .handle) trivial)
  have hrefused := hfourth.step (.act hsilent (.go (.run 3)) trivial)
  have hturned := hrefused.step (@Step.refuse Unit _ 0 _ rfl)
  obtain ⟨hcounted, -⟩ := hturned.every_execution_counted
  exact ⟨_, hturned, rfl, rfl, rfl, hcounted .executed, hcounted .failed, hcounted .cancelled⟩

/-- A query is disposed of and run at once: the call is refused, and counted nowhere. -/
theorem refused_call_uncounted : ∃ s : Session Unit, s.Reached {} ∧
    (∀ run ∈ s.db.runs, run.isOver = true) ∧ s.calls = [] ∧
      s.db.metrics.executed + s.db.metrics.failed + s.db.metrics.cancelled ≠
        s.db.metrics.submitted + s.made := by
  have hmade := @Reached.create Unit {} .info 0 () _ rfl
  have hsilent := Client.passive_silent Unit
  have hdefined := hmade.step (.act hsilent (.defineView "v" Store.bodyById none) trivial)
  have hqueried := hdefined.step (.act hsilent (.queryIndex (.named ⟨1⟩ "v" false)) trivial)
  have hdisposed := hqueried.step (.act hsilent (.disposeQuery 0) trivial)
  have hrefused := hdisposed.step (@Step.refuse Unit _ 0 _ rfl)
  exact ⟨_, hrefused, List.forall_mem_nil _, rfl, Nat.zero_ne_one⟩

/-- A query is disposed of and submitted, and its run is cancelled after its start: one run comes to
one outcome, and is counted as failed and as cancelled. -/
theorem overtaken_run_counted_twice : ∃ s : Session Unit, s.Reached {} ∧
    s.db.metrics.submitted = 1 ∧ s.made = 0 ∧ s.db.answers = [.error .cancelled] ∧
      s.db.metrics.failed = 1 ∧ s.db.metrics.cancelled = 1 := by
  have hmade := @Reached.create Unit {} .info 0 () _ rfl
  have hsilent := Client.passive_silent Unit
  have hdefined := hmade.step (.act hsilent (.defineView "v" Store.bodyById none) trivial)
  have hqueried := hdefined.step (.act hsilent (.queryIndex (.named ⟨1⟩ "v" false)) trivial)
  have hdisposed := hqueried.step (.act hsilent (.disposeQuery 0) trivial)
  have hsubmitted := hdisposed.step (.act hsilent (.submit 0 .handle) trivial)
  have hovertaken := hsubmitted.step (@Step.overtake Unit _ _ hsilent 0 _ _
    (List.mem_singleton_self _) ⟨rfl, rfl, rfl, .inr ⟨rfl, by decide⟩⟩)
  exact ⟨_, hovertaken, rfl, rfl, rfl, rfl, rfl⟩

end Session

end Viewbase
