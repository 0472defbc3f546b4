import Viewbase.Proofs.Database.Current

/-!
The course of runs, refreshes and live queries.

Nothing is ever taken away: runs, refreshes and live queries keep their numbers, and each goes on by
itself.  A run goes from stage to stage (`Run.Goes`); a refresh keeps the live query and the epoch it
was launched for; a live query goes from epoch to epoch and is started only in a new one.
-/

namespace Viewbase

/-! ## Items in their places -/

section Lists

variable {α : Type} {r : α → α → Prop} {items items' items'' : List α}

/-- Every item has gone on in its place; new ones may have come. -/
def Follows (r : α → α → Prop) (items items' : List α) : Prop :=
  ∀ (i : Nat) (a : α), items[i]? = some a → ∃ a', items'[i]? = some a' ∧ r a a'

theorem Follows.of_eq (hrefl : ∀ a, r a a) (h : items' = items) : Follows r items items' :=
  fun _ a ha => ⟨a, h ▸ ha, hrefl a⟩

theorem Follows.trans (htrans : ∀ {a b c}, r a b → r b c → r a c) (h : Follows r items items')
    (h' : Follows r items' items'') : Follows r items items'' := by
  intro i a ha
  obtain ⟨b, hb, hab⟩ := h i a ha
  obtain ⟨c, hc, hbc⟩ := h' i b hb
  exact ⟨c, hc, htrans hab hbc⟩

theorem Follows.push (hrefl : ∀ a, r a a) (items : List α) (a : α) : Follows r items (items ++ [a])
    := by
  intro i b hb
  exact ⟨b, by rw [List.getElem?_append_left (List.getElem?_eq_some_iff.1 hb).1, hb], hrefl b⟩

theorem Follows.modify (hrefl : ∀ a, r a a) {i : Nat} {change : α → α}
    (h : ∀ a, items[i]? = some a → r a (change a)) : Follows r items (items.modify i change) := by
  intro j a ha
  by_cases hj : j = i
  · subst hj
    exact ⟨change a, by simp [ha], h a ha⟩
  · exact ⟨a, by simp [Ne.symm hj, ha], hrefl a⟩

end Lists

/-! ## One stage further -/

namespace Run

/-- What a run goes through. -/
inductive Goes (run : Run) : Run → Prop where
  | stay : Goes run run
  | cancel : Goes run { run with control := run.control.cancel.1 }
  | permit (hstage : run.stage = .waiting) : Goes run { run with stage := .admitted }
  | start (hstage : run.stage = .admitted) (hcontrol : run.control = .pending)
      (hregistration : ∃ temporary, run.registration = .ok temporary) :
      Goes run { run with control := .running, stage := .scanning }
  | abandon (hstage : run.stage = .admitted) (hcontrol : run.control ≠ .pending) :
      Goes run { run with stage := .ended }
  | scan (hstage : run.stage = .scanning) (result : Except IndexError Answer) :
      Goes run { run with stage := .scanned result }
  | conclude {control : Control} {outcome : Outcome} (h : run.Concludes control outcome) :
      Goes run { run with control := control, stage := .ended, outcome := some outcome }

/-- A run keeps what it was submitted with. -/
theorem Goes.kept {run run' : Run} (h : run.Goes run') :
    run'.query = run.query ∧ run'.request = run.request ∧
      run'.registration = run.registration := by
  cases h <;> exact ⟨rfl, rfl, rfl⟩

theorem kept {run run' : Run} (h : Relation.ReflTransGen Goes run run') :
    run'.query = run.query ∧ run'.request = run.request ∧
      run'.registration = run.registration := by
  induction h with
  | refl => exact ⟨rfl, rfl, rfl⟩
  | tail _ hgoes ih =>
    obtain ⟨hquery, hrequest, hregistration⟩ := hgoes.kept
    exact ⟨hquery.trans ih.1, hrequest.trans ih.2.1, hregistration.trans ih.2.2⟩

/-- A run stays the one of its recipient. -/
theorem recipient_of_goes {run run' : Run} (h : Relation.ReflTransGen Goes run run') :
    run'.recipient = run.recipient := by
  induction h with
  | refl => rfl
  | tail _ hgoes ih =>
    rw [← ih]
    cases hgoes <;> rfl

/-- A run that was cancelled or has ended stays closed. -/
theorem Goes.not_isOpen {run run' : Run} (h : run.Goes run') (hclosed : ¬run.control.IsOpen) :
    ¬run'.control.IsOpen := by
  cases h with
  | stay => exact hclosed
  | cancel => cases run.control <;> simp [Control.cancel, Control.IsOpen]
  | permit hstage => exact hclosed
  | start hstage hcontrol => exact absurd (.inl hcontrol) hclosed
  | abandon hstage hcontrol => exact hclosed
  | scan hstage result => exact hclosed
  | conclude h =>
    cases h with
    | discarded hstage hcontrol => exact hclosed
    | refused | failed | answered => simp [Control.IsOpen]

end Run

/-- A refresh stays one of its live query in its epoch. -/
def Refresh.Goes (refresh refresh' : Refresh) : Prop :=
  refresh'.live = refresh.live ∧ refresh'.epoch = refresh.epoch

theorem Refresh.Goes.refl (refresh : Refresh) : refresh.Goes refresh := ⟨rfl, rfl⟩

theorem Refresh.Goes.trans {a b c : Refresh} (h : a.Goes b) (h' : b.Goes c) : a.Goes c :=
  ⟨h'.1.trans h.1, h'.2.trans h.2⟩

/-- A live query keeps its query, its epochs go up, and it is started in a new one only. -/
structure LiveQuery.Goes (live live' : LiveQuery) : Prop where
  query : live'.query = live.query
  epoch : live.epoch ≤ live'.epoch
  stopped : live'.epoch = live.epoch → live.phase = .stopped → live'.phase = .stopped

theorem LiveQuery.Goes.refl (live : LiveQuery) : live.Goes live :=
  ⟨rfl, Nat.le_refl _, fun _ h => h⟩

theorem LiveQuery.Goes.trans {a b c : LiveQuery} (h : a.Goes b) (h' : b.Goes c) : a.Goes c where
  query := h'.query.trans h.query
  epoch := Nat.le_trans h.epoch h'.epoch
  stopped := by
    intro hepoch hstopped
    have hle := h.epoch
    have hle' := h'.epoch
    exact h'.stopped (by omega) (h.stopped (by omega) hstopped)

/-! ## Work beside -/

namespace Database

variable {σ : Type} {db db' db'' : Database σ}

/-- No live query, refresh or subscription changed, and no scan began or ended. -/
structure Aside (db db' : Database σ) : Prop where
  lives : db'.lives = db.lives
  refreshes : db'.refreshes = db.refreshes
  scanning : db'.scanning = db.scanning
  subscriptions : db'.store.subscriptions = db.store.subscriptions

theorem Aside.refl (db : Database σ) : Aside db db :=
  ⟨rfl, rfl, rfl, rfl⟩

theorem Aside.trans (h : Aside db db') (h' : Aside db' db'') : Aside db db'' where
  lives := h'.lives.trans h.lives
  refreshes := h'.refreshes.trans h.refreshes
  scanning := h'.scanning.trans h.scanning
  subscriptions := h'.subscriptions.trans h.subscriptions

theorem Beside.aside (h : Beside db db') : Aside db db' :=
  ⟨h.lives, h.refreshes, h.scanning, h.store.subscriptions⟩

theorem aside_cancel (id : Nat) (db : Database σ) : Aside db (db.cancel id).1 := by
  rw [cancel]
  split <;> exact ⟨rfl, rfl, rfl, rfl⟩

theorem aside_cancelRunning (running : Option Nat) (db : Database σ) :
    Aside db (db.cancelRunning running) := by
  cases running with
  | none => exact .refl db
  | some run => exact aside_cancel run db

theorem aside_takePermit (id : Nat) (db : Database σ) : Aside db (db.takePermit id) := by
  rw [takePermit]
  split <;> exact ⟨rfl, rfl, rfl, rfl⟩

theorem aside_givePermit (db : Database σ) : Aside db db.givePermit := by
  rw [givePermit]
  split <;> exact ⟨rfl, rfl, rfl, rfl⟩

theorem aside_wakeRecipient (recipient : Recipient) (db : Database σ) :
    Aside db (db.wakeRecipient recipient) := by
  cases recipient <;> exact ⟨rfl, rfl, rfl, rfl⟩

theorem aside_keepGeneration (query : Nat) (outcome : Outcome) (db : Database σ) :
    Aside db (db.keepGeneration query outcome) := by
  cases outcome <;> exact ⟨rfl, rfl, rfl, rfl⟩

end Database

/-! ## Moves -/

namespace Stance

variable {σ : Type} {s s' : Stance σ}

theorem follows_runs (hplaced : s.Placed) (hmove : Move s s') :
    Follows Run.Goes s.db.runs s'.db.runs := by
  have hstay : ∀ {runs : List Run}, runs = s.db.runs → Follows Run.Goes s.db.runs runs :=
    fun h => .of_eq (fun _ => .stay) h
  have hmodify : ∀ {id : Nat} {run : Run} {change : Run → Run}, s.db.runs[id]? = some run →
      run.Goes (change run) → Follows Run.Goes s.db.runs (s.db.runs.modify id change) := by
    intro id run change hrun hgoes
    refine .modify (fun _ => .stay) fun other hother => ?_
    rw [hrun] at hother
    cases hother
    exact hgoes
  cases hmove with
  | beside h => exact hstay h.runs
  | submit => exact .push (fun _ => .stay) _ _
  | execute => exact .push (fun _ => .stay) _ _
  | @cancel id run hrun =>
    simp only [Database.cancel, hrun]
    exact hmodify hrun .cancel
  | permit hhand hrun hstage hpermits =>
    simp only [Database.takePermit, if_pos hpermits]
    exact hmodify hrun (.permit hstage)
  | queue hhand hrun hstage hpermits =>
    simp only [Database.takePermit, if_neg hpermits]
    exact hstay rfl
  | grant =>
    cases hwaiting : s.db.waiting with
    | nil =>
      rw [givePermit_of_nil hwaiting]
      exact hstay rfl
    | cons next rest =>
      obtain ⟨run, hrun, hstage, -⟩ :=
        hplaced.of_waiting (hwaiting ▸ List.mem_cons_self : next ∈ s.db.waiting)
      rw [givePermit_of_cons hwaiting]
      exact hmodify hrun (.permit hstage)
  | startRun hhand hrun hstage hcontrol hregistration =>
    exact hmodify hrun (.start hstage hcontrol hregistration)
  | abandon hhand hrun hstage hcontrol =>
    rw [Database.abandon, wakeRecipient_eq]
    exact hmodify hrun (.abandon hstage hcontrol)
  | scan hscanning hrun =>
    exact hmodify hrun (.scan (hplaced.of_scanning hscanning hrun).1 _)
  | @conclude id run control outcome hhand hrun hconcludes =>
    rw [wakeRecipient_eq]
    cases outcome <;> exact hmodify hrun (.conclude hconcludes)
  | makeLive h => exact hstay h.runs
  | @stop id live hlive hrunning =>
    rw [runs_endSubscription]
    cases live.running with
    | none => exact hstay rfl
    | some run =>
      simp only [Database.cancelRunning, Database.cancel]
      split
      · exact hstay rfl
      next hrun => exact hmodify hrun .cancel
  | giveUp h => exact hstay h.runs
  | @takeIn task id refresh run live =>
    simp only [Database.settleLive]
    split <;> exact hstay rfl
  | _ => exact hstay rfl

theorem follows_refreshes (hmove : Move s s') :
    Follows Refresh.Goes s.db.refreshes s'.db.refreshes := by
  have hstay : ∀ {refreshes : List Refresh}, refreshes = s.db.refreshes →
      Follows Refresh.Goes s.db.refreshes refreshes := fun h => .of_eq Refresh.Goes.refl h
  have hstage : ∀ (task : Nat) (stage : RefreshStage), Follows Refresh.Goes s.db.refreshes
      (s.db.refreshes.modify task fun refresh => { refresh with stage := stage }) :=
    fun task stage => .modify Refresh.Goes.refl fun _ _ => ⟨rfl, rfl⟩
  cases hmove with
  | beside h => exact hstay h.refreshes
  | @cancel id => exact hstay (Database.aside_cancel id s.db).refreshes
  | @permit id => exact hstay (Database.aside_takePermit id s.db).refreshes
  | @queue id => exact hstay (Database.aside_takePermit id s.db).refreshes
  | grant => exact hstay (Database.aside_givePermit s.db).refreshes
  | @abandon id run => exact hstay (Database.aside_wakeRecipient run.recipient _).refreshes
  | @conclude id run control outcome =>
    exact hstay ((Database.aside_wakeRecipient run.recipient _).refreshes.trans
      (Database.aside_keepGeneration run.query outcome s.db).refreshes)
  | makeLive h => exact hstay h.refreshes
  | startLive => exact .push Refresh.Goes.refl _ _
  | @stop id live =>
    exact hstay ((refreshes_endSubscription live.token _).trans
      (Database.aside_cancelRunning live.running _).refreshes)
  | giveUp h => exact hstay h.refreshes
  | launch => exact .push Refresh.Goes.refl _ _
  | @sleep task => exact hstage task .sleeping
  | @ring earlier later timer => exact hstage timer.refresh .due
  | @lapse task => exact hstage task .over
  | @execute task => exact hstage task (.awaiting s.db.runs.length)
  | @takeIn task id refresh run live =>
    simp only [Database.settleLive]
    split
    · exact .push Refresh.Goes.refl _ _
    · exact hstay rfl
  | @retire task => exact hstage task .over
  | _ => exact hstay rfl

theorem follows_lives (hmove : Move s s') : Follows LiveQuery.Goes s.db.lives s'.db.lives := by
  have hstay : ∀ {lives : List LiveQuery}, lives = s.db.lives →
      Follows LiveQuery.Goes s.db.lives lives := fun h => .of_eq LiveQuery.Goes.refl h
  have hmodify : ∀ {id : Nat} {live : LiveQuery} {change : LiveQuery → LiveQuery},
      s.db.lives[id]? = some live → live.Goes (change live) →
        Follows LiveQuery.Goes s.db.lives (s.db.lives.modify id change) := by
    intro id live change hlive hgoes
    refine .modify LiveQuery.Goes.refl fun other hother => ?_
    rw [hlive] at hother
    cases hother
    exact hgoes
  cases hmove with
  | beside h => exact hstay h.lives
  | @cancel id => exact hstay (Database.aside_cancel id s.db).lives
  | @permit id => exact hstay (Database.aside_takePermit id s.db).lives
  | @queue id => exact hstay (Database.aside_takePermit id s.db).lives
  | grant => exact hstay (Database.aside_givePermit s.db).lives
  | @abandon id run => exact hstay (Database.aside_wakeRecipient run.recipient _).lives
  | @conclude id run control outcome =>
    exact hstay ((Database.aside_wakeRecipient run.recipient _).lives.trans
      (Database.aside_keepGeneration run.query outcome s.db).lives)
  | makeLive h =>
    simp only [h.lives]
    exact .push LiveQuery.Goes.refl _ _
  | listen => exact .modify LiveQuery.Goes.refl fun _ _ => ⟨rfl, Nat.le_refl _, fun _ h => h⟩
  | startInVain hlive => exact hmodify hlive ⟨rfl, Nat.le_succ _, fun _ h => h⟩
  | @startLive id live token store hlive =>
    refine hmodify hlive ⟨rfl, Nat.le_succ _, fun hepoch => ?_⟩
    exact absurd hepoch (Nat.succ_ne_self _)
  | @stop id live hlive =>
    rw [lives_endSubscription, lives_cancelRunning]
    exact hmodify hlive ⟨rfl, Nat.le_succ _, fun _ _ => rfl⟩
  | dispose => exact .modify LiveQuery.Goes.refl fun _ _ => ⟨rfl, Nat.le_refl _, fun _ h => h⟩
  | letGo => exact .modify LiveQuery.Goes.refl fun _ _ => ⟨rfl, Nat.le_refl _, fun _ h => h⟩
  | giveUp h => exact hstay h.lives
  | remember hpending hlive hreact =>
    refine hmodify hlive ⟨rfl, Nat.le_refl _, fun _ hstopped => ?_⟩
    rw [hstopped] at hreact
    cases hreact
  | launch hpending hlive hreact =>
    refine hmodify hlive ⟨rfl, Nat.le_refl _, fun _ hstopped => ?_⟩
    rw [hstopped] at hreact
    cases hreact
  | execute hhand htask hstage hlive hcurrent =>
    exact hmodify hlive ⟨rfl, Nat.le_refl _, fun _ h => h⟩
  | @takeIn task id refresh run live hhand htask hstage hrun hlive hcurrent =>
    have hstarted := (LiveQuery.isCurrent_iff.1 hcurrent).2
    have habsorb : ∀ verdict, (live.absorb verdict).query = live.query ∧
        (live.absorb verdict).epoch = live.epoch := by
      intro verdict
      cases verdict <;> exact ⟨rfl, rfl⟩
    obtain ⟨hquery, hepoch⟩ := habsorb (live.judge run.answer)
    simp only [Database.settleLive]
    split
    · simp only [Database.launch, Database.wake, Database.updateLive, List.modify_modify_eq]
      exact hmodify hlive ⟨hquery, Nat.le_of_eq hepoch.symm, fun _ h => absurd h hstarted⟩
    · simp only [Database.updateLive, List.modify_modify_eq]
      exact hmodify hlive ⟨hquery, Nat.le_of_eq hepoch.symm, fun _ h => absurd h hstarted⟩
  | _ => exact hstay rfl

end Stance

/-! ## Steps -/

namespace Moment

open Stance Relation

variable {σ : Type} {m m' m'' : Moment σ}

/-- How everything has gone on from one moment to a later one. -/
structure Onward (m m' : Moment σ) : Prop where
  runs : Follows (ReflTransGen Run.Goes) m.db.runs m'.db.runs
  refreshes : Follows Refresh.Goes m.db.refreshes m'.db.refreshes
  lives : Follows LiveQuery.Goes m.db.lives m'.db.lives

theorem Onward.refl (m : Moment σ) : m.Onward m where
  runs := .of_eq (fun _ => .refl) rfl
  refreshes := .of_eq Refresh.Goes.refl rfl
  lives := .of_eq LiveQuery.Goes.refl rfl

theorem Onward.trans (h : m.Onward m') (h' : m'.Onward m'') : m.Onward m'' where
  runs := h.runs.trans ReflTransGen.trans h'.runs
  refreshes := h.refreshes.trans Refresh.Goes.trans h'.refreshes
  lives := h.lives.trans LiveQuery.Goes.trans h'.lives

theorem onward_moves {s s' : Stance σ} (hplaced : s.Placed) (hmoves : Moves s s') :
    s'.Placed ∧ s.toMoment.Onward s'.toMoment := by
  induction hmoves with
  | refl => exact ⟨hplaced, .refl _⟩
  | tail _ hmove ih =>
    obtain ⟨hplaced', honward⟩ := ih
    refine ⟨hplaced'.move hmove, honward.trans ⟨?_, follows_refreshes hmove, follows_lives hmove⟩⟩
    intro id run hrun
    obtain ⟨run', hrun', hgoes⟩ := follows_runs hplaced' hmove id run hrun
    exact ⟨run', hrun', .single hgoes⟩

theorem Reached.steps (h : m.Reached) (hsteps : ReflTransGen Step m m') : m'.Reached := by
  induction hsteps with
  | refl => exact h
  | tail _ hstep ih => exact ih.step hstep

theorem Reached.onward (h : m.Reached) (hsteps : ReflTransGen Step m m') : m.Onward m' := by
  induction hsteps with
  | refl => exact .refl m
  | tail hsteps hstep ih =>
    obtain ⟨hplaced, -⟩ := (h.steps hsteps).attended
    exact ih.trans (onward_moves hplaced (hstep.moves hplaced.runsApart)).2

end Moment

end Viewbase
