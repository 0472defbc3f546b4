import Viewbase.Proofs.Database.Deed

/-!
Listeners that stop the live query that is calling them.

The listeners to call are those that there are when an outcome is taken in.  A stop from one of
them leaves the calls behind it to come: they begin while the live query is stopped
(`calls_behind_stop`).  Only the stop of the last listener is heeded at once.
-/

namespace Viewbase

namespace Database

variable {σ : Type} {db : Database σ}

/-- A live query is there and started. -/
def runsLive (id : Nat) (db : Database σ) : Bool :=
  db.lives[id]?.any LiveQuery.isRunning

/-! ## Calls one after another -/

/-- The calls in turn, each with the database in which it begins. -/
def begun (c : Client σ) : List (Nat × Refreshed) → Database σ → List (Nat × Database σ)
  | [], _ => []
  | (listener, change) :: calls, db =>
    (listener, db) :: begun c calls (c.notify listener (.refreshed change) db)

theorem map_fst_begun (c : Client σ) (calls : List (Nat × Refreshed)) (db : Database σ) :
    (db.begun c calls).map Prod.fst = calls.map Prod.fst := by
  induction calls generalizing db with
  | nil => rfl
  | cons call calls ih =>
    rw [begun, List.map_cons, ih]
    rfl

theorem begun_append (c : Client σ) (calls calls' : List (Nat × Refreshed)) (db : Database σ) :
    db.begun c (calls ++ calls') = db.begun c calls ++ (db.callAll c calls).begun c calls' := by
  induction calls generalizing db with
  | nil => rfl
  | cons call calls ih =>
    rw [List.cons_append, begun, ih]
    rfl

/-- What every call keeps holds whenever one of them begins, and after the last. -/
theorem begun_of_kept {c : Client σ} {calls : List (Nat × Refreshed)} {p : Database σ → Prop}
    (hkept : ∀ call ∈ calls, ∀ db, p db → p (c.notify call.1 (.refreshed call.2) db)) (h : p db) :
    (∀ call ∈ db.begun c calls, p call.2) ∧ p (db.callAll c calls) := by
  induction calls generalizing db with
  | nil => exact ⟨fun _ hcall => (List.not_mem_nil hcall).elim, h⟩
  | cons first calls ih =>
    have hfirst := hkept first List.mem_cons_self db h
    obtain ⟨hbegun, hlast⟩ := ih (fun call hcall => hkept call (List.mem_cons_of_mem _ hcall)) hfirst
    refine ⟨fun call hcall => ?_, hlast⟩
    rw [begun] at hcall
    rcases List.mem_cons.1 hcall with rfl | hcall
    · exact h
    · exact hbegun call hcall

theorem runsLive_stopLive (id : Nat) (db : Database σ) : (db.stopLive id).runsLive id = false := by
  cases hlive : db.lives[id]? with
  | none => simp only [stopLive, hlive, runsLive, Option.any_none]
  | some live =>
    obtain ⟨stopped, hstopped, hphase, -⟩ := Stance.lives_stopLive hlive
    rw [runsLive, hstopped, Option.any_some, LiveQuery.isRunning, hphase]
    rfl

/-! ## Taking an outcome in -/

/-- A stopped live query calls nobody. -/
theorem tellings_of_stopped {id : Nat} (h : db.runsLive id = false) (epoch : Nat)
    (outcome : Outcome) : db.tellings id epoch outcome = [] := by
  cases hlive : db.lives[id]? with
  | none => simp only [tellings, hlive]
  | some live =>
    rw [runsLive, hlive, Option.any_some] at h
    apply tellings_of_lapsed hlive
    rw [LiveQuery.isCurrent, h, Bool.and_false]

/-- Whoever is called is called by a live query that is started. -/
theorem runsLive_finishLive {id epoch : Nat} {outcome : Outcome}
    (h : db.tellings id epoch outcome ≠ []) :
    (db.finishLive (.silent σ) id epoch outcome).runsLive id := by
  rw [tellings] at h
  cases hlive : db.lives[id]? with
  | none =>
    rw [hlive] at h
    exact absurd rfl h
  | some live =>
    simp only [hlive] at h
    cases hcurrent : live.isCurrent epoch with
    | false =>
      rw [hcurrent] at h
      exact absurd rfl h
    | true =>
      have hlives := (Stance.beside_recordVerdict live (live.judge outcome) db).lives
      have hsettled : ∀ db : Database σ, db.lives[id]?.isSome → (db.settleLive id live).runsLive id
          := by
        intro db hthere
        obtain ⟨settling, hsettling⟩ := Option.isSome_iff_exists.1 hthere
        rw [settleLive]
        split
        · simp [runsLive, launch, wake, updateLive, hsettling, LiveQuery.isRunning]
        · simp [runsLive, updateLive, hsettling, LiveQuery.isRunning]
      simp only [finishLive, hlive, hcurrent, Bool.not_true, Bool.false_eq_true, if_false]
      have hthere : (((db.recordVerdict live (live.judge outcome)).updateLive id fun live' =>
          { live'.absorb (live.judge outcome) with running := none }).lives[id]?).isSome := by
        simp [updateLive, hlives, hlive]
      split
      · exact hsettled _ hthere
      · rw [Stance.tellListeners_silent]
        exact hsettled _ hthere

/-- Once a listener has stopped the live query, nobody is called before it is started again. -/
def HeedsStop (c : Client σ) (id epoch : Nat) (outcome : Outcome) (db : Database σ) : Prop :=
  ∀ call ∈ (db.finishLive (.silent σ) id epoch outcome).begun c (db.tellings id epoch outcome),
    call.2.runsLive id

/-- The listeners behind one that stops the live query are called all the same, and no others while
it is stopped; so a stop is heeded exactly if it comes from the last listener. -/
theorem calls_behind_stop {c : Client σ} {id epoch stopper : Nat} {outcome : Outcome}
    {change : Refreshed} {earlier later : List Nat}
    (htold : db.tellings id epoch outcome =
      (earlier ++ stopper :: later).map fun listener => (listener, change))
    (hearlier : ∀ listener ∈ earlier, ∀ db : Database σ, db.runsLive id = true →
      (c.notify listener (.refreshed change) db).runsLive id = true)
    (hstopper : ∀ db : Database σ, (c.notify stopper (.refreshed change) db).runsLive id = false)
    (hlater : ∀ listener ∈ later, ∀ db : Database σ, db.runsLive id = false →
      (c.notify listener (.refreshed change) db).runsLive id = false) :
    (((db.finishLive (.silent σ) id epoch outcome).begun c (db.tellings id epoch outcome)).filter
      fun call => !call.2.runsLive id).map Prod.fst = later ∧
    (db.HeedsStop c id epoch outcome ↔ later = []) ∧
    (db.finishLive c id epoch outcome).runsLive id = false ∧
    ∀ epoch' outcome', (db.finishLive c id epoch outcome).tellings id epoch' outcome' = [] := by
  have hruns : (db.finishLive (.silent σ) id epoch outcome).runsLive id = true :=
    runsLive_finishLive (by simp [htold])
  have hfinish := finishLive_eq c id epoch outcome db
  obtain ⟨taken, htaken⟩ : ∃ taken, taken = db.finishLive (.silent σ) id epoch outcome := ⟨_, rfl⟩
  rw [htold, List.map_append, List.map_cons, ← htaken] at hfinish
  rw [HeedsStop, htold, List.map_append, List.map_cons, begun_append, begun, ← htaken]
  rw [← htaken] at hruns
  -- The calls up to the one that stops begin while the live query runs.
  have hkeptEarlier : ∀ call ∈ earlier.map fun listener => (listener, change), ∀ db : Database σ,
      db.runsLive id = true → (c.notify call.1 (.refreshed call.2) db).runsLive id = true := by
    simpa using hearlier
  obtain ⟨hbegun, hcalled⟩ := begun_of_kept hkeptEarlier hruns
  obtain ⟨called, hcalledEq⟩ : ∃ called, called =
    taken.callAll c (earlier.map fun listener => (listener, change)) := ⟨_, rfl⟩
  rw [← hcalledEq] at hcalled ⊢
  -- All others begin after the stop.
  have hkeptLater : ∀ call ∈ later.map fun listener => (listener, change), ∀ db : Database σ,
      db.runsLive id = false → (c.notify call.1 (.refreshed call.2) db).runsLive id = false := by
    simpa using hlater
  obtain ⟨hbehind, hended⟩ := begun_of_kept hkeptLater (hstopper called)
  have hstopped : (db.finishLive c id epoch outcome).runsLive id = false := by
    rw [hfinish, callAll, List.foldl_append, List.foldl_cons]
    rw [hcalledEq] at hended
    exact hended
  refine ⟨?_, ⟨fun hheeds => ?_, ?_⟩, hstopped, fun epoch' outcome' => ?_⟩
  · rw [List.filter_append, List.filter_cons_of_neg (by simp [hcalled]),
      List.filter_eq_nil_iff.2 (fun call hcall => by simp [hbegun call hcall]),
      List.filter_eq_self.2 (fun call hcall => by simp [hbehind call hcall]), List.nil_append,
      map_fst_begun, List.map_map]
    exact List.map_id later
  · cases later with
    | nil => rfl
    | cons listener later =>
      have hruns' := hheeds (listener, c.notify stopper (.refreshed change) called) (by simp [begun])
      rw [hstopper called] at hruns'
      cases hruns'
  · rintro rfl call hcall
    simp only [List.map_nil, begun, List.mem_append, List.mem_singleton] at hcall
    rcases hcall with hcall | rfl
    · exact hbegun call hcall
    · exact hcalled
  · exact tellings_of_stopped hstopped epoch' outcome'

end Database

/-! ## A stop from the first of two listeners -/

/-- A client that keeps a list of the listeners called so far, and one of whose listeners stops a
live query. -/
def Client.stopping (stopper id : Nat) : Client (List Nat) :=
  .listening fun callback _ db =>
    let db := { db with client := db.client ++ [callback] }
    if callback = stopper then db.stopLive id else db

namespace Database

/-- A live query over a view gets two listeners and is started, and its first run comes to its
end. -/
def firstRun : List Action :=
  [.defineView "v" Store.bodyById none, .queryIndex (.named ⟨1⟩ "v" false), .makeLive 0,
    .addListener 0 0, .addListener 0 1, .startLive 0, .go (.refresh 0), .go (.run 0), .scanRun 0,
    .go (.run 0)]

theorem runsLive_stopping (id : Nat) (change : Refreshed) (db : Database (List Nat)) :
    (Client.notify (.stopping 0 id) 0 (.refreshed change) db).runsLive id = false :=
  runsLive_stopLive id { db with client := db.client ++ [0] }

/-- The second listener is called, and nobody else. -/
theorem calls_behind_first : ∃ (made db : Database (List Nat)) (ended : Run),
    create {} .info 0 [] = .ok made ∧ db = made.performAll (.stopping 0 0) firstRun ∧
      db.runs[0]? = some ended ∧
        (((db.finishLive (.silent _) 0 1 ended.answer).begun (.stopping 0 0)
          (db.tellings 0 1 ended.answer)).filter fun call => !call.2.runsLive 0).map Prod.fst = [1]
      := by
  refine ⟨_, _, _, rfl, rfl, rfl, ?_⟩
  exact (@calls_behind_stop _ _ (.stopping 0 0) 0 1 0 _ _ [] [1] rfl
    (fun listener hlistener => (List.not_mem_nil hlistener).elim) (runsLive_stopping 0 _)
    (fun listener hlistener db hstopped => by
      cases List.mem_singleton.1 hlistener
      exact hstopped)).1

/-- A stop from the first of two listeners is not heeded: the second is still called. -/
theorem second_called_after_stop : ∃ (made db : Database (List Nat)) (ended : Run),
    create {} .info 0 [] = .ok made ∧ db = made.performAll (.stopping 0 0) firstRun ∧
      db.runs[0]? = some ended ∧ ¬db.HeedsStop (.stopping 0 0) 0 1 ended.answer ∧
        (db.perform (.stopping 0 0) (.go (.refresh 0))).client = [0, 1] := by
  refine ⟨_, _, _, rfl, rfl, rfl, fun hheeds => ?_, rfl⟩
  have hruns := hheeds _ (List.mem_cons_of_mem _ List.mem_cons_self)
  cases hruns

end Database

end Viewbase
