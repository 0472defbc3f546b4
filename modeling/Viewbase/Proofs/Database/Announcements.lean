import Viewbase.Proofs.Database.Confinement

/-!
Writes, and what subscribers are told of them.

A write that fails leaves everything as it is.  One that succeeds makes the next generation of one
document, and once that is there every subscription to an index that exists is told of it, one after
another (`announcements`).  Nothing else tells a subscriber of a change (`perform_deaf`).  So as
long as callbacks do not write, a subscription whose index stays is told of every generation that is
made while it lasts, in order (`writes_announced_once`).
-/

namespace Viewbase

namespace Store

variable {s written : Store}

/-- The subscriptions that are told of a change: those to indexes that exist. -/
def addressed (s : Store) : List Subscription :=
  s.subscriptions.filter fun sub => s.hasIndex sub.index

/-- There is a subscription of this token. -/
def registers (s : Store) (token : Token) : Bool :=
  s.subscriptions.any fun sub => decide (sub.token = token)

theorem registers_iff {token : Token} :
    s.registers token = true ↔ ∃ sub ∈ s.subscriptions, sub.token = token := by
  simp [registers]

theorem addressed_write {id : String} {edit : Edit} {doc : Document}
    (h : s.write id edit = .ok (written, doc)) : written.addressed = s.addressed := by
  rw [addressed, addressed, (views_write h).2.2.1]
  exact List.filter_congr fun sub _ => hasIndex_congr (same_write h).ids sub.index

/-- A subscription that has ended has ended for good. -/
theorem Succeeds.registers {s' : Store} (h : Succeeds s s') {token : Token}
    (htaken : token.number ≤ s.tokens) (hends : s.registers token = false) :
    s'.registers token = false := by
  rw [Bool.eq_false_iff, ne_eq, registers_iff]
  rintro ⟨sub, hsub, rfl⟩
  rcases h.subscriptions sub hsub with hold | hnew
  · rw [Bool.eq_false_iff, ne_eq, registers_iff] at hends
    exact hends ⟨sub, hold, rfl⟩
  · exact absurd htaken (Nat.not_le_of_lt hnew)

/-- A subscription is told of a change once if it is there and has its index, and else not. -/
theorem Ticketed.count_addressed (h : s.Ticketed) {token : Token} {index : IndexId}
    (howns : ∀ sub ∈ s.subscriptions, sub.token = token → sub.index = index)
    (hhas : s.registers token = true → s.hasIndex index = true) :
    (s.addressed.map Subscription.token).count token = if s.registers token then 1 else 0 := by
  have hdistinct := h.distinct.sublist ((List.filter_sublist (l := s.subscriptions)
    (p := fun sub => s.hasIndex sub.index)).map Subscription.token)
  rw [addressed, hdistinct.count]
  refine if_congr ?_ rfl rfl
  rw [registers_iff, List.mem_map]
  constructor
  · rintro ⟨sub, hsub, rfl⟩
    exact ⟨sub, (List.mem_filter.1 hsub).1, rfl⟩
  · rintro ⟨sub, hsub, htoken⟩
    have hindex := hhas (registers_iff.2 ⟨sub, hsub, htoken⟩)
    exact ⟨sub, List.mem_filter.2 ⟨hsub, howns sub hsub htoken ▸ hindex⟩, htoken⟩

end Store

/-! ## Announcements -/

/-- A subscription is told of a change. -/
structure Announcement (σ : Type) where
  subscription : Subscription
  change : Change
  /-- The database as the subscriber finds it. -/
  finds : Database σ

/-- The database as the subscriber leaves it. -/
def Announcement.leaves {σ : Type} (c : Client σ) (a : Announcement σ) : Database σ :=
  a.finds.notifyOne c a.change a.subscription.observer

/-- A client that ignores changes, and does everything else as before. -/
def Client.deaf {σ : Type} (c : Client σ) : Client σ :=
  { c with
    notify := fun callback notice db =>
      match notice with
      | .change _ => db
      | notice => c.notify callback notice db }

namespace Action

variable {action : Action} {id : String} {edit : Store.Edit}

/-- Every write is a command to the store. -/
theorem exists_command (h : action.edit? = some (id, edit)) :
    ∃ command : Command, command.edit? = some (id, edit) := by
  cases action with
  | put other body => exact ⟨.put other body, h⟩
  | delete other => exact ⟨.delete other, h⟩
  | addConflict other rev => exact ⟨.addConflict other rev, h⟩
  | resolveConflicts other => exact ⟨.resolveConflicts other, h⟩
  | _ => cases h

end Action

namespace Database

variable {σ : Type}

theorem perform_of_edit? {action : Action} {id : String} {edit : Store.Edit}
    (h : action.edit? = some (id, edit)) (c : Client σ) (db : Database σ) :
    db.perform c action = (db.write c id edit).1 := by
  cases action with
  | put other body => cases h; rfl
  | delete other => cases h; rfl
  | addConflict other rev => cases h; rfl
  | resolveConflicts other => cases h; rfl
  | _ => cases h

/-- Whatever the client does when it is told of changes, no action but a write has it told of
any. -/
theorem perform_deaf (c : Client σ) {action : Action} (h : action.edit? = none)
    (db : Database σ) : db.perform c.deaf action = db.perform c action := by
  cases action with
  | put id body => cases h
  | delete id => cases h
  | addConflict id rev => cases h
  | resolveConflicts id => cases h
  | go job =>
    cases job with
    | run id => rfl
    | refresh task => rfl
  | _ => rfl

/-- Subscriptions are told of a change in turn. -/
def tellEach (c : Client σ) (change : Change) :
    List Subscription → Database σ → List (Announcement σ)
  | [], _ => []
  | sub :: subs, db =>
    ⟨sub, change, db⟩ :: tellEach c change subs (db.notifyOne c change sub.observer)

/-- The announcements in the course of a write of a document. -/
def announcementsOf (c : Client σ) (id : String) (edit : Store.Edit) (db : Database σ) :
    List (Announcement σ) :=
  match db.store.write id edit with
  | .error _ => []
  | .ok (written, _) =>
    tellEach c ⟨written.generation, [id]⟩ written.addressed { db with store := written }

/-- The announcements in the course of an action. -/
def announcements (c : Client σ) (action : Action) (db : Database σ) : List (Announcement σ) :=
  match action.edit? with
  | none => []
  | some (id, edit) => db.announcementsOf c id edit

/-- The change that an action makes, if it is a write that succeeds. -/
def made? (action : Action) (db : Database σ) : Option Change :=
  match action.edit? with
  | none => none
  | some (id, edit) =>
    match db.store.write id edit with
    | .error _ => none
    | .ok (written, _) => some ⟨written.generation, [id]⟩

/-- What a subscription is told in the course of actions. -/
def told (c : Client σ) (token : Token) : List Action → Database σ → List Change
  | [], _ => []
  | action :: rest, db =>
    ((db.announcements c action).filter fun a => decide (a.subscription.token = token)).map
        Announcement.change ++
      told c token rest (db.perform c action)

/-- The changes that actions make while a subscription lasts. -/
def madeWhile (c : Client σ) (token : Token) : List Action → Database σ → List Change
  | [], _ => []
  | action :: rest, db =>
    (if db.store.registers token then (db.made? action).toList else []) ++
      madeWhile c token rest (db.perform c action)

/-! ### Telling each in turn -/

section TellEach

variable {c : Client σ} {allowed : Command → Prop}

theorem map_tellEach (c : Client σ) (change : Change) (subs : List Subscription)
    (db : Database σ) :
    (tellEach c change subs db).map (fun a => (a.subscription, a.change)) =
      subs.map fun sub => (sub, change) := by
  induction subs generalizing db with
  | nil => rfl
  | cons sub subs ih => rw [tellEach, List.map_cons, ih, List.map_cons]

/-- What one subscription is told of a change is the change, as often as it is addressed. -/
theorem told_tellEach (c : Client σ) (change : Change) (token : Token)
    (subs : List Subscription) (db : Database σ) :
    ((tellEach c change subs db).filter fun a => decide (a.subscription.token = token)).map
        Announcement.change =
      List.replicate ((subs.map Subscription.token).count token) change := by
  induction subs generalizing db with
  | nil => rfl
  | cons sub subs ih =>
    rw [tellEach, List.map_cons, List.count_cons, List.filter_cons]
    by_cases htoken : sub.token = token
    · simp only [htoken, decide_true, if_true, List.map_cons, ih, beq_self_eq_true]
      rfl
    · simp only [htoken, decide_false, Bool.false_eq_true, if_false, ih, beq_iff_eq]
      rfl

/-- An announcement of a change begins where the one before it leaves off. -/
theorem finds_tellEach {change : Change} {subs : List Subscription} {db : Database σ}
    {earlier later : List (Announcement σ)} {a : Announcement σ}
    (h : tellEach c change subs db = earlier ++ a :: later) :
    a.finds = earlier.foldl (fun _ a => a.leaves c) db := by
  induction subs generalizing db earlier with
  | nil => exact absurd h (by simp [tellEach])
  | cons sub subs ih =>
    cases earlier with
    | nil =>
      cases h
      rfl
    | cons first earlier =>
      rw [tellEach, List.cons_append, List.cons.injEq] at h
      obtain ⟨rfl, hrest⟩ := h
      have hfound := ih hrest
      exact hfound

theorem announce_eq (c : Client σ) (change : Change) (db : Database σ) :
    db.announce c change =
      (tellEach c change db.store.addressed db).foldl (fun _ a => a.leaves c) db := by
  rw [announce, Store.audience, ← Store.addressed]
  generalize db.store.addressed = subs
  induction subs generalizing db with
  | nil => rfl
  | cons sub subs ih =>
    rw [List.map_cons, List.foldl_cons, ih, tellEach, List.foldl_cons]
    rfl

theorem leads_tellEach (hc : c.Confined allowed) (change : Change) (subs : List Subscription)
    (db : Database σ) :
    (∀ a ∈ tellEach c change subs db, Store.Leads allowed db.store a.finds.store) ∧
      Store.Leads allowed db.store
        ((tellEach c change subs db).foldl (fun _ a => a.leaves c) db).store := by
  induction subs generalizing db with
  | nil => exact ⟨fun _ ha => (List.not_mem_nil ha).elim, .refl allowed db.store⟩
  | cons sub subs ih =>
    have hfirst := leads_notifyOne hc change sub.observer db
    obtain ⟨hrest, hlast⟩ := ih (db.notifyOne c change sub.observer)
    refine ⟨fun a ha => ?_, hfirst.trans hlast⟩
    rcases List.mem_cons.1 ha with rfl | ha
    · exact .refl allowed db.store
    · exact hfirst.trans (hrest a ha)

end TellEach

/-! ### Writes -/

section Write

variable {c : Client σ} {allowed : Command → Prop} {db : Database σ} {id : String}
  {edit : Store.Edit}

theorem write_of_error {error : IndexError} (h : db.store.write id edit = .error error) :
    db.write c id edit = (db, .error error) ∧ db.announcementsOf c id edit = [] := by
  rw [write, announcementsOf, h]
  exact ⟨rfl, rfl⟩

theorem write_of_ok {written : Store} {doc : Document}
    (h : db.store.write id edit = .ok (written, doc)) :
    db.write c id edit =
        ((db.announcementsOf c id edit).foldl (fun _ a => a.leaves c) { db with store := written },
          .ok doc) ∧
      db.announcementsOf c id edit =
        tellEach c ⟨db.store.generation + 1, [id]⟩ db.store.addressed
          { db with store := written } := by
  have htold : db.announcementsOf c id edit =
      tellEach c ⟨db.store.generation + 1, [id]⟩ db.store.addressed
        { db with store := written } := by
    rw [announcementsOf, h]
    dsimp only
    rw [Store.generation_write h, Store.addressed_write h]
  refine ⟨?_, htold⟩
  rw [write, h, htold]
  dsimp only
  rw [announce_eq, Store.generation_write h, Store.addressed_write h]

/-- What a write that succeeds comes to: it rewrites its document, and with that done each
subscription that has its index is told of it once. -/
structure Announced (c : Client σ) (db : Database σ) (id : String) (edit : Store.Edit)
    (doc : Document) (written : Store) : Prop where
  rewrites : Store.Rewrites db.store id doc written
  told : (db.announcementsOf c id edit).map (fun a => (a.subscription, a.change)) =
    db.store.addressed.map fun sub => (sub, ⟨db.store.generation + 1, [id]⟩)
  once : ((db.announcementsOf c id edit).map fun a => a.subscription.token).Nodup
  /-- Every subscriber finds what was written, as those that were told before have left it. -/
  finds : ∀ earlier a later, db.announcementsOf c id edit = earlier ++ a :: later →
    a.finds = earlier.foldl (fun _ a => a.leaves c) { db with store := written }
  /-- So whatever it finds was written is done, and then what those before have asked for. -/
  visible : ∀ allowed, c.Confined allowed → ∀ a ∈ db.announcementsOf c id edit,
    Store.Leads allowed written a.finds.store
  leaves : (db.write c id edit).1 =
    (db.announcementsOf c id edit).foldl (fun _ a => a.leaves c) { db with store := written }

theorem announced_write (c : Client σ) (hticketed : db.store.Ticketed)
    (hedit : Store.KeepsId id edit) {written : Store} {doc : Document}
    (h : db.store.write id edit = .ok (written, doc)) :
    Announced c db id edit doc written := by
  obtain ⟨hwrite, hannouncements⟩ := write_of_ok (c := c) h
  have htold := map_tellEach c ⟨db.store.generation + 1, [id]⟩ db.store.addressed
    { db with store := written }
  rw [← hannouncements] at htold
  refine
    { rewrites := Store.rewrites_write hedit h
      told := htold
      once := ?_
      finds := fun earlier a later heq => finds_tellEach (hannouncements.symm.trans heq)
      visible := fun allowed hc => ?_
      leaves := by rw [hwrite] }
  · have htokens := congrArg (List.map fun entry => entry.1.token) htold
    rw [List.map_map, List.map_map] at htokens
    exact htokens ▸ hticketed.distinct.sublist (List.filter_sublist.map Subscription.token)
  · rw [hannouncements]
    exact (leads_tellEach hc _ _ _).1

/-- After a write that succeeds the store has gone on from what was written. -/
theorem leads_write (hc : c.Confined allowed) {written : Store} {doc : Document}
    (h : db.store.write id edit = .ok (written, doc)) :
    Store.Leads allowed written (db.write c id edit).1.store := by
  obtain ⟨hwrite, hannouncements⟩ := write_of_ok (c := c) h
  rw [hwrite, hannouncements]
  exact (leads_tellEach hc _ _ { db with store := written }).2

end Write

/-! ## Runs -/

section Runs

variable {c : Client σ} {allowed : Command → Prop} {action : Action} {db : Database σ}

/-- Whatever a confined client asks for, the store goes on by commands. -/
theorem leads_perform (hc : c.Confined allowed) (action : Action) (db : Database σ) :
    Store.Leads (fun _ => True) db.store (db.perform c action).store := by
  have hany : c.Confined fun _ => True := hc.mono fun _ _ => trivial
  cases hedit : action.edit? with
  | none => exact leads_perform_of_quiet hany hedit db
  | some entry =>
    obtain ⟨id, edit⟩ := entry
    rw [perform_of_edit? hedit]
    cases hwrite : db.store.write id edit with
    | error error =>
      rw [(write_of_error hwrite).1]
      exact .refl _ _
    | ok result =>
      obtain ⟨written, doc⟩ := result
      obtain ⟨command, hcommand⟩ := action.exists_command hedit
      have hperformed : db.store.perform command = written := by
        rw [Store.perform_of_edit? hcommand, Store.written, hwrite]
      have hfirst : Store.Leads (fun _ => True) db.store written :=
        hperformed ▸ Store.leads_perform trivial db.store
      exact hfirst.trans (leads_write hany hwrite)

theorem leads_performAll (hc : c.Confined allowed) (actions : List Action) (db : Database σ) :
    Store.Leads (fun _ => True) db.store (db.performAll c actions).store := by
  induction actions generalizing db with
  | nil => exact .refl _ _
  | cons action actions ih => exact (leads_perform hc action db).trans (ih _)

/-- An action makes one generation if it is a write that succeeds, and else none. -/
theorem generation_of_quiet (hc : c.Confined fun command => command.edit? = none)
    (action : Action) (db : Database σ) :
    (db.perform c action).store.generation =
      db.store.generation + (db.made? action).toList.length := by
  cases hedit : action.edit? with
  | none =>
    rw [made?, hedit]
    exact (leads_perform_of_quiet hc hedit db).documents.1
  | some entry =>
    obtain ⟨id, edit⟩ := entry
    rw [perform_of_edit? hedit, made?, hedit]
    dsimp only
    cases hwrite : db.store.write id edit with
    | error error =>
      rw [(write_of_error hwrite).1]
      rfl
    | ok result =>
      obtain ⟨written, doc⟩ := result
      exact (leads_write hc hwrite).documents.1.trans (Store.generation_write hwrite)

/-- The number of the change that an action makes is the next generation. -/
theorem generation_of_made? {change : Change} (h : db.made? action = some change) :
    change.generation = db.store.generation + 1 := by
  rw [made?] at h
  split at h
  · cases h
  · split at h
    · cases h
    next hwrite =>
      cases h
      exact Store.generation_write hwrite

/-- What a subscription is told in the course of one action is the change that it makes, if the
subscription is there. -/
theorem told_perform (c : Client σ) (hticketed : db.store.Ticketed) {token : Token}
    {index : IndexId}
    (howns : ∀ sub ∈ db.store.subscriptions, sub.token = token → sub.index = index)
    (hhas : db.store.registers token = true → db.store.hasIndex index = true) (action : Action) :
    ((db.announcements c action).filter fun a => decide (a.subscription.token = token)).map
        Announcement.change =
      if db.store.registers token then (db.made? action).toList else [] := by
  have hnone : ([] : List Change) =
      if db.store.registers token then (none : Option Change).toList else [] := by
    split <;> rfl
  rw [announcements, made?]
  cases hedit : action.edit? with
  | none => exact hnone
  | some entry =>
    obtain ⟨id, edit⟩ := entry
    dsimp only
    cases hwrite : db.store.write id edit with
    | error error =>
      rw [(write_of_error hwrite).2]
      exact hnone
    | ok result =>
      obtain ⟨written, doc⟩ := result
      rw [(write_of_ok hwrite).2, told_tellEach, hticketed.count_addressed howns hhas]
      dsimp only
      rw [Store.generation_write hwrite]
      split <;> rfl

/-- A subscription that has ended is told of nothing more. -/
theorem told_of_ended (hc : c.Confined allowed) {token : Token} {numbered : Nat}
    {history : List Command} (hreachable : db.store = Store.after numbered history)
    (htaken : token.number ≤ db.store.tokens) (hended : db.store.registers token = false)
    (actions : List Action) : told c token actions db = [] ∧ madeWhile c token actions db = [] := by
  induction actions generalizing db history with
  | nil => exact ⟨rfl, rfl⟩
  | cons action actions ih =>
    have hleads := leads_perform hc action db
    obtain ⟨history', hreachable'⟩ := (hreachable ▸ hleads).after
    obtain ⟨htold, hmade⟩ := ih hreachable' (Nat.le_trans htaken hleads.succeeds.tokens)
      (hleads.succeeds.registers htaken hended)
    have hnobody : ∀ sub ∈ db.store.subscriptions, sub.token = token → sub.index = ⟨0⟩ := by
      intro sub hsub htoken
      rw [Bool.eq_false_iff, ne_eq, Store.registers_iff] at hended
      exact absurd ⟨sub, hsub, htoken⟩ hended
    have hticketed : db.store.Ticketed := hreachable ▸ Store.ticketed_after numbered history
    rw [told, madeWhile, htold, hmade,
      told_perform c hticketed hnobody (fun hthere => by rw [hended] at hthere; cases hthere)]
    simp [hended]

/-- As long as its index is there a subscription is told of all that is written while it lasts,
generation after generation. -/
theorem told_while (hc : c.Confined fun command => command.edit? = none) {token : Token}
    {index : IndexId} {numbered : Nat} {history : List Command}
    (hreachable : db.store = Store.after numbered history)
    (htaken : token.number ≤ db.store.tokens) (hknown : index.number ≤ db.store.numbered)
    (howns : ∀ sub ∈ db.store.subscriptions, sub.token = token → sub.index = index)
    {actions : List Action} (hstays : (db.performAll c actions).store.hasIndex index = true) :
    told c token actions db = madeWhile c token actions db ∧
      (told c token actions db).map Change.generation =
        List.range' (db.store.generation + 1) (told c token actions db).length := by
  induction actions generalizing db history with
  | nil => exact ⟨rfl, rfl⟩
  | cons action actions ih =>
    have hticketed : db.store.Ticketed := hreachable ▸ Store.ticketed_after numbered history
    have hhas := (leads_performAll hc (action :: actions) db).succeeds.indexes index hknown hstays
    cases hthere : db.store.registers token with
    | false =>
      obtain ⟨htold, hmade⟩ := told_of_ended hc hreachable htaken hthere (action :: actions)
      rw [htold, hmade]
      exact ⟨rfl, rfl⟩
    | true =>
      have hleads := leads_perform hc action db
      have hnext := hleads.succeeds
      obtain ⟨history', hreachable'⟩ := (hreachable ▸ hleads).after
      obtain ⟨htold, hgenerations⟩ := ih hreachable' (Nat.le_trans htaken hnext.tokens)
        (Nat.le_trans hknown hnext.numbered)
        (fun sub hsub htoken => by
          rcases hnext.subscriptions sub hsub with hold | hnew
          · exact howns sub hold htoken
          · exact absurd htaken (htoken ▸ Nat.not_le_of_lt hnew))
        hstays
      have hmade := told_perform c hticketed howns (fun _ => hhas) action
      rw [hthere, if_pos rfl] at hmade
      refine ⟨by rw [told, madeWhile, hmade, htold, hthere, if_pos rfl], ?_⟩
      have hgeneration := generation_of_quiet hc action db
      rw [told, hmade]
      cases hchange : db.made? action with
      | none =>
        rw [hchange, Option.toList_none, List.length_nil, Nat.add_zero] at hgeneration
        rw [Option.toList_none, List.nil_append, ← hgeneration]
        exact hgenerations
      | some change =>
        rw [hchange, Option.toList_some, List.length_singleton] at hgeneration
        rw [Option.toList_some, List.singleton_append, List.map_cons, List.length_cons,
          List.range'_succ, generation_of_made? hchange, ← hgeneration, hgenerations]

end Runs

/-- A write of a document either fails, and everything is as before and nobody is told of it; or it
rewrites the one document at the next generation, and after that every subscription which has its
index is told of it once.  Nothing but a write tells anybody of a change: whatever the client does
when it is told of one, other actions come to the same.  If the callbacks of the client do not
write, that generation is all that a write makes; and a subscription whose index stays is told,
while it lasts, of just the writes that succeed, generation after generation. -/
theorem writes_announced_once (c : Client σ) {numbered : Nat} {history : List Command}
    {db : Database σ} (hreachable : db.store = Store.after numbered history) :
    (∀ (action : Action) (id : String) (edit : Store.Edit), action.edit? = some (id, edit) →
      match (db.write c id edit).2 with
      | .error _ => db.perform c action = db ∧ db.announcements c action = []
      | .ok doc => ∃ written, Announced c db id edit doc written) ∧
    (∀ action, action.edit? = none →
      db.announcements c action = [] ∧ db.perform c.deaf action = db.perform c action) ∧
    (c.Confined (fun command => command.edit? = none) →
      (∀ action, (db.perform c action).store.generation =
        db.store.generation + (db.made? action).toList.length) ∧
      ∀ sub ∈ db.store.subscriptions, ∀ actions,
        (db.performAll c actions).store.hasIndex sub.index = true →
          told c sub.token actions db = madeWhile c sub.token actions db ∧
            (told c sub.token actions db).map Change.generation =
              List.range' (db.store.generation + 1) (told c sub.token actions db).length) := by
  have hticketed : db.store.Ticketed := hreachable ▸ Store.ticketed_after numbered history
  refine ⟨fun action id edit hedit => ?_, fun action hquiet => ⟨?_, perform_deaf c hquiet db⟩,
    fun hc => ⟨fun action => ?_, ?_⟩⟩
  · cases hwrite : db.store.write id edit with
    | error error =>
      obtain ⟨hsame, hnobody⟩ := write_of_error (c := c) hwrite
      rw [hsame]
      refine ⟨by rw [perform_of_edit? hedit, hsame], ?_⟩
      rw [announcements, hedit]
      exact hnobody
    | ok result =>
      obtain ⟨written, doc⟩ := result
      obtain ⟨command, hcommand⟩ := action.exists_command hedit
      rw [(write_of_ok hwrite).1]
      exact ⟨written, announced_write c hticketed (Store.keepsId_of_edit? hcommand) hwrite⟩
  · rw [announcements, hquiet]
  · exact generation_of_quiet hc action db
  · intro sub hsub actions hstays
    have hhouses := (Store.kept_after numbered history).houses
    rw [← hreachable] at hhouses
    exact told_while hc hreachable (hticketed.taken sub hsub)
      (hhouses.subscriptions sub hsub).1
      (fun other hother htoken => by rw [hticketed.eq_of_token hother hsub htoken]) hstays

/-- A client that keeps a record of who is told of which generation.  Callback 9 unsubscribes as
soon as it is told of a change. -/
def recorder : Client (List (Nat × Nat)) :=
  { Client.silent _ with
    notify := fun callback notice db =>
      match notice with
      | .change change =>
        { db with
          client := db.client ++ [(callback, change.generation)]
          store := if callback = 9 then db.store.unsubscribe ⟨3⟩ else db.store }
      | _ => db }

theorem confined_recorder : recorder.Confined fun command => command.edit? = none :=
  { Client.confined_silent fun _ h => h with
    notify := by
      intro callback notice db
      cases notice with
      | change change =>
        by_cases hnine : callback = 9
        · simp only [recorder, hnine, if_true]
          exact ⟨[.unsubscribe ⟨3⟩], fun command hmem => List.mem_singleton.1 hmem ▸ rfl, rfl⟩
        · simp only [recorder, hnine, if_false]
          exact .refl _ db.store
      | _ => exact .refl _ db.store }

/-- Three subscribe to two views, one of which is then defined anew. -/
def subscribed : List Command :=
  [.defineView "v" Store.bodyById none, .defineView "w" Store.bodyById none,
   .subscribe ⟨⟨1⟩, some "v", false⟩ (.client 7), .subscribe ⟨⟨2⟩, some "w", false⟩ (.client 8),
   .subscribe ⟨⟨2⟩, some "w", false⟩ (.client 9), .defineView "v" Store.bodyById none]

/-- A database over their store. -/
def observed : Database (List (Nat × Nat)) where
  config := {}
  store := Store.after 0 subscribed
  temporaries := []
  queries := []
  runs := []
  lives := []
  refreshes := []
  permits := 0
  waiting := []
  scanning := []
  ready := []
  timers := []
  clock := 0
  metrics := {}
  journal := Journal.empty .info
  client := []

/-- Two writes succeed, with one between them that fails; a fourth subscribes before a last one. -/
def writing : List Action :=
  [.put "a" .null, .delete "b", .put "b" .null, .subscribe ⟨⟨2⟩, some "w", false⟩ 10,
   .delete "a"]

/-- The subscriber that stays is told of all three generations, and the one that unsubscribes when
it is told of the first is told of that one alone. -/
theorem announced_in_turn :
    (observed.perform recorder (.delete "b") = observed ∧
      observed.announcements recorder (.delete "b") = []) ∧
    (∃ doc written, Announced recorder observed "a" (Store.putEdit "a" .null) doc written) ∧
    (told recorder ⟨2⟩ writing observed).map Change.generation = [1, 2, 3] ∧
    (told recorder ⟨3⟩ writing observed).map Change.generation = [1] ∧
    (observed.performAll recorder writing).client = [(8, 1), (9, 1), (8, 2), (8, 3), (10, 3)] := by
  obtain ⟨hwrites, -, hruns⟩ := writes_announced_once recorder (rfl : observed.store = _)
  obtain ⟨-, htold⟩ := hruns confined_recorder
  have hfails := hwrites (.delete "b") "b" _ rfl
  have hsucceeds := hwrites (.put "a" .null) "a" _ rfl
  have hstays := htold ⟨⟨2⟩, ⟨2⟩, .client 8⟩ (List.mem_cons_of_mem _ List.mem_cons_self) writing rfl
  have hleaves := htold ⟨⟨3⟩, ⟨2⟩, .client 9⟩
    (List.mem_cons_of_mem _ (List.mem_cons_of_mem _ List.mem_cons_self)) writing rfl
  exact ⟨hfails, ⟨_, hsucceeds⟩, hstays.2, hleaves.2, rfl⟩

end Database

end Viewbase
