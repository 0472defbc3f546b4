import Mathlib.Data.List.Nodup
import Viewbase.Proofs.Store.Audience

/-!
What becomes of indexes and subscriptions as a store goes on.

Numbers are taken once: an index that is gone stays gone, and a subscription that has ended does not
come back (`Succeeds`).  A command that is no write leaves the generation and the documents as they
are, and a write changes one document and nothing that indexes or subscriptions are told by
(`Rewrites`).
-/

namespace Viewbase.Store

variable {s s' s'' : Store}

/-- Commands of a kind lead from one store to another. -/
def Leads (allowed : Command → Prop) (s s' : Store) : Prop :=
  ∃ commands : List Command, (∀ command ∈ commands, allowed command) ∧
    s' = commands.foldl perform s

section Leads

variable {allowed wider : Command → Prop}

theorem Leads.refl (allowed : Command → Prop) (s : Store) : Leads allowed s s :=
  ⟨[], fun _ hmem => (List.not_mem_nil hmem).elim, rfl⟩

theorem Leads.trans (h : Leads allowed s s') (h' : Leads allowed s' s'') :
    Leads allowed s s'' := by
  obtain ⟨commands, hallowed, rfl⟩ := h
  obtain ⟨commands', hallowed', rfl⟩ := h'
  refine ⟨commands ++ commands', fun command hcommand => ?_, (List.foldl_append ..).symm⟩
  rcases List.mem_append.1 hcommand with hmem | hmem
  · exact hallowed command hmem
  · exact hallowed' command hmem

theorem leads_perform {command : Command} (h : allowed command) (s : Store) :
    Leads allowed s (s.perform command) :=
  ⟨[command], fun _ hmem => List.mem_singleton.1 hmem ▸ h, rfl⟩

theorem Leads.mono (h : Leads allowed s s') (hwider : ∀ command, allowed command → wider command) :
    Leads wider s s' := by
  obtain ⟨commands, hallowed, heq⟩ := h
  exact ⟨commands, fun command hmem => hwider command (hallowed command hmem), heq⟩

/-- What every allowed command does to the store, all of them do. -/
theorem Leads.induct (h : Leads allowed s s') {r : Store → Store → Prop} (hrefl : ∀ s, r s s)
    (htrans : ∀ {s s' s''}, r s s' → r s' s'' → r s s'')
    (hperform : ∀ s command, allowed command → r s (s.perform command)) : r s s' := by
  obtain ⟨commands, hallowed, rfl⟩ := h
  induction commands generalizing s with
  | nil => exact hrefl s
  | cons command commands ih =>
    exact htrans (hperform s command (hallowed command List.mem_cons_self))
      (ih fun other hother => hallowed other (List.mem_cons_of_mem _ hother))

theorem leads_after (numbered : Nat) (history : List Command) :
    Leads (fun _ => True) (empty numbered) (after numbered history) :=
  ⟨history, fun _ _ => trivial, rfl⟩

/-- A store that commands lead to from a reachable one is reachable. -/
theorem Leads.after {numbered : Nat} {history : List Command}
    (h : Leads allowed (Store.after numbered history) s) :
    ∃ history', s = Store.after numbered history' := by
  obtain ⟨commands, -, rfl⟩ := h
  exact ⟨history ++ commands, (List.foldl_append ..).symm⟩

end Leads

/-! ## Numbers are taken once -/

/-- The store `s'` came after `s`: of the indexes and subscriptions that were numbered before, it
has none that `s` has not. -/
structure Succeeds (s s' : Store) : Prop where
  generation : s.generation ≤ s'.generation
  numbered : s.numbered ≤ s'.numbered
  tokens : s.tokens ≤ s'.tokens
  indexes : ∀ id : IndexId, id.number ≤ s.numbered → s'.hasIndex id = true → s.hasIndex id = true
  subscriptions : ∀ sub ∈ s'.subscriptions, sub ∈ s.subscriptions ∨ s.tokens < sub.token.number

theorem Succeeds.refl (s : Store) : Succeeds s s where
  generation := Nat.le_refl _
  numbered := Nat.le_refl _
  tokens := Nat.le_refl _
  indexes := fun _ _ h => h
  subscriptions := fun _ hsub => .inl hsub

theorem Succeeds.trans (h : Succeeds s s') (h' : Succeeds s' s'') : Succeeds s s'' where
  generation := Nat.le_trans h.generation h'.generation
  numbered := Nat.le_trans h.numbered h'.numbered
  tokens := Nat.le_trans h.tokens h'.tokens
  indexes := fun id hid hhas =>
    h.indexes id hid (h'.indexes id (Nat.le_trans hid h.numbered) hhas)
  subscriptions := by
    intro sub hsub
    rcases h'.subscriptions sub hsub with hold | hnew
    · exact h.subscriptions sub hold
    · exact .inr (Nat.lt_of_le_of_lt h.tokens hnew)

theorem Later.succeeds (h : Later s s') : Succeeds s s' where
  generation := Nat.le_of_eq h.generation.symm
  numbered := h.numbered
  tokens := Nat.le_of_eq h.tokens.symm
  indexes := by
    intro id hid hhas
    obtain ⟨view', hview'⟩ := Option.isSome_iff_exists.1 hhas
    rcases h.views id view' hview' with hnew | ⟨view, hview, -⟩
    · exact absurd hid (Nat.not_le_of_lt hnew)
    · rw [hasIndex, hview]
      rfl
  subscriptions := fun sub hsub => .inl (h.subscriptions ▸ hsub)

theorem succeeds_write {id : String} {edit : Edit} {doc : Document}
    (h : s.write id edit = .ok (s', doc)) : Succeeds s s' where
  generation := by
    rw [generation_write h]
    exact Nat.le_succ _
  numbered := Nat.le_of_eq (views_write h).2.1.symm
  tokens := Nat.le_of_eq (views_write h).2.2.2.symm
  indexes := fun id _ hhas => (hasIndex_congr (same_write h).ids id).symm.trans hhas
  subscriptions := fun _ hsub => .inl ((views_write h).2.2.1 ▸ hsub)

theorem succeeds_written (s : Store) (id : String) (edit : Edit) :
    Succeeds s (s.written id edit) := by
  rw [written]
  split
  next hwrite => exact succeeds_write hwrite
  next => exact .refl s

theorem succeeds_subscribe {index : Descriptor} {observer : Observer} {token : Token}
    (h : s.subscribe index observer = .ok (token, s')) : Succeeds s s' := by
  obtain ⟨-, -, rfl⟩ := subscribe_eq_ok h
  refine ⟨Nat.le_refl _, Nat.le_refl _, Nat.le_succ _, fun _ _ hhas => hhas, fun sub hsub => ?_⟩
  rcases List.mem_append.1 hsub with hold | hnew
  · exact .inl hold
  · rw [List.mem_singleton.1 hnew]
    exact .inr (Nat.lt_succ_self _)

theorem succeeds_unsubscribe (s : Store) (token : Token) : Succeeds s (s.unsubscribe token) :=
  { Succeeds.refl s with subscriptions := fun _ hsub => .inl (List.mem_filter.1 hsub).1 }

theorem succeeds_perform (s : Store) (command : Command) : Succeeds s (s.perform command) := by
  cases command with
  | put id body => exact succeeds_written s id (putEdit id body)
  | delete id => exact succeeds_written s id (deleteEdit id)
  | addConflict id rev => exact succeeds_written s id (conflictEdit id rev)
  | resolveConflicts id => exact succeeds_written s id (resolveEdit id)
  | defineView name map reduce => exact (later_defineView s name map reduce).succeeds
  | createEphemeral map => exact (later_createEphemeral s map).succeeds
  | deleteIndex index =>
    rw [perform]
    split
    next hdelete => exact (later_deleteIndex hdelete).succeeds
    next => exact .refl s
  | subscribe index observer =>
    rw [perform]
    split
    next hsubscribe => exact succeeds_subscribe hsubscribe
    next => exact .refl s
  | unsubscribe token => exact succeeds_unsubscribe s token
  | scan request => exact (later_scan s request).succeeds

theorem Leads.succeeds {allowed : Command → Prop} (h : Leads allowed s s') : Succeeds s s' :=
  h.induct Succeeds.refl Succeeds.trans fun s command _ => succeeds_perform s command

/-! ## Tokens -/

/-- Every subscription has a token of its own, of a number that was taken. -/
structure Ticketed (s : Store) : Prop where
  taken : ∀ sub ∈ s.subscriptions, sub.token.number ≤ s.tokens
  distinct : (s.subscriptions.map Subscription.token).Nodup

theorem Ticketed.of_sublist (h : s.Ticketed) (htokens : s'.tokens = s.tokens)
    (hsub : s'.subscriptions.Sublist s.subscriptions) : s'.Ticketed where
  taken := fun sub hmem => htokens ▸ h.taken sub (hsub.subset hmem)
  distinct := h.distinct.sublist (hsub.map _)

theorem Ticketed.later (h : s.Ticketed) (hlater : Later s s') : s'.Ticketed :=
  h.of_sublist hlater.tokens (hlater.subscriptions ▸ .refl _)

theorem Ticketed.written (h : s.Ticketed) (id : String) (edit : Edit) :
    (s.written id edit).Ticketed := by
  rw [Store.written]
  split
  next hwrite =>
    exact h.of_sublist (views_write hwrite).2.2.2 ((views_write hwrite).2.2.1 ▸ .refl _)
  next => exact h

theorem Ticketed.subscribe (h : s.Ticketed) {index : Descriptor} {observer : Observer}
    {token : Token} (hsubscribe : s.subscribe index observer = .ok (token, s')) : s'.Ticketed := by
  obtain ⟨-, -, rfl⟩ := subscribe_eq_ok hsubscribe
  refine ⟨fun sub hsub => ?_, ?_⟩
  · rcases List.mem_append.1 hsub with hold | hnew
    · exact Nat.le_succ_of_le (h.taken sub hold)
    · cases List.mem_singleton.1 hnew
      exact Nat.le_refl _
  · rw [List.map_append, List.map_singleton]
    refine List.nodup_append.2 ⟨h.distinct, List.nodup_singleton _, ?_⟩
    intro token htoken other hother
    obtain ⟨sub, hsub, rfl⟩ := List.mem_map.1 htoken
    -- The new number is higher than any that was taken.
    rintro heq
    have hnumber : sub.token.number = s.tokens + 1 := by
      rw [heq, List.mem_singleton.1 hother]
    have htaken := h.taken sub hsub
    omega

theorem Ticketed.perform (h : s.Ticketed) (command : Command) : (s.perform command).Ticketed := by
  cases command with
  | put id body => exact h.written id (putEdit id body)
  | delete id => exact h.written id (deleteEdit id)
  | addConflict id rev => exact h.written id (conflictEdit id rev)
  | resolveConflicts id => exact h.written id (resolveEdit id)
  | defineView name map reduce => exact h.later (later_defineView s name map reduce)
  | createEphemeral map => exact h.later (later_createEphemeral s map)
  | deleteIndex index =>
    rw [Store.perform]
    split
    next hdelete => exact h.later (later_deleteIndex hdelete)
    next => exact h
  | subscribe index observer =>
    rw [Store.perform]
    split
    next hsubscribe => exact h.subscribe hsubscribe
    next => exact h
  | unsubscribe token => exact h.of_sublist rfl List.filter_sublist
  | scan request => exact h.later (later_scan s request)

theorem ticketed_after (numbered : Nat) (history : List Command) :
    (after numbered history).Ticketed := by
  have hempty : (empty numbered).Ticketed := ⟨nofun, .nil⟩
  exact (leads_after numbered history).induct (r := fun s s' => s.Ticketed → s'.Ticketed)
    (fun _ h => h) (fun h h' hticketed => h' (h hticketed))
    (fun _ command _ h => h.perform command) hempty

/-- Of two subscriptions with the same token there is but one. -/
theorem Ticketed.eq_of_token (h : s.Ticketed) {sub sub' : Subscription}
    (hsub : sub ∈ s.subscriptions) (hsub' : sub' ∈ s.subscriptions)
    (htoken : sub.token = sub'.token) : sub = sub' :=
  List.inj_on_of_nodup_map h.distinct hsub hsub' htoken

/-! ## What is written -/

/-- A command that is no write leaves the documents and their generation. -/
theorem documents_perform {command : Command} (h : command.edit? = none) (s : Store) :
    (s.perform command).generation = s.generation ∧
      (s.perform command).documents = s.documents := by
  have hlater : ∀ {s'}, Later s s' → s'.generation = s.generation ∧ s'.documents = s.documents :=
    fun h => ⟨h.generation, h.documents⟩
  cases command with
  | put id body => cases h
  | delete id => cases h
  | addConflict id rev => cases h
  | resolveConflicts id => cases h
  | defineView name map reduce => exact hlater (later_defineView s name map reduce)
  | createEphemeral map => exact hlater (later_createEphemeral s map)
  | deleteIndex index =>
    rw [perform]
    split
    next hdelete => exact hlater (later_deleteIndex hdelete)
    next => exact ⟨rfl, rfl⟩
  | subscribe index observer =>
    rw [perform]
    split
    next hsubscribe =>
      obtain ⟨-, -, rfl⟩ := subscribe_eq_ok hsubscribe
      exact ⟨rfl, rfl⟩
    next => exact ⟨rfl, rfl⟩
  | unsubscribe token => exact ⟨rfl, rfl⟩
  | scan request => exact hlater (later_scan s request)

theorem Leads.documents (h : Leads (fun command => command.edit? = none) s s') :
    s'.generation = s.generation ∧ s'.documents = s.documents :=
  h.induct (r := fun s s' => s'.generation = s.generation ∧ s'.documents = s.documents)
    (fun _ => ⟨rfl, rfl⟩) (fun h h' => ⟨h'.1.trans h.1, h'.2.trans h.2⟩)
    fun s _ hquiet => documents_perform hquiet s

theorem perform_of_edit? {command : Command} {id : String} {edit : Edit}
    (h : command.edit? = some (id, edit)) (s : Store) : s.perform command = s.written id edit := by
  cases command with
  | put other body => cases h; rfl
  | delete other => cases h; rfl
  | addConflict other rev => cases h; rfl
  | resolveConflicts other => cases h; rfl
  | _ => cases h

/-- The store `s'` is `s` after one write of one document. -/
structure Rewrites (s : Store) (id : String) (doc : Document) (s' : Store) : Prop where
  generation : s'.generation = s.generation + 1
  document : s'.document? id = some doc
  others : ∀ other, other ≠ id → s'.document? other = s.document? other
  views : s'.views = s.views
  names : s'.names = s.names
  subscriptions : s'.subscriptions = s.subscriptions
  /-- The change is noted for the views that have yet to take it in. -/
  log : s'.log = (s.log ++ [(s.generation + 1, id)]).filter fun change =>
    decide (s'.indexedFloor < change.1)

theorem rewrites_write {id : String} {edit : Edit} {doc : Document} (hedit : KeepsId id edit)
    (h : s.write id edit = .ok (s', doc)) : Rewrites s id doc s' := by
  obtain ⟨hdoc, rfl⟩ := write_eq_ok h
  have hid : doc.id = id := hedit _ _ _ (fun old hold => by simpa using List.find?_some hold) hdoc
  subst hid
  exact
    { generation := rfl
      document := find?_placeDocument doc s.documents
      others := fun other hother => find?_placeDocument_of_ne (Ne.symm hother) s.documents
      views := rfl
      names := rfl
      subscriptions := rfl
      log := rfl }

end Viewbase.Store
