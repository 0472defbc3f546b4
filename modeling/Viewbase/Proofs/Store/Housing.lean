import Viewbase.Proofs.Store.Later

/-!
Indexes that a store keeps for others.

Some indexes are left to whoever made them: no name leads to them and no callback of the client is
subscribed to them (`Houses`).  Then nothing takes them away but their own deletion (`Spares`).
-/

namespace Viewbase.Store

/-- Indexes were made each once, and are nobody else's. -/
structure Houses (s : Store) (ids : List IndexId) : Prop where
  views : ∀ view ∈ s.views, view.id.number ≤ s.numbered
  known : ∀ id ∈ ids, id.number ≤ s.numbered
  distinct : ids.Nodup
  names : ∀ entry ∈ s.names, entry.2.number ≤ s.numbered ∧ entry.2 ∉ ids
  subscriptions : ∀ sub ∈ s.subscriptions, sub.index.number ≤ s.numbered ∧
    ∀ callback, sub.observer = .client callback → sub.index ∉ ids

/-- The store goes on to house the indexes, and has those of them that it had. -/
structure Spares (ids : List IndexId) (s s' : Store) : Prop where
  houses : s'.Houses ids
  there : ∀ id ∈ ids, s'.hasIndex id = s.hasIndex id
  numbered : s.numbered ≤ s'.numbered

variable {s s' : Store} {ids : List IndexId}

theorem houses_empty (numbered : Nat) : (empty numbered).Houses [] where
  views := nofun
  known := nofun
  distinct := .nil
  names := nofun
  subscriptions := nofun

theorem hasIndex_iff {id : IndexId} : s.hasIndex id = true ↔ id ∈ s.views.map View.id := by
  rw [hasIndex, view?, List.find?_isSome, List.mem_map]
  simp

theorem hasIndex_congr (h : s'.views.map View.id = s.views.map View.id) (id : IndexId) :
    s'.hasIndex id = s.hasIndex id := by
  rw [Bool.eq_iff_iff, hasIndex_iff, hasIndex_iff, h]

/-! ## What leaves all indexes in place -/

/-- There are the same indexes, names and subscriptions. -/
structure Same (s s' : Store) : Prop where
  ids : s'.views.map View.id = s.views.map View.id
  names : s'.names = s.names
  subscriptions : s'.subscriptions = s.subscriptions
  numbered : s'.numbered = s.numbered

theorem Houses.of_ids (h : s.Houses ids) {id : IndexId} (hid : id ∈ s.views.map View.id) :
    id.number ≤ s.numbered := by
  obtain ⟨view, hview, rfl⟩ := List.mem_map.1 hid
  exact h.views view hview

theorem Houses.same (h : s.Houses ids) (hsame : Same s s') : Spares ids s s' where
  houses :=
    { views := fun view hview => by
        rw [hsame.numbered]
        exact h.of_ids (hsame.ids ▸ List.mem_map_of_mem hview)
      known := hsame.numbered ▸ h.known
      distinct := h.distinct
      names := by rw [hsame.names, hsame.numbered]; exact h.names
      subscriptions := by rw [hsame.subscriptions, hsame.numbered]; exact h.subscriptions }
  there := fun id _ => hasIndex_congr hsame.ids id
  numbered := Nat.le_of_eq hsame.numbered.symm

theorem ids_setView (s : Store) (view : View) :
    (s.setView view).views.map View.id = s.views.map View.id := by
  rw [setView, List.map_map]
  refine List.map_congr_left fun old _ => ?_
  rw [Function.comp_apply]
  split
  next hid => exact hid.symm
  next => rfl

theorem same_refresh (s : Store) (id : IndexId) : Same s (s.refresh id).1 := by
  rw [refresh]
  split
  · exact ⟨rfl, rfl, rfl, rfl⟩
  next found _ =>
    split
    · exact ⟨rfl, rfl, rfl, rfl⟩
    · obtain ⟨view, log, -, heq⟩ := catchUp_eq s found
      rw [heq]
      exact ⟨ids_setView s view, rfl, rfl, rfl⟩

theorem same_scan (s : Store) (request : Request) : Same s (s.scan request).1 := by
  rcases fst_scan s request with heq | ⟨id, -, heq⟩
  · rw [heq]
    exact ⟨rfl, rfl, rfl, rfl⟩
  · rw [heq]
    have hrefreshed := same_refresh { s with scans := s.scans + 1 } id
    exact ⟨hrefreshed.ids, hrefreshed.names, hrefreshed.subscriptions, hrefreshed.numbered⟩

theorem same_write {docId : String} {edit : Edit} {doc : Document}
    (h : s.write docId edit = .ok (s', doc)) : Same s s' := by
  obtain ⟨-, rfl⟩ := write_eq_ok h
  exact ⟨rfl, rfl, rfl, rfl⟩

theorem same_written (s : Store) (docId : String) (edit : Edit) : Same s (s.written docId edit) := by
  rw [written]
  split
  next hwrite => exact same_write hwrite
  next => exact ⟨rfl, rfl, rfl, rfl⟩

/-! ## Other indexes come and go -/

theorem view?_removeView_self (s : Store) (id : IndexId) : (s.removeView id).view? id = none := by
  rw [view?, removeView, List.find?_eq_none]
  intro view hview
  simpa using (List.mem_filter.1 hview).2

theorem view?_removeView_of_ne {removed id : IndexId} (hid : id ≠ removed) :
    (s.removeView removed).view? id = s.view? id := by
  rw [view?, view?, removeView, List.find?_filter]
  congr 1
  funext view
  by_cases hview : view.id = id
  · simp [hview, hid]
  · simp [hview]

theorem view?_addView_of_ne {descriptor : Descriptor} {id : IndexId} (hid : id ≠ descriptor.id)
    (map : MapFunction) (reduce : Option ReduceFunction) :
    (s.addView descriptor map reduce).view? id = s.view? id := by
  rw [view?, view?, addView, List.find?_append, List.find?_cons_of_neg, List.find?_nil,
    Option.or_none]
  exact Bool.not_eq_true _ ▸ decide_eq_false (Ne.symm hid)

/-- The next index has an identity that nobody held before. -/
theorem ne_nextId {id : IndexId} (hid : id.number ≤ s.numbered) : id ≠ s.nextId := by
  rintro rfl
  exact Nat.not_succ_le_self _ hid

/-- Among the older indexes a definition takes away the one of its name. -/
theorem view?_defineView_of_ne {id : IndexId} (hid : id ≠ s.nextId) (name : String)
    (map : MapFunction) (reduce : Option ReduceFunction) :
    (s.defineView name map reduce).2.view? id =
      if s.names.lookup name = some id then none else s.view? id := by
  rw [defineView]
  split
  next old hold =>
    refine (view?_addView_of_ne hid map reduce).trans ?_
    by_cases heq : id = old
    · rw [if_pos (by rw [hold, heq]), heq]
      exact view?_removeView_self s old
    · rw [if_neg fun hsome => heq (Option.some.inj (hsome.symm.trans hold))]
      exact view?_removeView_of_ne heq
  next hnone =>
    rw [if_neg (by simp [hnone])]
    exact view?_addView_of_ne hid map reduce

theorem hasIndex_removeView_of_ne {removed id : IndexId} (hid : id ≠ removed) :
    (s.removeView removed).hasIndex id = s.hasIndex id := by
  rw [hasIndex, hasIndex, view?_removeView_of_ne hid]

theorem hasIndex_addView_of_ne {descriptor : Descriptor} {id : IndexId} (hid : id ≠ descriptor.id)
    (map : MapFunction) (reduce : Option ReduceFunction) :
    (s.addView descriptor map reduce).hasIndex id = s.hasIndex id := by
  rw [hasIndex, hasIndex, view?_addView_of_ne hid]

/-- Names and views may go. -/
theorem Houses.shrink (h : s.Houses ids) (hviews : ∀ view ∈ s'.views, view ∈ s.views)
    (hnames : ∀ entry ∈ s'.names, entry ∈ s.names)
    (hsubscriptions : s'.subscriptions = s.subscriptions) (hnumbered : s'.numbered = s.numbered) :
    s'.Houses ids where
  views := fun view hview => hnumbered ▸ h.views view (hviews view hview)
  known := hnumbered ▸ h.known
  distinct := h.distinct
  names := fun entry hentry => hnumbered ▸ h.names entry (hnames entry hentry)
  subscriptions := by rw [hsubscriptions, hnumbered]; exact h.subscriptions

/-- An index is added under the next identity. -/
theorem Houses.addView (h : s.Houses ids) {descriptor : Descriptor}
    (hid : descriptor.id = s.nextId) (map : MapFunction) (reduce : Option ReduceFunction) :
    (s.addView descriptor map reduce).Houses ids where
  views := by
    intro view hview
    rcases mem_views_addView hview with hold | hnew
    · exact Nat.le_succ_of_le (h.views view hold)
    · rw [hnew, View.id, View.unbuilt, hid]
      exact Nat.le_refl _
  known := fun id hmem => Nat.le_succ_of_le (h.known id hmem)
  distinct := h.distinct
  names := fun entry hentry =>
    ⟨Nat.le_succ_of_le (h.names entry hentry).1, (h.names entry hentry).2⟩
  subscriptions := fun sub hsub =>
    ⟨Nat.le_succ_of_le (h.subscriptions sub hsub).1, (h.subscriptions sub hsub).2⟩

theorem Houses.nextId_not_mem (h : s.Houses ids) : s.nextId ∉ ids :=
  fun hmem => Nat.not_succ_le_self _ (h.known _ hmem)

/-- What an older index of the name leaves behind. -/
theorem Houses.unname (h : s.Houses ids) {name : String} {old : IndexId}
    (hold : s.names.lookup name = some old) :
    Spares ids s ((s.removeView old).forgetName name) where
  houses := h.shrink (fun _ hview => (List.mem_filter.1 hview).1)
    (fun _ hentry => (List.mem_filter.1 hentry).1) rfl rfl
  there := fun id hid => by
    have hne : id ≠ old := by
      rintro rfl
      obtain ⟨earlier, later, heq, -⟩ := List.lookup_eq_some_iff.1 hold
      exact (h.names (name, id) (by simp [heq])).2 hid
    exact hasIndex_removeView_of_ne hne
  numbered := Nat.le_refl _

/-- The name of an index that is to come is noted. -/
theorem Houses.name_addView (h : s.Houses ids) (name : String) {descriptor : Descriptor}
    (hid : descriptor.id = s.nextId) (map : MapFunction) (reduce : Option ReduceFunction) :
    Spares ids s ({ s with names := s.names ++ [(name, descriptor.id)] }.addView descriptor map
      reduce) where
  houses :=
    { h.addView hid map reduce with
      names := by
        intro entry hentry
        rcases List.mem_append.1 hentry with hold | hnew
        · exact ⟨Nat.le_succ_of_le (h.names entry hold).1, (h.names entry hold).2⟩
        · rw [List.mem_singleton.1 hnew, hid]
          exact ⟨Nat.le_refl _, h.nextId_not_mem⟩ }
  there := fun id hmem =>
    hasIndex_addView_of_ne (fun heq => h.nextId_not_mem (hid ▸ heq ▸ hmem)) map reduce
  numbered := Nat.le_succ _

theorem Houses.defineView (h : s.Houses ids) (name : String) (map : MapFunction)
    (reduce : Option ReduceFunction) : Spares ids s (s.defineView name map reduce).2 := by
  rw [Store.defineView]
  split
  next old hold =>
    have hunnamed := h.unname hold
    have hadded := hunnamed.houses.name_addView name
      (show (Descriptor.named s.nextId name reduce.isSome).id = _ from rfl) map reduce
    exact ⟨hadded.houses, fun id hid => (hadded.there id hid).trans (hunnamed.there id hid),
      Nat.le_trans hunnamed.numbered hadded.numbered⟩
  next => exact h.name_addView name rfl map reduce

/-- An index that is set apart is made. -/
theorem Houses.createEphemeral (h : s.Houses ids) (map : MapFunction) :
    Spares ids s (s.createEphemeral map).2 ∧
      (s.createEphemeral map).2.Houses (ids ++ [(s.createEphemeral map).1.id]) ∧
        (s.createEphemeral map).2.hasIndex (s.createEphemeral map).1.id = true := by
  have hadded : (s.createEphemeral map).2.Houses ids := h.addView rfl map none
  have hnew := h.nextId_not_mem
  refine ⟨⟨hadded, fun id hid => ?_, Nat.le_succ _⟩,
    { hadded with known := ?_, distinct := ?_, names := ?_, subscriptions := ?_ }, ?_⟩
  · exact hasIndex_addView_of_ne (fun (heq : id = s.nextId) => hnew (heq ▸ hid)) map none
  · intro id hid
    rcases List.mem_append.1 hid with hold | hid
    · exact hadded.known id hold
    · rw [List.mem_singleton.1 hid]
      exact Nat.le_refl _
  · refine List.nodup_append.2 ⟨h.distinct, by simp, fun id hid other hother => ?_⟩
    rw [List.mem_singleton.1 hother]
    exact fun (heq : id = s.nextId) => hnew (heq ▸ hid)
  · intro entry hentry
    refine ⟨(hadded.names entry hentry).1, fun hid => ?_⟩
    rcases List.mem_append.1 hid with hold | hid
    · exact (hadded.names entry hentry).2 hold
    · have hle := (h.names entry hentry).1
      rw [List.mem_singleton.1 hid] at hle
      exact Nat.not_succ_le_self _ hle
  · intro sub hsub
    refine ⟨(hadded.subscriptions sub hsub).1, fun callback hcallback hid => ?_⟩
    rcases List.mem_append.1 hid with hold | hid
    · exact (hadded.subscriptions sub hsub).2 callback hcallback hold
    · have hle := (h.subscriptions sub hsub).1
      rw [List.mem_singleton.1 hid] at hle
      exact Nat.not_succ_le_self _ hle
  · rw [hasIndex_iff, Store.createEphemeral, Store.addView, List.map_append]
    exact List.mem_append_right _ (List.mem_singleton.2 rfl)

/-- Only the index that is deleted goes. -/
theorem Houses.deleteIndex (h : s.Houses ids) {index : Descriptor}
    (hdelete : s.deleteIndex index = .ok s') :
    s'.Houses ids ∧ ∀ id, id ≠ index.id → s'.hasIndex id = s.hasIndex id := by
  have hremoved : (s.removeView index.id).Houses ids :=
    h.shrink (fun _ hview => (List.mem_filter.1 hview).1) (fun _ hentry => hentry) rfl rfl
  have hforgotten : ∀ name, ((s.removeView index.id).forgetName name).Houses ids := fun name =>
    hremoved.shrink (fun _ hview => hview) (fun _ hentry => (List.mem_filter.1 hentry).1) rfl rfl
  obtain ⟨-, -, ⟨name, -, -, rfl⟩ | ⟨-, rfl⟩⟩ := deleteIndex_eq_ok hdelete
  · exact ⟨hforgotten name, fun id hid => hasIndex_removeView_of_ne hid⟩
  · exact ⟨hremoved, fun id hid => hasIndex_removeView_of_ne hid⟩

theorem Houses.deleteOther (h : s.Houses ids) {index : Descriptor} (hother : index.id ∉ ids)
    (hdelete : s.deleteIndex index = .ok s') : Spares ids s s' := by
  obtain ⟨hhouses, hthere⟩ := h.deleteIndex hdelete
  exact ⟨hhouses, fun id hid => hthere id fun heq => hother (heq ▸ hid),
    (later_deleteIndex hdelete).numbered⟩

/-! ## Subscriptions -/

theorem Houses.unsubscribe (h : s.Houses ids) (token : Token) :
    Spares ids s (s.unsubscribe token) where
  houses :=
    { h with subscriptions := fun sub hsub => h.subscriptions sub (List.mem_filter.1 hsub).1 }
  there := fun _ _ => rfl
  numbered := Nat.le_refl _

theorem Houses.subscribe (h : s.Houses ids) {index : Descriptor} {observer : Observer}
    {token : Token} (hobserver : ∀ callback, observer = .client callback → index.id ∉ ids)
    (hsubscribe : s.subscribe index observer = .ok (token, s')) : Spares ids s s' := by
  obtain ⟨hthere, -, rfl⟩ := subscribe_eq_ok hsubscribe
  refine ⟨{ h with subscriptions := fun sub hsub => ?_ }, fun _ _ => rfl, Nat.le_refl _⟩
  rcases List.mem_append.1 hsub with hold | hnew
  · exact h.subscriptions sub hold
  · rw [List.mem_singleton.1 hnew]
    exact ⟨h.of_ids (hasIndex_iff.1 hthere), hobserver⟩

/-- Every command goes on from the identities that were taken. -/
theorem Houses.perform (h : s.Houses []) (command : Command) : (s.perform command).Houses [] := by
  have hwritten : ∀ docId edit, (s.written docId edit).Houses [] :=
    fun docId edit => (h.same (same_written s docId edit)).houses
  cases command with
  | put id body => exact hwritten id (putEdit id body)
  | delete id => exact hwritten id (deleteEdit id)
  | addConflict id rev => exact hwritten id (conflictEdit id rev)
  | resolveConflicts id => exact hwritten id (resolveEdit id)
  | defineView name map reduce => exact (h.defineView name map reduce).houses
  | createEphemeral map => exact (h.createEphemeral map).1.houses
  | unsubscribe token => exact (h.unsubscribe token).houses
  | scan request => exact (h.same (same_scan s request)).houses
  | deleteIndex index =>
    rw [Store.perform]
    split
    next hdelete => exact (h.deleteIndex hdelete).1
    next => exact h
  | subscribe index observer =>
    rw [Store.perform]
    split
    next hsubscribe => exact (h.subscribe (fun _ _ => List.not_mem_nil) hsubscribe).houses
    next => exact h

end Viewbase.Store
