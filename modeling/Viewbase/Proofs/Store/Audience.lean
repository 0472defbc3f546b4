import Viewbase.Proofs.Store.Housing

/-!
Who is told of a write.

An index that somebody is subscribed to is not deleted; but when its name is defined anew it goes,
whoever is subscribed to it (`displaced`).  Main statement: after any history exactly the
subscriptions to indexes that were not displaced have their index, and exactly their observers are
told of the next write (`audience_eq_undisplaced`).  So a subscriber to a view that is defined anew
hears no more, though it is registered still (`orphaned_by_redefinition`).
-/

namespace Viewbase

/-- The index that a command takes away without regard to its subscribers. -/
def Command.displaces? (s : Store) : Command → Option IndexId
  | .defineView name _ _ => s.names.lookup name
  | _ => none

namespace Store

/-- The indexes that commands take away without regard to their subscribers. -/
def displaced (s : Store) : List Command → List IndexId
  | [] => []
  | command :: rest => (command.displaces? s).toList ++ (s.perform command).displaced rest

/-- The subscriptions to indexes other than the given ones have their index; the given ones are gone
for good. -/
structure Kept (s : Store) (gone : List IndexId) : Prop where
  houses : s.Houses []
  known : ∀ id ∈ gone, id.number ≤ s.numbered
  absent : ∀ id ∈ gone, s.hasIndex id = false
  kept : ∀ sub ∈ s.subscriptions, sub.index ∉ gone → s.hasIndex sub.index = true

variable {s s' : Store} {gone : List IndexId}

theorem kept_empty (numbered : Nat) : (empty numbered).Kept [] where
  houses := houses_empty numbered
  known := nofun
  absent := nofun
  kept := nofun

/-! ## One command -/

/-- Indexes that were there may be taken away, and others may come. -/
theorem Kept.of_hasIndex (h : s.Kept gone) {taken : List IndexId} (hhouses : s'.Houses [])
    (hnumbered : s.numbered ≤ s'.numbered) (hsubscriptions : s'.subscriptions = s.subscriptions)
    (htaken : ∀ id ∈ taken, id.number ≤ s.numbered)
    (hgone : ∀ id, id.number ≤ s.numbered → s.hasIndex id = false ∨ id ∈ taken →
      s'.hasIndex id = false)
    (hkept : ∀ sub ∈ s.subscriptions, sub.index ∉ taken → s.hasIndex sub.index = true →
      s'.hasIndex sub.index = true) :
    s'.Kept (gone ++ taken) where
  houses := hhouses
  known := by
    intro id hid
    rcases List.mem_append.1 hid with hid | hid
    · exact Nat.le_trans (h.known id hid) hnumbered
    · exact Nat.le_trans (htaken id hid) hnumbered
  absent := by
    intro id hid
    rcases List.mem_append.1 hid with hid | hid
    · exact hgone id (h.known id hid) (.inl (h.absent id hid))
    · exact hgone id (htaken id hid) (.inr hid)
  kept := by
    rw [hsubscriptions]
    intro sub hsub hnot
    rw [List.mem_append, not_or] at hnot
    exact hkept sub hsub hnot.2 (h.kept sub hsub hnot.1)

theorem Kept.append_nil (h : s.Kept gone) : s.Kept (gone ++ []) :=
  (List.append_nil gone).symm ▸ h

theorem Kept.same (h : s.Kept gone) (hsame : Same s s') : s'.Kept gone where
  houses := (h.houses.same hsame).houses
  known := hsame.numbered ▸ h.known
  absent := fun id hid => (hasIndex_congr hsame.ids id).trans (h.absent id hid)
  kept := by
    rw [hsame.subscriptions]
    exact fun sub hsub hnot => (hasIndex_congr hsame.ids _).trans (h.kept sub hsub hnot)

/-- A definition takes the earlier view of its name away, and nothing else. -/
theorem Kept.defineView (h : s.Kept gone) (name : String) (map : MapFunction)
    (reduce : Option ReduceFunction) :
    (s.defineView name map reduce).2.Kept (gone ++ (s.names.lookup name).toList) := by
  have hspares := h.houses.defineView name map reduce
  have hview := fun (id : IndexId) (hid : id.number ≤ s.numbered) =>
    view?_defineView_of_ne (ne_nextId hid) name map reduce
  refine h.of_hasIndex hspares.houses hspares.numbered ?_ ?_ ?_ ?_
  · exact (later_defineView s name map reduce).subscriptions
  · intro id hid
    obtain ⟨earlier, later, heq, -⟩ := List.lookup_eq_some_iff.1 (Option.mem_toList.1 hid)
    exact (h.houses.names (name, id) (by simp [heq])).1
  · intro id hid hcase
    rw [hasIndex, hview id hid]
    split
    next => rfl
    next hother => exact hcase.resolve_right fun hmem => hother (Option.mem_toList.1 hmem)
  · intro sub hsub hnot hhas
    rw [hasIndex, hview _ (h.houses.subscriptions sub hsub).1,
      if_neg fun hold => hnot (Option.mem_toList.2 hold)]
    exact hhas

theorem Kept.createEphemeral (h : s.Kept gone) (map : MapFunction) :
    (s.createEphemeral map).2.Kept gone := by
  obtain ⟨hspares, -, -⟩ := h.houses.createEphemeral map
  have hthere : ∀ id : IndexId, id.number ≤ s.numbered →
      (s.createEphemeral map).2.hasIndex id = s.hasIndex id :=
    fun id hid => hasIndex_addView_of_ne (ne_nextId hid) map none
  rw [← List.append_nil gone]
  refine h.of_hasIndex hspares.houses hspares.numbered rfl nofun ?_ ?_
  · rintro id hid (hnone | hnot)
    · exact (hthere id hid).trans hnone
    · cases hnot
  · exact fun sub hsub _ hhas => (hthere _ (h.houses.subscriptions sub hsub).1).trans hhas

/-- An index with subscribers is not deleted. -/
theorem not_subscribed_of_deleteIndex {index : Descriptor}
    (hdelete : s.deleteIndex index = .ok s') :
    s'.subscriptions = s.subscriptions ∧ (∀ sub ∈ s.subscriptions, sub.index ≠ index.id) ∧
      s'.hasIndex index.id = false := by
  have hremoved : (s.removeView index.id).hasIndex index.id = false := by
    rw [hasIndex, view?_removeView_self]
    rfl
  obtain ⟨-, hunused, ⟨name, -, -, rfl⟩ | ⟨-, rfl⟩⟩ := deleteIndex_eq_ok hdelete
  · exact ⟨rfl, hunused, hremoved⟩
  · exact ⟨rfl, hunused, hremoved⟩

theorem Kept.deleteIndex (h : s.Kept gone) {index : Descriptor}
    (hdelete : s.deleteIndex index = .ok s') : s'.Kept gone := by
  obtain ⟨hhouses, hothers⟩ := h.houses.deleteIndex hdelete
  obtain ⟨hsubscriptions, hunused, hremoved⟩ := not_subscribed_of_deleteIndex hdelete
  rw [← List.append_nil gone]
  refine h.of_hasIndex hhouses (later_deleteIndex hdelete).numbered hsubscriptions nofun ?_ ?_
  · rintro id - (hnone | hnot)
    · by_cases heq : id = index.id
      · rwa [heq]
      · rwa [hothers id heq]
    · cases hnot
  · intro sub hsub _ hhas
    rwa [hothers _ (hunused sub hsub)]

/-- Only to an index that is there can one subscribe. -/
theorem Kept.subscribe (h : s.Kept gone) {index : Descriptor} {observer : Observer} {token : Token}
    (hsubscribe : s.subscribe index observer = .ok (token, s')) : s'.Kept gone := by
  have hspares := h.houses.subscribe (fun _ _ => List.not_mem_nil) hsubscribe
  obtain ⟨hthere, -, rfl⟩ := subscribe_eq_ok hsubscribe
  refine ⟨hspares.houses, h.known, h.absent, fun sub hsub hnot => ?_⟩
  rcases List.mem_append.1 hsub with hold | hnew
  · exact h.kept sub hold hnot
  · rw [List.mem_singleton.1 hnew]
    exact hthere

theorem Kept.unsubscribe (h : s.Kept gone) (token : Token) : (s.unsubscribe token).Kept gone where
  houses := (h.houses.unsubscribe token).houses
  known := h.known
  absent := h.absent
  kept := fun sub hsub => h.kept sub (List.mem_filter.1 hsub).1

/-- A command takes away from under its subscribers just the index it displaces. -/
theorem Kept.perform (h : s.Kept gone) (command : Command) :
    (s.perform command).Kept (gone ++ (command.displaces? s).toList) := by
  cases command with
  | defineView name map reduce => exact h.defineView name map reduce
  | put id body => exact h.append_nil.same (same_written s id (putEdit id body))
  | delete id => exact h.append_nil.same (same_written s id (deleteEdit id))
  | addConflict id rev => exact h.append_nil.same (same_written s id (conflictEdit id rev))
  | resolveConflicts id => exact h.append_nil.same (same_written s id (resolveEdit id))
  | createEphemeral map => exact h.append_nil.createEphemeral map
  | unsubscribe token => exact h.append_nil.unsubscribe token
  | scan request => exact h.append_nil.same (same_scan s request)
  | deleteIndex index =>
    rw [Store.perform]
    split
    next hdelete => exact h.append_nil.deleteIndex hdelete
    next => exact h.append_nil
  | subscribe index observer =>
    rw [Store.perform]
    split
    next hsubscribe => exact h.append_nil.subscribe hsubscribe
    next => exact h.append_nil

/-! ## Histories -/

theorem Kept.run (h : s.Kept gone) (history : List Command) :
    (history.foldl Store.perform s).Kept (gone ++ s.displaced history) := by
  induction history generalizing s gone with
  | nil =>
    rw [displaced, List.append_nil]
    exact h
  | cons command rest ih =>
    -- What the first command displaces stays gone, so it joins those that were gone before.
    rw [displaced, ← List.append_assoc]
    exact ih (h.perform command)

theorem kept_after (numbered : Nat) (history : List Command) :
    (after numbered history).Kept ((empty numbered).displaced history) :=
  (kept_empty numbered).run history

/-- Exactly the subscriptions to indexes that were not displaced have their index, and exactly their
observers are told of the next write. -/
theorem audience_eq_undisplaced (numbered : Nat) (history : List Command) :
    (∀ sub ∈ (after numbered history).subscriptions,
      (after numbered history).hasIndex sub.index = true ↔
        sub.index ∉ (empty numbered).displaced history) ∧
    ∀ id edit written doc, (after numbered history).write id edit = .ok (written, doc) →
      written.audience =
        ((after numbered history).subscriptions.filter fun sub =>
          decide (sub.index ∉ (empty numbered).displaced history)).map Subscription.observer := by
  have hkept := kept_after numbered history
  have hthere : ∀ sub ∈ (after numbered history).subscriptions,
      ((after numbered history).hasIndex sub.index = true ↔
        sub.index ∉ (empty numbered).displaced history) := by
    refine fun sub hsub => ⟨fun hhas hgone => ?_, hkept.kept sub hsub⟩
    rw [hkept.absent _ hgone] at hhas
    cases hhas
  refine ⟨hthere, fun id edit written doc hwrite => ?_⟩
  have hsame := same_write hwrite
  rw [audience, hsame.subscriptions]
  congr 1
  refine List.filter_congr fun sub hsub => ?_
  rw [hasIndex_congr hsame.ids, Bool.eq_iff_iff, decide_eq_true_iff]
  exact hthere sub hsub

/-- A client subscribes to two views, and one of the two is defined anew. -/
def redefined : List Command :=
  [.defineView "v" bodyById none, .defineView "w" bodyById none,
   .subscribe ⟨⟨1⟩, some "v", false⟩ (.client 7), .subscribe ⟨⟨2⟩, some "w", false⟩ (.client 8),
   .defineView "v" bodyById none]

/-- The subscriber to the other view is told of the next write, alone. -/
theorem audience_after_redefinition :
    ∃ written doc, (after 0 redefined).write "a" (putEdit "a" .null) = .ok (written, doc) ∧
      written.audience = [.client 8] :=
  ⟨_, _, rfl, (audience_eq_undisplaced 0 redefined).2 "a" (putEdit "a" .null) _ _ rfl⟩

/-- The subscription to the view that was defined anew is registered still; its index is gone, and
the next write succeeds without its observer being told. -/
theorem orphaned_by_redefinition :
    ∃ sub ∈ (after 0 redefined).subscriptions, (after 0 redefined).hasIndex sub.index = false ∧
      ∃ written doc, (after 0 redefined).write "a" (putEdit "a" .null) = .ok (written, doc) ∧
        sub.observer ∉ written.audience :=
  ⟨⟨⟨1⟩, ⟨1⟩, .client 7⟩, List.mem_cons_self, rfl, _, _, rfl, by decide⟩

end Store

end Viewbase
