import Viewbase.Proofs.Store.Housing

/-!
What definitions and deletions do to the names and the views, look-up by look-up.

A definition points its name at the new view (`lookup_defineView`, `view?_defineView_self`), and a
deletion takes away the view and the name if it led to it (`without_of_deleteIndex`).
-/

namespace Viewbase.Store

variable {s s' : Store}

/-! ## Names -/

theorem lookup_forgetName (s : Store) (name other : String) :
    (s.forgetName name).names.lookup other =
      if other = name then none else s.names.lookup other := by
  rw [forgetName]
  induction s.names with
  | nil => simp
  | cons entry rest ih =>
    obtain ⟨first, id⟩ := entry
    by_cases hfirst : first = name
    · rw [List.filter_cons_of_neg (by simp [hfirst]), ih]
      split
      next => rfl
      next hother => rw [List.lookup_cons, hfirst, beq_false_of_ne hother]
    · rw [List.filter_cons_of_pos (by simp [hfirst]), List.lookup_cons, List.lookup_cons, ih]
      by_cases hother : other = name
      · rw [if_pos hother, if_pos hother, hother, beq_false_of_ne (Ne.symm hfirst)]
      · rw [if_neg hother, if_neg hother]

theorem lookup_defineView (s : Store) (name other : String) (map : MapFunction)
    (reduce : Option ReduceFunction) :
    (s.defineView name map reduce).2.names.lookup other =
      if other = name then some s.nextId else s.names.lookup other := by
  have hnew : [(name, s.nextId)].lookup other = if other = name then some s.nextId else none := by
    split
    next hother => rw [hother, List.lookup_cons_self]
    next hother => rw [List.lookup_cons, beq_false_of_ne hother, List.lookup_nil]
  have happend : ∀ cleared : List (String × IndexId),
      cleared.lookup other = (if other = name then none else s.names.lookup other) →
      (cleared ++ [(name, s.nextId)]).lookup other =
        if other = name then some s.nextId else s.names.lookup other := by
    intro cleared hcleared
    rw [List.lookup_append, hcleared, hnew]
    split <;> simp
  rw [defineView]
  split
  · exact happend _ (lookup_forgetName ..)
  next hnone =>
    refine happend _ ?_
    split
    next hother => rw [hother, hnone]
    next => rfl

/-! ## Deletion -/

/-- The view of an index is gone, and its name if it led to it. -/
structure Without (index : Descriptor) (s s' : Store) : Prop where
  generation : s'.generation = s.generation
  documents : s'.documents = s.documents
  log : s'.log = s.log
  numbered : s'.numbered = s.numbered
  subscriptions : s'.subscriptions = s.subscriptions
  views : ∀ id, s'.view? id = if id = index.id then none else s.view? id
  names : ∀ name, s'.names.lookup name =
    if index.name = some name ∧ s.names.lookup name = some index.id then none
    else s.names.lookup name

theorem without_of_deleteIndex {index : Descriptor} (hdelete : s.deleteIndex index = .ok s') :
    Without index s s' := by
  have hviews : ∀ id, (s.removeView index.id).view? id =
      if id = index.id then none else s.view? id := by
    intro id
    split
    next heq => rw [heq, view?_removeView_self]
    next hne => exact view?_removeView_of_ne hne
  obtain ⟨-, -, ⟨own, hname, hown, rfl⟩ | ⟨hnot, rfl⟩⟩ := deleteIndex_eq_ok hdelete
  · refine ⟨rfl, rfl, rfl, rfl, rfl, hviews, fun name => (lookup_forgetName ..).trans ?_⟩
    rw [hname]
    by_cases hsame : name = own
    · rw [if_pos hsame, if_pos ⟨by rw [hsame], by rw [hsame, hown]⟩]
    · rw [if_neg hsame, if_neg fun h => hsame (Option.some.inj h.1).symm]
      rfl
  · exact ⟨rfl, rfl, rfl, rfl, rfl, hviews, fun name =>
      (if_neg fun h => hnot name h.1 h.2).symm⟩

theorem mem_views_deleteIndex {index : Descriptor} (hdelete : s.deleteIndex index = .ok s')
    {view : View} (hview : view ∈ s'.views) : view ∈ s.views := by
  obtain ⟨-, -, ⟨name, -, -, rfl⟩ | ⟨-, rfl⟩⟩ := deleteIndex_eq_ok hdelete
  · exact (List.mem_filter.1 hview).1
  · exact (List.mem_filter.1 hview).1

/-! ## Definitions -/

theorem log_defineView (s : Store) (name : String) (map : MapFunction)
    (reduce : Option ReduceFunction) : (s.defineView name map reduce).2.log = s.log := by
  simp only [defineView, addView]
  split <;> rfl

theorem numbered_defineView (s : Store) (name : String) (map : MapFunction)
    (reduce : Option ReduceFunction) :
    (s.defineView name map reduce).2.numbered = s.numbered + 1 := by
  simp only [defineView, addView]
  split <;> rfl

/-- The new view is found under its identity, which no other view has. -/
theorem view?_defineView_self (h : s.Houses []) (name : String) (map : MapFunction)
    (reduce : Option ReduceFunction) :
    (s.defineView name map reduce).2.view? s.nextId =
      some (View.unbuilt (Descriptor.named s.nextId name reduce.isSome) map reduce) := by
  have hnew : ∀ views : List View, (∀ view ∈ views, view ∈ s.views) →
      (views ++ [View.unbuilt (Descriptor.named s.nextId name reduce.isSome) map reduce]).find?
        (fun view => decide (view.id = s.nextId)) =
      some (View.unbuilt (Descriptor.named s.nextId name reduce.isSome) map reduce) := by
    intro views hviews
    rw [List.find?_append, List.find?_eq_none.2 ?_, Option.none_or]
    · exact List.find?_cons_of_pos (decide_eq_true rfl)
    · intro view hview
      have hle := h.views view (hviews view hview)
      simpa using ne_nextId hle
  rw [defineView]
  split
  · exact hnew _ fun view hview => (List.mem_filter.1 hview).1
  · exact hnew _ fun view hview => hview

end Viewbase.Store
