import Viewbase.Proofs.Store.Stable

/-!
Views that reflect documents.

A view reflects documents if its rows are what these documents emit, in order.  Main statements:
which documents the map function crashes on decides whether documents can be taken in
(`emitAll_eq`, `absorb_error?`), and taking documents in puts what they emit behind the rows that
are there, position by position (`rowsAt_absorb`).
-/

namespace Viewbase

open Entry (rowsAt)

namespace Document

/-- The documents of one id. -/
def named (id : String) (documents : List Document) : List Document :=
  documents.filter fun doc => doc.id == id

theorem named_cons (id : String) (doc : Document) (rest : List Document) :
    named id (doc :: rest) = if doc.id = id then doc :: named id rest else named id rest := by
  simp [named, List.filter_cons]

theorem named_filter (chosen : String → Bool) (id : String) (documents : List Document) :
    named id (documents.filter fun doc => chosen doc.id) =
      if chosen id then named id documents else [] := by
  induction documents with
  | nil => simp [named]
  | cons doc rest ih =>
    by_cases h : doc.id = id
    · subst h
      cases hchosen : chosen doc.id <;> simp_all [named_cons]
    · cases hchosen : chosen doc.id <;> simp_all [named_cons]

theorem living_named (id : String) (documents : List Document) :
    living (named id documents) = named id (living documents) := by
  rw [living, named, List.filter_filter, named, living, List.filter_filter]
  exact List.filter_congr fun doc _ => Bool.and_comm ..

theorem mem_living {doc : Document} {documents : List Document} :
    doc ∈ living documents ↔ doc ∈ documents ∧ doc.deleted = false := by
  simp [living]

theorem mem_named {doc : Document} {id : String} {documents : List Document} :
    doc ∈ named id documents ↔ doc ∈ documents ∧ doc.id = id := by
  simp [named]

end Document

namespace View

/-- Two states of one view: they may differ in their rows and in the generation of these. -/
structure Alike (view view' : View) : Prop where
  descriptor : view.descriptor = view'.descriptor
  map : view.map = view'.map
  reduce : view.reduce = view'.reduce

theorem Alike.refl (view : View) : view.Alike view :=
  ⟨rfl, rfl, rfl⟩

theorem Alike.symm {view view' : View} (h : view.Alike view') : view'.Alike view :=
  ⟨h.descriptor.symm, h.map.symm, h.reduce.symm⟩

theorem Alike.trans {a b c : View} (hab : a.Alike b) (hbc : b.Alike c) : a.Alike c :=
  ⟨hab.descriptor.trans hbc.descriptor, hab.map.trans hbc.map, hab.reduce.trans hbc.reduce⟩

theorem Alike.id {view view' : View} (h : view.Alike view') : view.id = view'.id :=
  congrArg Descriptor.id h.descriptor

/-! ## What documents emit -/

/-- The rows a document emits; none if the map function crashes on it. -/
def rowsOf (view : View) (doc : Document) : List Entry :=
  ((view.map doc).getD []).map fun (key, value) => ⟨key, doc.id, value⟩

/-- The first document that the map function crashes on. -/
def crash? (view : View) (documents : List Document) : Option Document :=
  documents.find? fun doc => (view.map doc).isNone

/-- The error for a document that the map function crashes on. -/
def crashed (view : View) (doc : Document) : IndexError :=
  .scan (.mapCrashed view.descriptor doc.id)

theorem docId_of_mem_rowsOf {view : View} {doc : Document} {entry : Entry}
    (h : entry ∈ view.rowsOf doc) : entry.docId = doc.id := by
  obtain ⟨pair, -, rfl⟩ := List.mem_map.1 h
  rfl

theorem Alike.rowsOf {view view' : View} (h : view.Alike view') : view.rowsOf = view'.rowsOf := by
  funext doc
  rw [View.rowsOf, View.rowsOf, h.map]

theorem Alike.crash? {view view' : View} (h : view.Alike view') : view.crash? = view'.crash? := by
  funext documents
  rw [View.crash?, View.crash?, h.map]

theorem Alike.crashed {view view' : View} (h : view.Alike view') :
    view.crashed = view'.crashed := by
  funext doc
  rw [View.crashed, View.crashed, h.descriptor]

theorem crash?_cons_of_none {view : View} {doc : Document} (h : view.map doc = none)
    (rest : List Document) : view.crash? (doc :: rest) = some doc :=
  List.find?_cons_of_pos (by simp [h])

theorem crash?_cons_of_some {view : View} {doc : Document} {emitted : List (Key × Json)}
    (h : view.map doc = some emitted) (rest : List Document) :
    view.crash? (doc :: rest) = view.crash? rest :=
  List.find?_cons_of_neg (by simp [h])

theorem crash?_eq_none {view : View} {documents : List Document} :
    view.crash? documents = none ↔ ∀ doc ∈ documents, view.map doc ≠ none := by
  simp [crash?]

/-- Leaving out documents that the map function does not crash on does not change which one it
crashes on first. -/
theorem crash?_filter {view : View} {chosen : Document → Bool} {documents : List Document}
    (h : ∀ doc ∈ documents, ¬chosen doc → view.map doc ≠ none) :
    view.crash? (documents.filter chosen) = view.crash? documents := by
  induction documents with
  | nil => rfl
  | cons doc rest ih =>
    obtain ⟨hdoc, hrest⟩ := List.forall_mem_cons.1 h
    rw [List.filter_cons]
    split
    · rw [crash?, crash?, List.find?_cons, List.find?_cons]
      split
      · rfl
      · exact ih hrest
    next hout =>
      obtain ⟨emitted, hemitted⟩ := Option.ne_none_iff_exists'.1 (hdoc hout)
      rw [crash?_cons_of_some hemitted, ih hrest]

/-- Documents are emitted unless the map function crashes on one of them. -/
theorem emitAll_eq (view : View) (documents : List Document) :
    view.emitAll documents =
      match view.crash? documents with
      | some doc => .error (view.crashed doc)
      | none => .ok (documents.flatMap view.rowsOf) := by
  induction documents with
  | nil => rfl
  | cons doc rest ih =>
    rw [emitAll]
    cases hmap : view.map doc with
    | none =>
      rw [crash?_cons_of_none hmap]
      rfl
    | some emitted =>
      rw [crash?_cons_of_some hmap, ih]
      cases view.crash? rest with
      | some doc => rfl
      | none => simp [rowsOf, hmap]

theorem Alike.emitAll {view view' : View} (h : view.Alike view') :
    view.emitAll = view'.emitAll := by
  funext documents
  rw [emitAll_eq, emitAll_eq, h.crash?, h.crashed, h.rowsOf]

/-! ## Taking documents in -/

theorem rowsAt_insertAll (position : Position) (tree : Tree) (docId : String)
    (emitted : List (Key × Json)) :
    rowsAt position (tree.insertAll docId emitted).entries =
      rowsAt position (tree.entries ++ emitted.map fun (key, value) => ⟨key, docId, value⟩) := by
  rw [Tree.insertAll]
  induction emitted generalizing tree with
  | nil => simp
  | cons pair rest ih =>
    rw [List.foldl_cons, ih, Entry.rowsAt_append, Tree.entries_insert,
      Entry.rowsAt_place position _ tree.sorted_entries, ← Entry.rowsAt_append]
    simp

theorem alike_absorb (view : View) (documents : List Document) :
    (view.absorb documents).1.Alike view := by
  induction documents generalizing view with
  | nil => exact .refl view
  | cons doc rest ih =>
    rw [absorb]
    split
    · exact .refl view
    · exact (ih _).trans ⟨rfl, rfl, rfl⟩

theorem indexed_absorb (view : View) (documents : List Document) :
    (view.absorb documents).1.indexed = view.indexed := by
  induction documents generalizing view with
  | nil => rfl
  | cons doc rest ih =>
    rw [absorb]
    split
    · rfl
    · exact ih _

/-- Taking documents in fails for the first document that the map function crashes on. -/
theorem absorb_error? (view : View) (documents : List Document) :
    (view.absorb documents).2 = (view.crash? documents).map view.crashed := by
  induction documents generalizing view with
  | nil => rfl
  | cons doc rest ih =>
    rw [absorb]
    split
    next hmap =>
      rw [crash?_cons_of_none hmap]
      rfl
    next emitted hmap =>
      rw [crash?_cons_of_some hmap, ih]
      rfl

/-- What documents emit goes behind the rows that are there, position by position. -/
theorem rowsAt_absorb (position : Position) {view : View} {documents : List Document}
    (h : view.crash? documents = none) :
    rowsAt position (view.absorb documents).1.tree.entries =
      rowsAt position (view.tree.entries ++ documents.flatMap view.rowsOf) := by
  induction documents generalizing view with
  | nil => simp [absorb]
  | cons doc rest ih =>
    rw [absorb]
    split
    next hmap => simp [crash?_cons_of_none hmap] at h
    next emitted hmap =>
      rw [crash?_cons_of_some hmap] at h
      rw [ih (by exact h), Entry.rowsAt_append, rowsAt_insertAll, ← Entry.rowsAt_append,
        List.flatMap_cons, ← List.append_assoc]
      simp [rowsOf, hmap]
      rfl

/-! ## Taking documents out -/

theorem entries_removeAll (tree : Tree) (ids : List String) :
    (ids.foldl Tree.remove tree).entries =
      tree.entries.filter fun entry => !ids.contains entry.docId := by
  induction ids generalizing tree with
  | nil => exact (List.filter_eq_self.2 fun _ _ => rfl).symm
  | cons id rest ih =>
    rw [List.foldl_cons, ih, Tree.entries_remove, List.filter_filter]
    refine List.filter_congr fun entry _ => ?_
    rw [List.contains_cons, Bool.not_or, Bool.and_comm]
    rfl

theorem indexed_withdraw (view : View) (changed : Option (List String)) :
    (view.withdraw changed).indexed = none := by
  cases changed <;> rfl

theorem alike_withdraw (view : View) (changed : Option (List String)) :
    (view.withdraw changed).Alike view := by
  cases changed <;> exact ⟨rfl, rfl, rfl⟩

/-! ## Reflection -/

/-- The rows of a view are what documents emit, in order. -/
def Reflects (view : View) (documents : List Document) : Prop :=
  view.emitAll (Document.living documents) =
      .ok ((Document.living documents).flatMap view.rowsOf) ∧
    view.tree.entries =
      Entry.ascending ((Document.living documents).flatMap view.rowsOf)

/-- A view reflects documents if none of them crashes the map function and at each position stands
what they emit there. -/
theorem reflects_iff {view : View} {documents : List Document} :
    view.Reflects documents ↔
      view.crash? (Document.living documents) = none ∧
        ∀ position, rowsAt position view.tree.entries =
          rowsAt position ((Document.living documents).flatMap view.rowsOf) := by
  rw [Reflects, emitAll_eq]
  constructor
  · rintro ⟨hemit, hrows⟩
    refine ⟨?_, fun position => ?_⟩
    · cases hcrash : view.crash? (Document.living documents) with
      | none => rfl
      | some doc => simp [hcrash] at hemit
    · rw [hrows, Entry.rowsAt_ascending]
  · rintro ⟨hcrash, hrows⟩
    refine ⟨by rw [hcrash], ?_⟩
    apply Entry.eq_of_rowsAt_eq view.tree.sorted_entries (Entry.pairwise_ascending _)
    intro position
    rw [hrows, Entry.rowsAt_ascending]

/-- What stands at a position comes from the document that it names. -/
theorem rowsAt_flatMap_rowsOf (view : View) (position : Position) (documents : List Document) :
    rowsAt position (documents.flatMap view.rowsOf) =
      rowsAt position ((Document.named position.docId documents).flatMap view.rowsOf) := by
  induction documents with
  | nil => rfl
  | cons doc rest ih =>
    rw [List.flatMap_cons, Entry.rowsAt_append, ih, Document.named_cons]
    by_cases h : doc.id = position.docId
    · rw [if_pos h, List.flatMap_cons, Entry.rowsAt_append]
    · rw [if_neg h, Entry.rowsAt_eq_nil]
      · rfl
      · intro entry hentry heq
        exact h (by rw [← docId_of_mem_rowsOf hentry, ← heq]; rfl)

end View

end Viewbase
