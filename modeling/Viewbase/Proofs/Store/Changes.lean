import Viewbase.Proofs.Store.Reflection
import Viewbase.Store.Write

/-!
The documents in order, and the log of their changes.

Main statements: the documents that a log names after a generation are found among all documents in
their order (`liveAmong_eq_filter`), and forgetting changes that every built view has taken in loses
nothing that such a view still needs (`changedAfter_prune`).
-/

namespace Viewbase

/-! ## Documents in order -/

namespace Document

/-- One document stands before another. -/
def Before (a b : Document) : Prop :=
  Text.order a.id b.id = .lt

theorem Before.irrefl {a b : Document} (hab : a.Before b) (hba : b.Before a) : False := by
  rw [Before, ← Text.order_swap, hab] at hba
  cases hba

theorem Before.ne {a b : Document} (h : a.Before b) : a ≠ b := by
  rintro rfl
  exact h.irrefl h

theorem Before.trans {a b c : Document} (hab : a.Before b) (hbc : b.Before c) : a.Before c :=
  Text.order_lt_trans hab hbc

/-- Documents in order are determined by which documents they are. -/
theorem eq_of_mem_iff {as bs : List Document} (has : as.Pairwise Before)
    (hbs : bs.Pairwise Before) (h : ∀ doc, doc ∈ as ↔ doc ∈ bs) : as = bs := by
  have hperm : as.Perm bs :=
    (List.perm_ext_iff_of_nodup (has.imp Before.ne) (hbs.imp Before.ne)).2 h
  exact hperm.eq_of_pairwise (fun a b _ _ hab hba => (hab.irrefl hba).elim) has hbs

/-- In order, a document is found by its id. -/
theorem find?_of_mem {documents : List Document} (h : documents.Pairwise Before) {doc : Document}
    (hmem : doc ∈ documents) : documents.find? (fun other => other.id == doc.id) = some doc := by
  induction documents with
  | nil => simp at hmem
  | cons head rest ih =>
    obtain ⟨hhead, hrest⟩ := List.pairwise_cons.1 h
    rcases List.mem_cons.1 hmem with rfl | hmem
    · simp
    · have hne : head.id ≠ doc.id := by
        intro heq
        have hbefore := hhead doc hmem
        rw [Before, heq, Text.order_eq_eq.2 rfl] at hbefore
        cases hbefore
      rw [List.find?_cons_of_neg (by simpa using hne), ih hrest hmem]

end Document

namespace Store

theorem mem_placeDocument {doc other : Document} {documents : List Document}
    (h : other ∈ placeDocument doc documents) : other = doc ∨ other ∈ documents := by
  induction documents with
  | nil => simpa [placeDocument] using h
  | cons head rest ih =>
    rw [placeDocument] at h
    split at h
    · simpa using h
    · rcases List.mem_cons.1 h with rfl | h
      · exact .inl rfl
      · exact .inr (List.mem_cons_of_mem _ h)
    · rcases List.mem_cons.1 h with rfl | h
      · exact .inr List.mem_cons_self
      · exact (ih h).imp_right (List.mem_cons_of_mem _)

theorem pairwise_placeDocument (doc : Document) {documents : List Document}
    (h : documents.Pairwise Document.Before) :
    (placeDocument doc documents).Pairwise Document.Before := by
  induction documents with
  | nil => exact List.pairwise_singleton _ _
  | cons head rest ih =>
    obtain ⟨hhead, hrest⟩ := List.pairwise_cons.1 h
    rw [placeDocument]
    split
    next hlt =>
      refine .cons (fun other hother => ?_) h
      rcases List.mem_cons.1 hother with rfl | hother
      · exact hlt
      · exact Document.Before.trans hlt (hhead other hother)
    next heq =>
      refine .cons (fun other hother => ?_) hrest
      rw [Document.Before, Text.order_eq_eq.1 heq]
      exact hhead other hother
    next hgt =>
      refine .cons (fun other hother => ?_) (ih hrest)
      rcases mem_placeDocument hother with rfl | hother
      · rw [Document.Before, ← Text.order_swap, hgt]
        rfl
      · exact hhead other hother

/-- Placing a document leaves those of other ids alone. -/
theorem named_placeDocument {doc : Document} {id : String} (hne : doc.id ≠ id)
    (documents : List Document) :
    Document.named id (placeDocument doc documents) = Document.named id documents := by
  induction documents with
  | nil => simp [placeDocument, Document.named, hne]
  | cons other rest ih =>
    rw [placeDocument]
    split
    · rw [Document.named_cons, if_neg hne]
    next h =>
      rw [Document.named_cons, if_neg hne, Document.named_cons,
        if_neg (Text.order_eq_eq.1 h ▸ hne)]
    · rw [Document.named_cons, Document.named_cons, ih]

/-! ## The log -/

theorem mem_insertId {id other : String} {ids : List String} :
    other ∈ changedAfter.insertId id ids ↔ other = id ∨ other ∈ ids := by
  induction ids with
  | nil => simp [changedAfter.insertId]
  | cons head rest ih =>
    rw [changedAfter.insertId]
    split
    · simp
    next h => simp [Text.order_eq_eq.1 h]
    · simp only [List.mem_cons, ih]
      exact or_left_comm

theorem pairwise_insertId (id : String) {ids : List String}
    (h : ids.Pairwise fun a b => Text.order a b = .lt) :
    (changedAfter.insertId id ids).Pairwise fun a b => Text.order a b = .lt := by
  induction ids with
  | nil => exact List.pairwise_singleton _ _
  | cons head rest ih =>
    obtain ⟨hhead, hrest⟩ := List.pairwise_cons.1 h
    rw [changedAfter.insertId]
    split
    next hlt =>
      refine .cons (fun other hother => ?_) h
      rcases List.mem_cons.1 hother with rfl | hother
      · exact hlt
      · exact Text.order_lt_trans hlt (hhead other hother)
    · exact h
    next hgt =>
      refine .cons (fun other hother => ?_) (ih hrest)
      rcases mem_insertId.1 hother with rfl | hother
      · rw [← Text.order_swap, hgt]
        rfl
      · exact hhead other hother

/-- The documents that changed after a generation are those that the log names after it. -/
theorem mem_changedAfter {s : Store} {generation : Nat} {id : String} :
    id ∈ s.changedAfter generation ↔ ∃ change ∈ s.log, generation < change.1 ∧ change.2 = id := by
  have hfold : ∀ (changes : List (Nat × String)) (ids : List String),
      id ∈ changes.foldl (fun ids change => changedAfter.insertId change.2 ids) ids ↔
        id ∈ ids ∨ ∃ change ∈ changes, change.2 = id := by
    intro changes
    induction changes with
    | nil => simp
    | cons change rest ih =>
      intro ids
      rw [List.foldl_cons, ih, mem_insertId, or_assoc, or_left_comm, @eq_comm _ id]
      simp only [List.mem_cons, or_and_right, exists_or, exists_eq_left]
  rw [changedAfter, hfold]
  simp [and_assoc]

theorem pairwise_changedAfter (s : Store) (generation : Nat) :
    (s.changedAfter generation).Pairwise fun a b => Text.order a b = .lt := by
  have hfold : ∀ (changes : List (Nat × String)) {ids : List String},
      ids.Pairwise (fun a b => Text.order a b = .lt) →
      (changes.foldl (fun ids change => changedAfter.insertId change.2 ids) ids).Pairwise
        fun a b => Text.order a b = .lt := by
    intro changes
    induction changes with
    | nil => exact fun h => h
    | cons change rest ih => exact fun h => ih (pairwise_insertId change.2 h)
  exact hfold _ .nil

/-- No built view reflects a generation below the floor. -/
theorem indexedFloor_le {s : Store} {view : View} {generation : Nat} (hmem : view ∈ s.views)
    (hindexed : view.indexed = some generation) : s.indexedFloor ≤ generation := by
  have hfold : ∀ (rest : List Nat) (first : Nat), rest.foldl Nat.min first ≤ first ∧
      ∀ g ∈ rest, rest.foldl Nat.min first ≤ g := by
    intro rest
    induction rest with
    | nil => simp
    | cons g rest ih =>
      intro first
      obtain ⟨hfirst, hrest⟩ := ih (Nat.min first g)
      refine ⟨Nat.le_trans hfirst (Nat.min_le_left ..), fun other hother => ?_⟩
      rcases List.mem_cons.1 hother with rfl | hother
      · exact Nat.le_trans hfirst (Nat.min_le_right ..)
      · exact hrest other hother
  have hgeneration : generation ∈ s.views.filterMap View.indexed :=
    List.mem_filterMap.2 ⟨view, hmem, hindexed⟩
  rw [indexedFloor]
  cases hbuilt : s.views.filterMap View.indexed with
  | nil => simp [hbuilt] at hgeneration
  | cons first rest =>
    rw [hbuilt] at hgeneration
    rcases List.mem_cons.1 hgeneration with rfl | hgeneration
    · exact (hfold rest generation).1
    · exact (hfold rest first).2 generation hgeneration

/-- The changes that a view of a generation has yet to take in. -/
def due (s : Store) (generation : Nat) : List (Nat × String) :=
  s.log.filter fun change => decide (generation < change.1)

/-- What a built view has yet to take in stays in the log. -/
theorem due_prune {s : Store} {view : View} {generation : Nat} (hmem : view ∈ s.views)
    (hindexed : view.indexed = some generation) : s.prune.due generation = s.due generation := by
  have hfloor := indexedFloor_le hmem hindexed
  rw [due, due, prune, List.filter_filter]
  refine List.filter_congr fun change _ => ?_
  rw [Bool.and_eq_left_iff_imp]
  simp only [decide_eq_true_eq]
  omega

theorem changedAfter_congr {s s' : Store} {generation : Nat}
    (h : s'.due generation = s.due generation) :
    s'.changedAfter generation = s.changedAfter generation := by
  rw [due, due] at h
  rw [changedAfter, changedAfter, h]

theorem changedAfter_prune {s : Store} {view : View} {generation : Nat} (hmem : view ∈ s.views)
    (hindexed : view.indexed = some generation) :
    s.prune.changedAfter generation = s.changedAfter generation :=
  changedAfter_congr (due_prune hmem hindexed)

/-! ## Documents by id -/

/-- The living documents among ids in order are those of all documents, in their order. -/
theorem liveAmong_eq_filter {s : Store} (hsorted : s.documents.Pairwise Document.Before)
    {ids : List String} (hids : ids.Pairwise fun a b => Text.order a b = .lt) :
    s.liveAmong ids =
      (Document.living s.documents).filter fun doc => ids.contains doc.id := by
  have hid : ∀ {id : String} {doc : Document}, s.document? id = some doc → doc.id = id := by
    intro id doc h
    simpa using List.find?_some h
  apply Document.eq_of_mem_iff
  · apply List.Pairwise.filter
    rw [List.pairwise_filterMap]
    refine hids.imp fun {a b} hab doc hdoc other hother => ?_
    rw [Document.Before, hid hdoc, hid hother]
    exact hab
  · exact (hsorted.filter _).filter _
  · intro doc
    rw [liveAmong, List.mem_filter, List.mem_filterMap, List.mem_filter, Document.mem_living]
    constructor
    · rintro ⟨⟨id, hmem, hdoc⟩, hlive⟩
      refine ⟨⟨List.mem_of_find?_eq_some hdoc, by simpa using hlive⟩, ?_⟩
      rw [hid hdoc]
      simpa using hmem
    · rintro ⟨⟨hmem, hlive⟩, hcontains⟩
      exact ⟨⟨doc.id, by simpa using hcontains, Document.find?_of_mem hsorted hmem⟩,
        by simpa using hlive⟩

/-- Among the ids of all documents all living documents are found. -/
theorem liveAmong_all {s : Store} (hsorted : s.documents.Pairwise Document.Before) :
    s.liveAmong (s.documents.map Document.id) = Document.living s.documents := by
  rw [liveAmong_eq_filter hsorted (List.pairwise_map.2 hsorted)]
  refine List.filter_eq_self.2 fun doc hdoc => ?_
  simpa using ⟨doc, (Document.mem_living.1 hdoc).1, rfl⟩

end Store

end Viewbase
