import Viewbase.Proofs.Store.Stable

/-!
What the tree of an index holds after any edits.

A row stands as long as no later edit takes it out, so the standing rows are a list that is read off
the edits alone, without keys, buckets or an order.  Main statement: whichever way the tree is asked
afterwards, it answers as the stable sort of the standing rows would, and taking one document out
leaves the rows of all others as they are (`after_lists`).
-/

namespace Viewbase

namespace Entry

theorem ascending_nil : ascending [] = [] :=
  List.mergeSort_nil

/-- A choice that goes by position may be made before or after sorting. -/
theorem filter_ascending (chosen : Position → Bool) (rows : List Entry) :
    (ascending rows).filter (fun entry => chosen entry.position) =
      ascending (rows.filter fun entry => chosen entry.position) := by
  apply eq_of_rowsAt_eq ((pairwise_ascending rows).filter _) (pairwise_ascending _)
  intro position
  rw [rowsAt_filter, rowsAt_ascending, rowsAt_ascending, rowsAt_filter]

end Entry

namespace Tree

/-- The ways to change a tree. -/
inductive Edit where
  | insert (entry : Entry)
  | remove (docId : String)
  | clear

namespace Edit

def apply (tree : Tree) : Edit → Tree
  | insert entry => tree.insert entry
  | remove docId => tree.remove docId
  | clear => empty

/-- Whether an edit takes a row out that is there. -/
def takes (entry : Entry) : Edit → Bool
  | insert _ => false
  | remove docId => entry.docId == docId
  | clear => true

/-- The rows inserted that no later edit takes out, in the order of insertion. -/
def standing : List Edit → List Entry
  | [] => []
  | insert entry :: later =>
    if later.any (takes entry) then standing later else entry :: standing later
  | remove _ :: later => standing later
  | clear :: later => standing later

/-- Of what stood before, later edits leave what none of them takes out; what they insert themselves
comes behind. -/
theorem standing_append (edits later : List Edit) :
    standing (edits ++ later) =
      ((standing edits).filter fun entry => !later.any (takes entry)) ++ standing later := by
  induction edits with
  | nil => rfl
  | cons edit edits ih =>
    cases edit with
    | insert entry =>
      simp only [List.cons_append, standing, ih, List.any_append, Bool.or_eq_true]
      by_cases hsoon : edits.any (takes entry) = true
      · simp [hsoon]
      · by_cases hlater : later.any (takes entry) = true
        · simp [hsoon, hlater]
        · simp [hsoon, hlater]
    | remove docId => exact ih
    | clear => exact ih

/-- A last edit takes out what it takes, and an insertion puts its row behind all others. -/
theorem standing_append_single (edits : List Edit) (edit : Edit) :
    standing (edits ++ [edit]) =
      match edit with
      | insert entry => standing edits ++ [entry]
      | remove docId => (standing edits).filter fun entry => entry.docId != docId
      | clear => [] := by
  rw [standing_append]
  cases edit with
  | insert entry => simp [standing, takes]
  | remove docId => simp [standing, takes, bne]
  | clear => simp [standing, takes]

end Edit

/-- The tree after edits, the first of them first. -/
def after (edits : List Edit) : Tree :=
  edits.foldl Edit.apply empty

/-- Inserting a row into sorted rows is sorting it in behind the others. -/
theorem entries_insert_ascending {tree : Tree} {rows : List Entry}
    (h : tree.entries = Entry.ascending rows) (entry : Entry) :
    (tree.insert entry).entries = Entry.ascending (rows ++ [entry]) := by
  apply Entry.eq_of_rowsAt_eq (tree.insert entry).sorted_entries (Entry.pairwise_ascending _)
  intro position
  rw [entries_insert, Entry.rowsAt_place position entry tree.sorted_entries, h, Entry.rowsAt_append,
    Entry.rowsAt_ascending, Entry.rowsAt_ascending, Entry.rowsAt_append]

/-- One more edit keeps the tree at the sorted standing rows. -/
theorem entries_apply {tree : Tree} {past : List Edit}
    (h : tree.entries = Entry.ascending (Edit.standing past)) (edit : Edit) :
    (edit.apply tree).entries = Entry.ascending (Edit.standing (past ++ [edit])) := by
  rw [Edit.standing_append_single]
  cases edit with
  | insert entry => exact entries_insert_ascending h entry
  | remove docId =>
    rw [Edit.apply, entries_remove, h]
    exact Entry.filter_ascending (fun position => position.docId != docId) _
  | clear => exact Entry.ascending_nil.symm

/-- Edits take a tree from the sorted standing rows of the past to those of the past and the edits. -/
theorem entries_foldl {tree : Tree} {past : List Edit}
    (h : tree.entries = Entry.ascending (Edit.standing past)) (edits : List Edit) :
    (edits.foldl Edit.apply tree).entries = Entry.ascending (Edit.standing (past ++ edits)) := by
  induction edits generalizing tree past with
  | nil => rw [List.append_nil]; exact h
  | cons edit edits ih =>
    rw [List.append_cons]
    exact ih (entries_apply h edit)

/-- The rows from the last to the first: the buckets from the back, and each from its back. -/
def backward (tree : Tree) : List Entry :=
  tree.buckets.reverse.flatMap fun bucket => bucket.entries.reverse

/-- A tree answers as a list of rows does, whichever way it is asked. -/
structure Lists (tree : Tree) (rows : List Entry) : Prop where
  forward : tree.entries = rows
  backward : tree.backward = rows.reverse
  forwardFor : ∀ key, tree.entriesFor key = rows.filter fun entry => entry.key.same key
  backwardFor : ∀ key, View.directed true (tree.entriesFor key) =
    rows.reverse.filter fun entry => entry.key.same key
  rowCount : tree.rowCount = rows.length
  isEmpty : tree.isEmpty = true ↔ rows = []

theorem lists_entries (tree : Tree) : tree.Lists tree.entries where
  forward := rfl
  backward := by rw [Tree.backward, entries, List.reverse_flatMap]; rfl
  forwardFor := tree.entriesFor_eq
  backwardFor key := by rw [View.directed, if_pos rfl, entriesFor_eq, List.filter_reverse]
  rowCount := tree.rowCount_eq
  isEmpty := tree.isEmpty_iff

/-- Under each key, a removal takes back exactly the rows of its document. -/
theorem entriesFor_remove (tree : Tree) (docId : String) (key : Key) :
    (tree.remove docId).entriesFor key =
      (tree.entriesFor key).filter fun entry => entry.docId != docId := by
  rw [entriesFor_eq, entriesFor_eq, entries_remove, List.filter_filter, List.filter_filter]
  exact List.filter_congr fun _ _ => Bool.and_comm ..

/-- After any edits the tree answers as the stable sort of the standing rows; and a removal of one
document leaves every row of another document, in its order, also under a key that both emitted. -/
theorem after_lists (edits : List Edit) :
    (after edits).Lists (Entry.ascending (Edit.standing edits)) ∧
      ∀ docId,
        ((after edits).remove docId).entries =
            (after edits).entries.filter (fun entry => entry.docId != docId) ∧
          ∀ key, ((after edits).remove docId).entriesFor key =
            ((after edits).entriesFor key).filter fun entry => entry.docId != docId := by
  refine ⟨?_, fun docId => ⟨entries_remove _ docId, entriesFor_remove _ docId⟩⟩
  have hentries : (after edits).entries = Entry.ascending (Edit.standing edits) :=
    @entries_foldl empty [] Entry.ascending_nil.symm edits
  rw [← hentries]
  exact lists_entries _

/-- Two documents share a key.  One of them is taken out and emits under the key again: its old rows
are gone, and the row of the other is where it was. -/
example : (after [.insert ⟨.null, "b", .bool true⟩, .insert ⟨.null, "a", .null⟩,
      .insert ⟨.null, "a", .null⟩, .remove "a", .insert ⟨.null, "a", .bool false⟩]).entries =
    [⟨.null, "a", .bool false⟩, ⟨.null, "b", .bool true⟩] :=
  rfl

end Tree

end Viewbase
