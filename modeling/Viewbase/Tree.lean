import Viewbase.Key.Order

/-!
The rows of one index, in the order of an ascending scan.

Rows are ordered by key and then by document id; rows of one document under one key keep the order
in which they were emitted.  The rows of one position share a bucket, and the tree notes the keys
that each document emitted, so that a document can be taken out without a search.
-/

namespace Viewbase

/-- Where rows stand in an index. -/
structure Position where
  key : Key
  docId : String

namespace Position

/-- The order of positions by key and document id. -/
def order (a b : Position) : Ordering :=
  (a.key.order b.key).then (Text.order a.docId b.docId)

theorem order_eq_eq {a b : Position} : a.order b = .eq ↔ a = b := by
  obtain ⟨key, docId⟩ := a
  obtain ⟨key', docId'⟩ := b
  rw [order, Ordering.then_eq_eq, Key.order_eq_eq, Text.order_eq_eq, Position.mk.injEq]

theorem order_swap (a b : Position) : (a.order b).swap = b.order a := by
  rw [order, Ordering.swap_then, Key.order_swap, Text.order_swap, order]

theorem order_lt_trans {a b c : Position} (hab : a.order b = .lt) (hbc : b.order c = .lt) :
    a.order c = .lt := by
  simp only [order, Ordering.then_eq_lt, Key.order_eq_eq] at hab hbc ⊢
  rcases hab with h | ⟨hkey, h⟩ <;> rcases hbc with h' | ⟨hkey', h'⟩
  · exact .inl (Key.order_lt_trans h h')
  · exact .inl (hkey' ▸ h)
  · exact .inl (hkey ▸ h')
  · exact .inr ⟨hkey.trans hkey', Text.order_lt_trans h h'⟩

instance : Std.TransCmp order :=
  transCmp_of_lt_trans order_eq_eq order_swap order_lt_trans

theorem order_eq_gt {a b : Position} : a.order b = .gt ↔ b.order a = .lt := by
  rw [← order_swap b a, Ordering.swap_eq_gt]

end Position

/-- One emitted row. -/
structure Entry where
  key : Key
  docId : String
  value : Json

namespace Entry

def position (entry : Entry) : Position :=
  ⟨entry.key, entry.docId⟩

/-- The order of rows by key and document id. -/
def order (a b : Entry) : Ordering :=
  a.position.order b.position

end Entry

/-- The rows of one position: their values, in the order in which they were emitted. -/
structure Bucket where
  position : Position
  values : List Json

namespace Bucket

def entries (bucket : Bucket) : List Entry :=
  bucket.values.map fun value => ⟨bucket.position.key, bucket.position.docId, value⟩

/-- One bucket stands before another. -/
def Before (a b : Bucket) : Prop :=
  a.position.order b.position = .lt

/-- Put a row behind the other rows of its position, in a bucket of its own if it is the first. -/
def file (entry : Entry) : List Bucket → List Bucket
  | [] => [⟨entry.position, [entry.value]⟩]
  | bucket :: rest =>
    match entry.position.order bucket.position with
    | .lt => ⟨entry.position, [entry.value]⟩ :: bucket :: rest
    | .eq => ⟨bucket.position, bucket.values ++ [entry.value]⟩ :: rest
    | .gt => bucket :: file entry rest

/-- Take the bucket of a position out. -/
def discard (position : Position) (buckets : List Bucket) : List Bucket :=
  buckets.filter fun bucket => bucket.position.order position != .eq

theorem mem_positions_file {entry : Entry} {position : Position} {buckets : List Bucket} :
    position ∈ (file entry buckets).map Bucket.position ↔
      position = entry.position ∨ position ∈ buckets.map Bucket.position := by
  induction buckets with
  | nil => simp [file]
  | cons bucket rest ih =>
    rw [file]
    split
    · simp
    next h => simp [Position.order_eq_eq.1 h]
    · simp only [List.map_cons, List.mem_cons, ih]
      exact or_left_comm

theorem mem_discard {position : Position} {bucket : Bucket} {buckets : List Bucket} :
    bucket ∈ discard position buckets ↔ bucket ∈ buckets ∧ bucket.position ≠ position := by
  simp [discard, Position.order_eq_eq]

theorem pairwise_file (entry : Entry) {buckets : List Bucket} (h : buckets.Pairwise Before) :
    (file entry buckets).Pairwise Before := by
  induction buckets with
  | nil => exact List.pairwise_singleton _ _
  | cons bucket rest ih =>
    obtain ⟨hhead, hrest⟩ := List.pairwise_cons.1 h
    rw [file]
    split
    next hlt =>
      refine .cons (fun other hother => ?_) h
      rcases List.mem_cons.1 hother with rfl | hother
      · exact hlt
      · exact Position.order_lt_trans hlt (hhead other hother)
    · exact .cons hhead hrest
    next hgt =>
      refine .cons (fun other hother => ?_) (ih hrest)
      have hmem := mem_positions_file.1 (List.mem_map_of_mem hother)
      rcases hmem with heq | hmem
      · rw [Before, heq]
        exact Position.order_eq_gt.1 hgt
      · obtain ⟨old, hold, heq⟩ := List.mem_map.1 hmem
        rw [Before, ← heq]
        exact hhead old hold

theorem values_ne_nil_of_mem_file {entry : Entry} {bucket : Bucket} {buckets : List Bucket}
    (h : ∀ b ∈ buckets, b.values ≠ []) (hmem : bucket ∈ file entry buckets) :
    bucket.values ≠ [] := by
  induction buckets with
  | nil => simp_all [file]
  | cons head rest ih =>
    obtain ⟨hhead, hrest⟩ := List.forall_mem_cons.1 h
    rw [file] at hmem
    split at hmem <;> rcases List.mem_cons.1 hmem with rfl | hmem
    · simp
    · exact h bucket hmem
    · simp
    · exact hrest bucket hmem
    · exact hhead
    · exact ih hrest hmem

end Bucket

/-- The keys that documents emitted, each in the order of emission. -/
abbrev EmittedKeys := List (String × List Key)

namespace EmittedKeys

/-- The keys that a document emitted. -/
def of (docId : String) : EmittedKeys → List Key
  | [] => []
  | (other, keys) :: rest => if docId = other then keys else of docId rest

/-- Note one more key of a document. -/
def note (docId : String) (key : Key) : EmittedKeys → EmittedKeys
  | [] => [(docId, [key])]
  | (other, keys) :: rest =>
    if docId = other then (other, keys ++ [key]) :: rest
    else (other, keys) :: note docId key rest

def forget (docId : String) (emitted : EmittedKeys) : EmittedKeys :=
  emitted.filter fun entry => entry.1 != docId

theorem of_note_self (docId : String) (key : Key) (emitted : EmittedKeys) :
    of docId (note docId key emitted) = of docId emitted ++ [key] := by
  induction emitted with
  | nil => simp [note, of]
  | cons head rest ih =>
    rw [note]
    by_cases h : docId = head.1
    · simp [of, h]
    · simp [of, h, ih]

theorem of_note_of_ne {docId other : String} (hne : other ≠ docId) (key : Key)
    (emitted : EmittedKeys) : of other (note docId key emitted) = of other emitted := by
  induction emitted with
  | nil => simp [note, of, hne]
  | cons head rest ih =>
    rw [note]
    by_cases h : docId = head.1
    · simp [of, ← h, hne]
    · simp [of, h, ih]

theorem of_forget_self (docId : String) (emitted : EmittedKeys) :
    of docId (forget docId emitted) = [] := by
  induction emitted with
  | nil => rfl
  | cons head rest ih =>
    by_cases h : head.1 = docId
    · simpa [forget, h] using ih
    · simpa [forget, of, h, Ne.symm h] using ih

theorem of_forget_of_ne {docId other : String} (hne : other ≠ docId) (emitted : EmittedKeys) :
    of other (forget docId emitted) = of other emitted := by
  induction emitted with
  | nil => rfl
  | cons head rest ih =>
    by_cases h : head.1 = docId
    · simpa [forget, of, h, hne] using ih
    · simp only [forget] at ih
      simp [forget, of, h, ih]

end EmittedKeys

/-- The rows of an index, ascending. -/
structure Tree where
  buckets : List Bucket
  /-- What a removal goes by. -/
  emitted : EmittedKeys
  ordered : buckets.Pairwise Bucket.Before
  /-- A bucket holds a row. -/
  filled : ∀ bucket ∈ buckets, bucket.values ≠ []
  /-- The keys noted for documents are those of their buckets. -/
  noted : ∀ docId key, key ∈ emitted.of docId ↔ ⟨key, docId⟩ ∈ buckets.map Bucket.position

namespace Tree

def empty : Tree where
  buckets := []
  emitted := []
  ordered := .nil
  filled := by simp
  noted := by simp [EmittedKeys.of]

theorem noted_insert (tree : Tree) (entry : Entry) (docId : String) (key : Key) :
    key ∈ EmittedKeys.of docId (EmittedKeys.note entry.docId entry.key tree.emitted) ↔
      ⟨key, docId⟩ ∈ (Bucket.file entry tree.buckets).map Bucket.position := by
  rw [Bucket.mem_positions_file, ← tree.noted, Entry.position, Position.mk.injEq]
  by_cases h : docId = entry.docId
  · rw [h, EmittedKeys.of_note_self, List.mem_append, List.mem_singleton]
    simp [or_comm]
  · rw [EmittedKeys.of_note_of_ne h]
    simp [h]

/-- Insert one emitted row. -/
def insert (tree : Tree) (entry : Entry) : Tree where
  buckets := Bucket.file entry tree.buckets
  emitted := EmittedKeys.note entry.docId entry.key tree.emitted
  ordered := Bucket.pairwise_file entry tree.ordered
  filled _ h := Bucket.values_ne_nil_of_mem_file tree.filled h
  noted := tree.noted_insert entry

/-- Insert everything a document emitted. -/
def insertAll (tree : Tree) (docId : String) (emitted : List (Key × Json)) : Tree :=
  emitted.foldl (fun tree pair => tree.insert ⟨pair.1, docId, pair.2⟩) tree

/-- Take the buckets of a document under the given keys out. -/
def discardAll (docId : String) (keys : List Key) (buckets : List Bucket) : List Bucket :=
  keys.foldl (fun buckets key => Bucket.discard ⟨key, docId⟩ buckets) buckets

theorem mem_discardAll {docId : String} {keys : List Key} {bucket : Bucket}
    {buckets : List Bucket} :
    bucket ∈ discardAll docId keys buckets ↔
      bucket ∈ buckets ∧ ∀ key ∈ keys, bucket.position ≠ ⟨key, docId⟩ := by
  induction keys generalizing buckets with
  | nil => simp [discardAll]
  | cons key rest ih =>
    have hstep := @ih (Bucket.discard ⟨key, docId⟩ buckets)
    rw [Bucket.mem_discard] at hstep
    simpa [discardAll, and_assoc] using hstep

theorem sublist_discardAll (docId : String) (keys : List Key) (buckets : List Bucket) :
    (discardAll docId keys buckets).Sublist buckets := by
  induction keys generalizing buckets with
  | nil => exact .refl _
  | cons key rest ih => exact (ih _).trans List.filter_sublist

/-- The buckets that a removal by the noted keys leaves are those of other documents. -/
theorem mem_discardAll_noted (tree : Tree) (docId : String) (bucket : Bucket) :
    bucket ∈ discardAll docId (tree.emitted.of docId) tree.buckets ↔
      bucket ∈ tree.buckets ∧ bucket.position.docId ≠ docId := by
  rw [mem_discardAll, and_congr_right_iff]
  intro hmem
  constructor
  · intro h heq
    have hnoted : bucket.position.key ∈ tree.emitted.of docId := by
      rw [tree.noted, ← heq]
      exact List.mem_map_of_mem hmem
    exact h _ hnoted (by rw [← heq])
  · intro hne key _ heq
    exact hne (by rw [heq])

theorem noted_remove (tree : Tree) (docId other : String) (key : Key) :
    key ∈ EmittedKeys.of other (EmittedKeys.forget docId tree.emitted) ↔
      ⟨key, other⟩ ∈ (discardAll docId (tree.emitted.of docId) tree.buckets).map
        Bucket.position := by
  have hkept : ⟨key, other⟩ ∈ (discardAll docId (tree.emitted.of docId) tree.buckets).map
      Bucket.position ↔ ⟨key, other⟩ ∈ tree.buckets.map Bucket.position ∧ other ≠ docId := by
    simp only [List.mem_map, mem_discardAll_noted]
    grind
  rw [hkept, ← tree.noted]
  by_cases h : other = docId
  · simp [h, EmittedKeys.of_forget_self]
  · simp [h, EmittedKeys.of_forget_of_ne h]

/-- Remove everything a document emitted. -/
def remove (tree : Tree) (docId : String) : Tree where
  buckets := discardAll docId (tree.emitted.of docId) tree.buckets
  emitted := EmittedKeys.forget docId tree.emitted
  ordered := tree.ordered.sublist (sublist_discardAll _ _ _)
  filled _ h := tree.filled _ (mem_discardAll.1 h).1
  noted := tree.noted_remove docId

/-- The rows, ascending. -/
def entries (tree : Tree) : List Entry :=
  tree.buckets.flatMap Bucket.entries

/-- The rows of one key, ascending by document id: those from the least position of the key on, up
to the first of another key. -/
def entriesFor (tree : Tree) (key : Key) : List Entry :=
  let reached := tree.buckets.dropWhile fun bucket => bucket.position.order ⟨key, ""⟩ == .lt
  (reached.takeWhile fun bucket => bucket.position.key.same key).flatMap Bucket.entries

def rowCount (tree : Tree) : Nat :=
  tree.buckets.foldr (fun bucket count => bucket.values.length + count) 0

def isEmpty (tree : Tree) : Bool :=
  tree.buckets.isEmpty

end Tree

end Viewbase
