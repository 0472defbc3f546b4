import Viewbase.Tree

/-!
The rows of an index as one list.

Main statements: the rows are ascending (`sorted_entries`), inserting a row puts it behind every row
that is not after it (`entries_insert`), a removal takes back exactly the rows of its document
(`entries_remove`), and the rows found under a key are all rows of that key (`entriesFor_eq`).
-/

namespace Viewbase

namespace Entry

/-- Rows of one position have one key and one document. -/
theorem order_eq_eq {a b : Entry} : a.order b = .eq ↔ a.key = b.key ∧ a.docId = b.docId := by
  rw [order, Position.order_eq_eq, position, position, Position.mk.injEq]

theorem order_swap (a b : Entry) : (a.order b).swap = b.order a :=
  Position.order_swap a.position b.position

/-- A row does not come after another. -/
def Precedes (a b : Entry) : Prop :=
  (a.order b).isLE

theorem Precedes.refl (a : Entry) : a.Precedes a := by
  simp [Precedes, order_eq_eq.2 ⟨rfl, rfl⟩]

theorem Precedes.trans {a b c : Entry} (hab : a.Precedes b) (hbc : b.Precedes c) :
    a.Precedes c :=
  @Std.TransCmp.isLE_trans _ Position.order _ _ _ _ hab hbc

theorem precedes_of_order_eq_lt {a b : Entry} (h : a.order b = .lt) : a.Precedes b := by
  simp [Precedes, h]

theorem precedes_of_order_ne_lt {a b : Entry} (h : a.order b ≠ .lt) : b.Precedes a := by
  rw [Precedes, ← order_swap]
  cases hab : a.order b <;> simp_all

theorem precedes_total (a b : Entry) : a.Precedes b ∨ b.Precedes a := by
  by_cases h : a.order b = .lt
  · exact .inl (precedes_of_order_eq_lt h)
  · exact .inr (precedes_of_order_ne_lt h)

/-- Put a row behind every row that is not after it. -/
def place (entry : Entry) : List Entry → List Entry
  | [] => [entry]
  | other :: rest =>
    if entry.order other == .lt then entry :: other :: rest
    else other :: place entry rest

theorem mem_place {entry other : Entry} {entries : List Entry} :
    other ∈ place entry entries ↔ other = entry ∨ other ∈ entries := by
  induction entries with
  | nil => simp [place]
  | cons head rest ih =>
    rw [place]
    split
    · simp
    · simp only [List.mem_cons, ih]
      exact or_left_comm

theorem place_append {entry : Entry} {before : List Entry}
    (h : ∀ other ∈ before, entry.order other ≠ .lt) (rest : List Entry) :
    place entry (before ++ rest) = before ++ place entry rest := by
  induction before with
  | nil => rfl
  | cons head before ih =>
    obtain ⟨hhead, hbefore⟩ := List.forall_mem_cons.1 h
    rw [List.cons_append, place, if_neg (by simpa using hhead), ih hbefore, List.cons_append]

theorem place_eq_cons {entry : Entry} {entries : List Entry}
    (h : ∀ other ∈ entries, entry.order other = .lt) : place entry entries = entry :: entries := by
  cases entries with
  | nil => rfl
  | cons head rest => rw [place, if_pos (by simpa using h head List.mem_cons_self)]

end Entry

/-- Items are chosen by the parts they stand in if those of each part are chosen alike. -/
theorem filter_flatMap_of_alike {α β : Type} {itemsOf : β → List α} {chosen : α → Bool}
    {chosenPart : β → Bool} {parts : List β}
    (h : ∀ part ∈ parts, ∀ item ∈ itemsOf part, chosen item = chosenPart part) :
    (parts.flatMap itemsOf).filter chosen = (parts.filter chosenPart).flatMap itemsOf := by
  induction parts with
  | nil => rfl
  | cons part rest ih =>
    obtain ⟨hpart, hrest⟩ := List.forall_mem_cons.1 h
    rw [List.flatMap_cons, List.filter_append, ih hrest, List.filter_cons]
    cases hchosen : chosenPart part with
    | true =>
      rw [if_pos rfl, List.flatMap_cons,
        List.filter_eq_self.2 fun item hitem => (hpart item hitem).trans hchosen]
    | false =>
      rw [if_neg Bool.false_ne_true, List.filter_eq_nil_iff.2, List.nil_append]
      intro item hitem
      simp [hpart item hitem, hchosen]

namespace Bucket

theorem mem_entries {bucket : Bucket} {entry : Entry} :
    entry ∈ bucket.entries ↔ entry.position = bucket.position ∧ entry.value ∈ bucket.values := by
  obtain ⟨key, docId, value⟩ := entry
  simp only [entries, List.mem_map, Entry.position, Entry.mk.injEq]
  constructor
  · rintro ⟨old, hold, rfl, rfl, rfl⟩
    exact ⟨rfl, hold⟩
  · rintro ⟨hposition, hvalue⟩
    exact ⟨value, hvalue, by rw [← hposition], by rw [← hposition], rfl⟩

theorem mem_flatMap_entries {buckets : List Bucket} {entry : Entry} :
    entry ∈ buckets.flatMap entries ↔
      ∃ bucket ∈ buckets, entry.position = bucket.position ∧ entry.value ∈ bucket.values := by
  simp only [List.mem_flatMap, mem_entries]

theorem entries_append (position : Position) (values values' : List Json) :
    entries ⟨position, values ++ values'⟩ = entries ⟨position, values⟩ ++ entries ⟨position, values'⟩ :=
  List.map_append

theorem entries_ne_nil {bucket : Bucket} (h : bucket.values ≠ []) : bucket.entries ≠ [] := by
  simpa [entries] using h

/-- Rows are chosen by position as their buckets are. -/
theorem filter_flatMap_entries (chosen : Position → Bool) (buckets : List Bucket) :
    (buckets.flatMap entries).filter (fun entry => chosen entry.position) =
      (buckets.filter fun bucket => chosen bucket.position).flatMap entries := by
  apply filter_flatMap_of_alike
  intro bucket _ entry hentry
  rw [(mem_entries.1 hentry).1]

/-- Filing a row among ascending buckets puts it behind every row that is not after it. -/
theorem flatMap_entries_file (entry : Entry) {buckets : List Bucket}
    (hordered : buckets.Pairwise Before) (hfilled : ∀ bucket ∈ buckets, bucket.values ≠ []) :
    (file entry buckets).flatMap entries = Entry.place entry (buckets.flatMap entries) := by
  induction buckets with
  | nil => rfl
  | cons bucket rest ih =>
    obtain ⟨hhead, hrest⟩ := List.pairwise_cons.1 hordered
    obtain ⟨-, hfilledRest⟩ := List.forall_mem_cons.1 hfilled
    -- A row that is not after the bucket's position comes before all rows of later buckets.
    have hlater : ∀ {order : Ordering}, entry.position.order bucket.position = order →
        order ≠ .gt → ∀ other ∈ rest.flatMap entries, entry.order other = .lt := by
      intro order horder hne other hother
      obtain ⟨later, hmem, hposition, -⟩ := mem_flatMap_entries.1 hother
      rw [Entry.order, hposition]
      cases order with
      | lt => exact Position.order_lt_trans horder (hhead later hmem)
      | eq =>
        rw [Position.order_eq_eq.1 horder]
        exact hhead later hmem
      | gt => exact absurd rfl hne
    have hsame : ∀ other ∈ bucket.entries,
        entry.order other = entry.position.order bucket.position := by
      intro other hother
      rw [Entry.order, (mem_entries.1 hother).1]
    rw [file]
    split
    next hlt =>
      rw [Entry.place_eq_cons]
      · rfl
      · intro other hother
        rcases List.mem_append.1 hother with hother | hother
        · rw [hsame other hother, hlt]
        · exact hlater hlt (by simp) other hother
    next heq =>
      have hentry : entries ⟨bucket.position, [entry.value]⟩ = [entry] := by
        rw [← Position.order_eq_eq.1 heq]
        rfl
      rw [List.flatMap_cons, List.flatMap_cons, entries_append, hentry, Entry.place_append,
        Entry.place_eq_cons (hlater heq (by simp)), List.append_assoc]
      · rfl
      · intro other hother
        rw [hsame other hother, heq]
        simp
    next hgt =>
      rw [List.flatMap_cons, List.flatMap_cons, ih hrest hfilledRest, Entry.place_append]
      intro other hother
      rw [hsame other hother, hgt]
      simp

end Bucket

namespace Tree

/-! ## Ascending rows -/

theorem sorted_entries (tree : Tree) : tree.entries.Pairwise Entry.Precedes := by
  rw [entries, List.pairwise_flatMap]
  refine ⟨fun bucket _ => ?_, tree.ordered.imp fun {a b} hab entry hentry other hother => ?_⟩
  · refine List.Pairwise.imp_of_mem (R := fun _ _ => True) ?_ (List.pairwise_of_forall fun _ _ => trivial)
    intro entry other hentry hother _
    have hposition : entry.position = other.position :=
      (Bucket.mem_entries.1 hentry).1.trans (Bucket.mem_entries.1 hother).1.symm
    simp [Entry.Precedes, Entry.order, Position.order_eq_eq.2 hposition]
  · apply Entry.precedes_of_order_eq_lt
    rw [Entry.order, (Bucket.mem_entries.1 hentry).1, (Bucket.mem_entries.1 hother).1]
    exact hab

@[simp] theorem entries_empty : empty.entries = [] :=
  rfl

/-- Inserting a row puts it behind every row that is not after it. -/
theorem entries_insert (tree : Tree) (entry : Entry) :
    (tree.insert entry).entries = Entry.place entry tree.entries :=
  Bucket.flatMap_entries_file entry tree.ordered tree.filled

theorem discardAll_eq_filter (docId : String) (keys : List Key) (buckets : List Bucket) :
    discardAll docId keys buckets = buckets.filter fun bucket =>
      keys.all fun key => bucket.position.order ⟨key, docId⟩ != .eq := by
  induction keys generalizing buckets with
  | nil => exact (List.filter_eq_self.2 fun _ _ => rfl).symm
  | cons key rest ih =>
    have hstep := ih (Bucket.discard ⟨key, docId⟩ buckets)
    rw [discardAll] at hstep ⊢
    rw [List.foldl_cons, hstep, Bucket.discard, List.filter_filter]
    refine List.filter_congr fun bucket _ => ?_
    rw [List.all_cons, Bool.and_comm]

theorem buckets_remove (tree : Tree) (docId : String) :
    (tree.remove docId).buckets =
      tree.buckets.filter fun bucket => bucket.position.docId != docId := by
  change discardAll docId (tree.emitted.of docId) tree.buckets = _
  rw [discardAll_eq_filter]
  refine List.filter_congr fun bucket hbucket => ?_
  have hmem := tree.mem_discardAll_noted docId bucket
  rw [discardAll_eq_filter, List.mem_filter, and_congr_right_iff] at hmem
  rw [Bool.eq_iff_iff, hmem hbucket]
  simp

/-- A removal takes back exactly the rows of its document. -/
theorem entries_remove (tree : Tree) (docId : String) :
    (tree.remove docId).entries = tree.entries.filter fun entry => entry.docId != docId := by
  rw [entries, buckets_remove, entries]
  exact (Bucket.filter_flatMap_entries (fun position => position.docId != docId) _).symm

/-! ## The rows of one key -/

/-- Whether a bucket stands before the least position of a key depends on its key alone. -/
theorem order_least (position : Position) (key : Key) :
    position.order ⟨key, ""⟩ = .lt ↔ position.key.order key = .lt := by
  have hempty : ∀ docId, Text.order docId "" ≠ .lt := by
    intro docId
    rw [Text.order]
    cases docId.toList <;> simp [Text.orderChars]
  simp [Position.order, Ordering.then_eq_lt, hempty]

/-- Keys do not descend along ascending buckets. -/
theorem key_order_ne_lt {a b : Bucket} (h : a.Before b) : b.position.key.order a.position.key ≠ .lt := by
  rw [Bucket.Before, Position.order, Ordering.then_eq_lt] at h
  rw [← Key.order_swap]
  rcases h with h | ⟨h, -⟩ <;> simp [h]

/-- Among ascending buckets, those of one key lie side by side, from its least position on. -/
theorem takeWhile_dropWhile_eq_filter (key : Key) {buckets : List Bucket}
    (h : buckets.Pairwise Bucket.Before) :
    ((buckets.dropWhile fun bucket => bucket.position.order ⟨key, ""⟩ == .lt).takeWhile
      fun bucket => bucket.position.key.same key) =
    buckets.filter fun bucket => bucket.position.key.same key := by
  induction buckets with
  | nil => rfl
  | cons bucket rest ih =>
    obtain ⟨hhead, hrest⟩ := List.pairwise_cons.1 h
    cases horder : bucket.position.key.order key with
    | lt =>
      have hleast := (order_least bucket.position key).2 horder
      rw [List.dropWhile_cons_of_pos (by simpa using hleast), ih hrest,
        List.filter_cons_of_neg (by simp [Key.same, horder])]
    | eq =>
      have hkey := Key.order_eq_eq.1 horder
      have hreached : rest.dropWhile (fun b => b.position.order ⟨key, ""⟩ == .lt) = rest := by
        cases rest with
        | nil => rfl
        | cons next rest =>
          have hnext := key_order_ne_lt (hhead next List.mem_cons_self)
          rw [List.dropWhile_cons_of_neg]
          rw [hkey] at hnext
          simpa [order_least] using hnext
      have hrest' := ih hrest
      rw [hreached] at hrest'
      rw [List.dropWhile_cons_of_neg (by simp [order_least, horder]),
        List.takeWhile_cons_of_pos (by simp [Key.same, horder]), hrest',
        List.filter_cons_of_pos (by simp [Key.same, horder])]
    | gt =>
      have hnone : ∀ other ∈ rest, ¬other.position.key.same key = true := by
        intro other hother hsame
        have hkey : other.position.key = key := Key.order_eq_eq.1 (by simpa [Key.same] using hsame)
        apply key_order_ne_lt (hhead other hother)
        rw [hkey, ← Key.order_swap, horder]
        rfl
      rw [List.dropWhile_cons_of_neg (by simp [order_least, horder]),
        List.takeWhile_cons_of_neg (by simp [Key.same, horder]),
        List.filter_cons_of_neg (by simp [Key.same, horder]), List.filter_eq_nil_iff.2 hnone]

/-- The rows found under a key are all rows of that key. -/
theorem entriesFor_eq (tree : Tree) (key : Key) :
    tree.entriesFor key = tree.entries.filter fun entry => entry.key.same key := by
  rw [entriesFor, takeWhile_dropWhile_eq_filter key tree.ordered, entries]
  exact (Bucket.filter_flatMap_entries (fun position => position.key.same key) _).symm

/-! ## Counting -/

theorem rowCount_eq (tree : Tree) : tree.rowCount = tree.entries.length := by
  rw [rowCount, entries]
  induction tree.buckets with
  | nil => rfl
  | cons bucket rest ih =>
    rw [List.foldr_cons, List.flatMap_cons, List.length_append, ih, Bucket.entries, List.length_map]

theorem isEmpty_iff (tree : Tree) : tree.isEmpty = true ↔ tree.entries = [] := by
  rw [isEmpty, List.isEmpty_iff]
  constructor
  · intro h
    rw [entries, h]
    rfl
  · intro h
    rw [entries, List.flatMap_eq_nil_iff] at h
    rw [List.eq_nil_iff_forall_not_mem]
    intro bucket hbucket
    exact Bucket.entries_ne_nil (tree.filled bucket hbucket) (h bucket hbucket)

end Tree

end Viewbase
