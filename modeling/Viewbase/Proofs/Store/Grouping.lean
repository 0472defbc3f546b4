import Viewbase.Proofs.Key.Truncation
import Viewbase.Proofs.Store.Incremental
import Mathlib.Data.List.Chain
import Mathlib.Data.List.Forall2

/-!
Rows cut into groups.

The groups of rows are blocks of neighbours, and there is one way to cut rows into blocks
(`runs_of_blocks`).  Rows in the order of a scan have one block for each group key, and the blocks
stand in the order of their keys (`Blocks.pairwise_met`).  Main statement: a grouped scan calls the
reduce function once for each of its rows, with the rows of one group, and these lists together are
all selected rows in order (`grouped_scan_partitions`).
-/

namespace Viewbase

/-- Neighbouring rows of one group key. -/
structure Block where
  key : Key
  rows : List Entry

namespace Block

/-- What the reduce function gets of a block. -/
def group (block : Block) : Group :=
  ⟨block.key, block.rows.map Entry.key, block.rows.map Entry.value⟩

end Block

/-- Rows are cut into blocks: none is empty, the rows of each have its key at the level of grouping,
and neighbouring blocks have different keys. -/
structure Blocks (level : Nat) (blocks : List Block) (rows : List Entry) : Prop where
  joined : blocks.flatMap Block.rows = rows
  filled : ∀ block ∈ blocks, block.rows ≠ []
  uniform : ∀ block ∈ blocks, ∀ row ∈ block.rows, Group.keyAt level row.key = block.key
  apart : (blocks.map Block.key).IsChain (· ≠ ·)

theorem blocks_nil (level : Nat) : Blocks level [] [] :=
  ⟨rfl, by simp, by simp, .nil⟩

/-- Rows can be cut into blocks. -/
theorem exists_blocks (level : Nat) (rows : List Entry) : ∃ blocks, Blocks level blocks rows := by
  induction rows with
  | nil => exact ⟨[], blocks_nil level⟩
  | cons row rest ih =>
    obtain ⟨blocks, hjoined, hfilled, huniform, hapart⟩ := ih
    cases blocks with
    | nil =>
      refine ⟨[⟨Group.keyAt level row.key, [row]⟩], ⟨?_, by simp, by simp, by simp⟩⟩
      rw [← hjoined]
      rfl
    | cons block blocks =>
      obtain ⟨hblock, hfilled⟩ := List.forall_mem_cons.1 hfilled
      obtain ⟨hkey, huniform⟩ := List.forall_mem_cons.1 huniform
      by_cases heq : Group.keyAt level row.key = block.key
      · refine ⟨⟨block.key, row :: block.rows⟩ :: blocks, ⟨?_, ?_, ?_, hapart⟩⟩
        · rw [← hjoined]
          rfl
        · exact List.forall_mem_cons.2 ⟨by simp, hfilled⟩
        · exact List.forall_mem_cons.2 ⟨List.forall_mem_cons.2 ⟨heq, hkey⟩, huniform⟩
      · refine ⟨⟨Group.keyAt level row.key, [row]⟩ :: block :: blocks, ⟨?_, ?_, ?_, ?_⟩⟩
        · rw [← hjoined]
          rfl
        · exact List.forall_mem_cons.2 ⟨by simp, List.forall_mem_cons.2 ⟨hblock, hfilled⟩⟩
        · exact List.forall_mem_cons.2 ⟨by simp, List.forall_mem_cons.2 ⟨hkey, huniform⟩⟩
        · exact List.isChain_cons_cons.2 ⟨heq, hapart⟩

namespace Group

/-- A block is a group if the rows behind it start with another one. -/
theorem runs_append {level : Nat} {key : Key} {rows rest : List Entry} (hrows : rows ≠ [])
    (hkey : ∀ row ∈ rows, keyAt level row.key = key)
    (hrest : ∀ group ∈ (runs level rest).head?, key ≠ group.key) :
    runs level (rows ++ rest) = Block.group ⟨key, rows⟩ :: runs level rest := by
  induction rows with
  | nil => exact absurd rfl hrows
  | cons row rows ih =>
    obtain ⟨rfl, hkeys⟩ := List.forall_mem_cons.1 hkey
    cases rows with
    | nil =>
      rw [List.cons_append, List.nil_append, runs]
      cases hruns : runs level rest with
      | nil => rfl
      | cons group groups =>
        have hne : ¬(keyAt level row.key).same group.key = true := fun hsame =>
          hrest group (by simp [hruns]) (Key.same_iff.1 hsame)
        exact if_neg hne
    | cons next rows =>
      rw [List.cons_append, runs, ih (by simp) hkeys]
      exact if_pos (Key.same_iff.2 rfl)

/-- There is one way to cut rows into blocks: the groups are those of any. -/
theorem runs_of_blocks {level : Nat} {blocks : List Block} {rows : List Entry}
    (h : Blocks level blocks rows) : runs level rows = blocks.map Block.group := by
  induction blocks generalizing rows with
  | nil =>
    rw [← h.joined]
    rfl
  | cons block blocks ih =>
    obtain ⟨hjoined, hfilled, huniform, hapart⟩ := h
    obtain ⟨hblock, hfilled⟩ := List.forall_mem_cons.1 hfilled
    obtain ⟨hkey, huniform⟩ := List.forall_mem_cons.1 huniform
    have hrest := ih ⟨rfl, hfilled, huniform, hapart.tail⟩
    rw [← hjoined, List.flatMap_cons, runs_append hblock hkey, hrest, List.map_cons]
    intro group hgroup
    rw [hrest] at hgroup
    cases blocks with
    | nil => simp at hgroup
    | cons next blocks =>
      have heq : next.group = group := by simpa using hgroup
      rw [← heq]
      exact (List.isChain_cons_cons.1 hapart).1

end Group

/-! ## Rows in the order of a scan -/

namespace Entry

/-- Rows stand in the order in which a scan meets their keys. -/
def InOrder (descending : Bool) (rows : List Entry) : Prop :=
  rows.Pairwise fun a b => (Key.met descending a.key b.key).isLE

end Entry

/-- A scan meets the rows of a view in order. -/
theorem View.pairwise_met (view : View) (descending : Bool) :
    (View.directed descending view.tree.entries).Pairwise fun a b =>
      (Position.met descending a.position b.position).isLE := by
  have hsorted := view.tree.sorted_entries
  cases descending with
  | false => exact hsorted
  | true =>
    refine List.pairwise_reverse.2 (hsorted.imp fun {a b} hab => ?_)
    rwa [Position.met_true]

/-- A range selects rows in the order of the scan. -/
theorem View.inOrder_select (view : View) (range : KeyRange) (descending : Bool) :
    Entry.InOrder descending (view.select (.range range) descending) := by
  have hrows : Entry.InOrder descending (View.directed descending view.tree.entries) :=
    (view.pairwise_met descending).imp Position.isLE_met_key
  exact hrows.filter _

/-- Keys in order, no two neighbours of which are equal, are all different and strictly ordered. -/
theorem Key.pairwise_met_of_isChain {descending : Bool} {keys : List Key}
    (hchain : keys.IsChain (· ≠ ·)) (hle : keys.Pairwise fun a b => (met descending a b).isLE) :
    keys.Pairwise fun a b => met descending a b = .lt := by
  induction keys with
  | nil => exact .nil
  | cons key rest ih =>
    obtain ⟨hkey, hrest⟩ := List.pairwise_cons.1 hle
    refine .cons (fun other hother => ?_) (ih hchain.tail hrest)
    cases rest with
    | nil => simp at hother
    | cons next rest =>
      have hnext : met descending key next = .lt :=
        met_eq_lt_of_isLE (hkey next List.mem_cons_self) (List.isChain_cons_cons.1 hchain).1
      rcases List.mem_cons.1 hother with rfl | hother
      · exact hnext
      · exact Std.TransCmp.lt_of_lt_of_isLE hnext ((List.pairwise_cons.1 hrest).1 other hother)

namespace Blocks

variable {level : Nat} {descending : Bool} {blocks : List Block} {rows : List Entry}

/-- Each block is of a row among the rows that has its key. -/
theorem exists_row (h : Blocks level blocks rows) {block : Block} (hblock : block ∈ blocks) :
    ∃ row ∈ block.rows, row ∈ rows ∧ Group.keyAt level row.key = block.key := by
  obtain ⟨row, hrow⟩ := List.exists_mem_of_ne_nil _ (h.filled block hblock)
  refine ⟨row, hrow, ?_, h.uniform block hblock row hrow⟩
  rw [← h.joined]
  exact List.mem_flatMap.2 ⟨block, hblock, hrow⟩

/-- Each row stands in a block that has its key. -/
theorem exists_block (h : Blocks level blocks rows) {row : Entry} (hrow : row ∈ rows) :
    ∃ block ∈ blocks, row ∈ block.rows ∧ Group.keyAt level row.key = block.key := by
  rw [← h.joined] at hrow
  obtain ⟨block, hblock, hmem⟩ := List.mem_flatMap.1 hrow
  exact ⟨block, hblock, hmem, h.uniform block hblock row hmem⟩

/-- The blocks of rows in order have different keys, in the same order. -/
theorem pairwise_met (h : Blocks level blocks rows) (horder : Entry.InOrder descending rows) :
    blocks.Pairwise fun a b => Key.met descending a.key b.key = .lt := by
  rw [Entry.InOrder, ← h.joined, List.pairwise_flatMap] at horder
  have hle : (blocks.map Block.key).Pairwise fun a b => (Key.met descending a b).isLE := by
    refine List.pairwise_map.2 (horder.2.imp_of_mem fun {a b} ha hb hab => ?_)
    -- Each block is judged by one of its rows.
    obtain ⟨row, hrow, -, hkey⟩ := h.exists_row ha
    obtain ⟨other, hother, -, hkey'⟩ := h.exists_row hb
    rw [← hkey, ← hkey']
    exact Group.isLE_keyAt level (hab row hrow other hother)
  exact List.pairwise_map.1 (Key.pairwise_met_of_isChain h.apart hle)

theorem eq_nil_iff (h : Blocks level blocks rows) : blocks = [] ↔ rows = [] := by
  rw [← h.joined, List.flatMap_eq_nil_iff]
  constructor
  · rintro rfl
    simp
  · intro hrows
    rw [List.eq_nil_iff_forall_not_mem]
    exact fun block hblock => h.filled block hblock (hrows block hblock)

/-- At level 0 all rows are one block, if there are any. -/
theorem eq_single (h : Blocks 0 blocks rows) (hrows : rows ≠ []) : blocks = [⟨.null, rows⟩] := by
  have hnull : ∀ block ∈ blocks, block.key = .null := by
    intro block hblock
    obtain ⟨row, -, -, hkey⟩ := h.exists_row hblock
    rw [← hkey, Group.keyAt_zero]
  match blocks, h, hnull with
  | [], h, _ => exact absurd (h.eq_nil_iff.1 rfl) hrows
  | [⟨key, own⟩], h, hnull =>
    have hown : own = rows := by simpa using h.joined
    have hkey : key = .null := hnull ⟨key, own⟩ List.mem_cons_self
    rw [hown, hkey]
  | first :: second :: rest, h, hnull =>
    refine absurd ?_ (List.isChain_cons_cons.1 h.apart).1
    rw [hnull first (by simp), hnull second (by simp)]

end Blocks

/-! ## Calls of the reduce function -/

/-- What a reduce function is called with. -/
structure Call where
  keys : List Key
  values : List Json

namespace Group

variable {reduce : ReduceFunction}

def call (group : Group) : Call :=
  ⟨group.keys, group.values⟩

/-- Reduce groups in turn by a function that may have effects. -/
def reduceAllM {m : Type → Type} [Monad m] (reduce : List Key → List Json → m (Option Json)) :
    List Group → m (Except IndexError (List Row))
  | [] => pure (.ok [])
  | group :: rest => do
    match ← reduce group.keys group.values with
    | none => pure (.error (.scan (.reduceCrashed group.key)))
    | some value =>
      match ← reduceAllM reduce rest with
      | .error error => pure (.error error)
      | .ok rows => pure (.ok (Row.aggregate group.key value :: rows))

/-- Without effects groups are reduced as ever. -/
theorem reduceAllM_pure {m : Type → Type} [Monad m] [LawfulMonad m] (reduce : ReduceFunction)
    (groups : List Group) :
    reduceAllM (fun keys values => (pure (reduce keys values) : m (Option Json))) groups =
      pure (reduceAll reduce groups) := by
  induction groups with
  | nil => rfl
  | cons group rest ih =>
    rw [reduceAllM, reduceAll, pure_bind]
    cases reduce group.keys group.values with
    | none => rfl
    | some value =>
      simp only [ih, pure_bind]
      cases reduceAll reduce rest <;> rfl

/-- The same function, which notes what it is called with. -/
def noting (reduce : ReduceFunction) (keys : List Key) (values : List Json) :
    StateM (List Call) (Option Json) :=
  modifyGet fun calls => (reduce keys values, calls ++ [⟨keys, values⟩])

/-- The groups that a reduction gets to: all up to the first that the function crashes on. -/
def reached (reduce : ReduceFunction) : List Group → List Group
  | [] => []
  | group :: rest =>
    group :: if (reduce group.keys group.values).isSome then reached reduce rest else []

/-- One computation after another goes on with the calls noted before. -/
theorem run_bind {α β : Type} (first : StateM (List Call) α) (next : α → StateM (List Call) β)
    (calls : List Call) :
    (first >>= next).run calls = (next (first.run calls).1).run (first.run calls).2 :=
  rfl

/-- Noting the calls changes no outcome, and there is one call for each group reached. -/
theorem run_noting (groups : List Group) (calls : List Call) :
    (reduceAllM (noting reduce) groups).run calls =
      (reduceAll reduce groups, calls ++ (reached reduce groups).map call) := by
  induction groups generalizing calls with
  | nil => exact congrArg (Prod.mk _) (List.append_nil calls).symm
  | cons group rest ih =>
    have hcall : (noting reduce group.keys group.values).run calls =
        (reduce group.keys group.values, calls ++ [group.call]) := rfl
    rw [reduceAllM, run_bind, hcall, reduceAll, reached]
    cases reduce group.keys group.values with
    | none => rfl
    | some value =>
      simp only [run_bind, ih, Option.isSome_some, if_true, List.map_cons, List.append_assoc,
        List.singleton_append]
      cases reduceAll reduce rest <;> rfl

theorem reached_eq_self {groups : List Group}
    (h : ∀ group ∈ reached reduce groups, reduce group.keys group.values ≠ none) :
    reached reduce groups = groups := by
  induction groups with
  | nil => rfl
  | cons group rest ih =>
    rw [reached] at h ⊢
    obtain ⟨hgroup, hrest⟩ := List.forall_mem_cons.1 h
    have hsome := Option.isSome_iff_ne_none.2 hgroup
    rw [if_pos hsome] at hrest ⊢
    rw [ih hrest]

/-- Groups are reduced to one row each, unless the function crashes on one. -/
theorem reduceAll_eq_ok {groups : List Group} {rows : List Row} :
    reduceAll reduce groups = .ok rows ↔
      List.Forall₂ (fun group row => ∃ value, reduce group.keys group.values = some value ∧
        row = Row.aggregate group.key value) groups rows := by
  induction groups generalizing rows with
  | nil => simp [reduceAll, eq_comm]
  | cons group rest ih =>
    rw [reduceAll, List.forall₂_cons_left_iff]
    cases reduce group.keys group.values with
    | none => simp
    | some value =>
      cases hrest : reduceAll reduce rest with
      | error error =>
        have hnone : ∀ rows, ¬List.Forall₂ _ rest rows := fun rows h => by
          simpa [hrest] using ih.2 h
        simp [hnone]
      | ok rows' =>
        simp only [hrest, Except.ok.injEq] at ih
        simp [← ih, eq_comm]

theorem exists_reduceAll {groups : List Group}
    (h : ∀ group ∈ groups, reduce group.keys group.values ≠ none) :
    ∃ rows, reduceAll reduce groups = .ok rows := by
  induction groups with
  | nil => exact ⟨[], rfl⟩
  | cons group rest ih =>
    obtain ⟨hgroup, hrest⟩ := List.forall_mem_cons.1 h
    obtain ⟨value, hvalue⟩ := Option.ne_none_iff_exists'.1 hgroup
    obtain ⟨rows, hrows⟩ := ih hrest
    exact ⟨Row.aggregate group.key value :: rows, by simp [reduceAll, hvalue, hrows]⟩

theorem keys_of_reduceAll {groups : List Group} {rows : List Row}
    (h : reduceAll reduce groups = .ok rows) : rows.map Row.key = groups.map Group.key := by
  rw [reduceAll_eq_ok] at h
  induction h with
  | nil => rfl
  | cons hrow _ ih =>
    obtain ⟨value, -, rfl⟩ := hrow
    rw [List.map_cons, List.map_cons, ih]
    rfl

end Group

/-- A call with all rows of one group makes the row of that group. -/
structure Call.Makes (reduce : ReduceFunction) (level : Nat) (call : Call) (row : Row) : Prop where
  filled : call.keys ≠ []
  paired : call.keys.length = call.values.length
  cut : ∀ key ∈ call.keys, key.truncate level = row.key
  reduced : ∃ value, reduce call.keys call.values = some value ∧ row = Row.aggregate row.key value

namespace Blocks

variable {level : Nat} {blocks : List Block} {rows : List Entry}

theorem flatMap_keys (h : Blocks level blocks rows) :
    ((blocks.map Block.group).map Group.call).flatMap Call.keys = rows.map Entry.key := by
  rw [← h.joined, List.map_flatMap, List.flatMap_map, List.flatMap_map]
  rfl

theorem flatMap_values (h : Blocks level blocks rows) :
    ((blocks.map Block.group).map Group.call).flatMap Call.values = rows.map Entry.value := by
  rw [← h.joined, List.map_flatMap, List.flatMap_map, List.flatMap_map]
  rfl

/-- The calls with the groups of rows make the rows that these are reduced to. -/
theorem makes (h : Blocks level blocks rows) (hlevel : 1 ≤ level) {reduce : ReduceFunction}
    {reduced : List Row}
    (hreduced : Group.reduceAll reduce (blocks.map Block.group) = .ok reduced) :
    List.Forall₂ (Call.Makes reduce level) ((blocks.map Block.group).map Group.call) reduced := by
  rw [Group.reduceAll_eq_ok, List.forall₂_map_left_iff] at hreduced
  rw [List.forall₂_map_left_iff, List.forall₂_map_left_iff]
  have hboth := (List.forall₂_and_left (p := (· ∈ blocks)) blocks reduced).2
    ⟨fun _ hblock => hblock, hreduced⟩
  refine hboth.imp fun block row ⟨hblock, value, hvalue, hrow⟩ => ⟨?_, ?_, ?_, value, hvalue, ?_⟩
  · exact fun hnil => h.filled block hblock (List.map_eq_nil_iff.1 hnil)
  · exact (List.length_map ..).trans (List.length_map ..).symm
  · intro key hkey
    obtain ⟨entry, hentry, rfl⟩ := List.mem_map.1 hkey
    rw [← Group.keyAt_of_pos hlevel, h.uniform block hblock entry hentry, hrow]
    rfl
  · rw [hrow]
    rfl

end Blocks

/-! ## Grouped scans -/

/-- The request for the selected rows themselves, all of them. -/
def Request.unreduced (request : Request) : Request :=
  { request with reduce := false, skip := 0, limit := none }

/-- The rows that a request reduces its selection to, before paging, and the calls on the way. -/
def View.reduction (view : View) (reduce : ReduceFunction) (request : Request) :
    Except IndexError (List Row) × List Call :=
  (Group.reduceAllM (Group.noting reduce)
    (Group.runs request.groupLevel (view.select request.selection request.descending))).run []

/-- Rows of groups, and the calls that made them, partition the selected rows in order. -/
structure Partitions (reduce : ReduceFunction) (request : Request) (calls : List Call)
    (rows selected : List Row) : Prop where
  distinct : (rows.map Row.key).Nodup
  /-- The keys ascend strictly in an ascending scan and descend strictly in a descending one. -/
  ordered : rows.Pairwise fun a b => Key.met request.descending a.key b.key = .lt
  /-- There is one call for each row. -/
  made : List.Forall₂ (Call.Makes reduce request.groupLevel) calls rows
  keys : calls.flatMap Call.keys = selected.map Row.key
  values : calls.flatMap Call.values = selected.map Row.value

theorem Blocks.partitions {request : Request} {blocks : List Block} {entries : List Entry}
    (h : Blocks request.groupLevel blocks entries)
    (horder : Entry.InOrder request.descending entries) (hlevel : 1 ≤ request.groupLevel)
    {reduce : ReduceFunction} {rows selected : List Row}
    (hrows : Group.reduceAll reduce (blocks.map Block.group) = .ok rows)
    (hkeys : selected.map Row.key = entries.map Entry.key)
    (hvalues : selected.map Row.value = entries.map Entry.value) :
    Partitions reduce request ((blocks.map Block.group).map Group.call) rows selected := by
  have hmet : (rows.map Row.key).Pairwise fun a b => Key.met request.descending a b = .lt := by
    rw [Group.keys_of_reduceAll hrows, List.map_map]
    exact List.pairwise_map.2 (h.pairwise_met horder)
  exact {
    distinct := hmet.imp Key.ne_of_met_eq_lt
    ordered := List.pairwise_map.1 hmet
    made := h.makes hlevel hrows
    keys := h.flatMap_keys.trans hkeys.symm
    values := h.flatMap_values.trans hvalues.symm }

namespace Blocks

variable {blocks : List Block} {entries : List Entry} {reduce : ReduceFunction} {rows : List Row}

/-- No rows are reduced to no rows, without a call. -/
theorem none_of_nil {level : Nat} (h : Blocks level blocks entries) (hnil : entries = [])
    (hrows : Group.reduceAll reduce (blocks.map Block.group) = .ok rows) :
    rows = [] ∧ (blocks.map Block.group).map Group.call = [] := by
  rw [h.eq_nil_iff.2 hnil] at hrows ⊢
  exact ⟨(Except.ok.inj hrows).symm, rfl⟩

/-- At level 0 one call reduces all rows to one. -/
theorem one_of_ne_nil (h : Blocks 0 blocks entries) (hfilled : entries ≠ [])
    (hrows : Group.reduceAll reduce (blocks.map Block.group) = .ok rows) :
    (blocks.map Block.group).map Group.call = [⟨entries.map Entry.key, entries.map Entry.value⟩] ∧
      ∃ value, reduce (entries.map Entry.key) (entries.map Entry.value) = some value ∧
        rows = [Row.aggregate .null value] := by
  have hsingle := h.eq_single hfilled
  rw [hsingle, Group.reduceAll_eq_ok] at hrows
  obtain ⟨row, rest, ⟨value, hvalue, rfl⟩, hrest, rfl⟩ := List.forall₂_cons_left_iff.1 hrows
  rw [List.forall₂_nil_left_iff.1 hrest, hsingle]
  exact ⟨rfl, value, hvalue, rfl⟩

end Blocks

namespace Store

variable {s : Store} {id : IndexId} {view : View} {request : Request}

theorem scanIndex_unreduced (hview : s.view? id = some view) (request : Request) :
    s.scanIndex id request.unreduced =
      .ok ⟨(view.select request.selection request.descending).map
        (s.mappedRow request.includeDocs), view.indexed.getD 0⟩ := by
  rw [scanIndex, hview]
  rfl

theorem scanIndex_reduced (hview : s.view? id = some view) {reduce : ReduceFunction}
    (hreduce : view.reduce = some reduce) (hasked : request.reduce = true) {rows : List Row}
    (hrows : Group.reduceAll reduce (Group.runs request.groupLevel
      (view.select request.selection request.descending)) = .ok rows) :
    s.scanIndex id request =
      .ok ⟨page request.skip request.limit rows, view.indexed.getD 0⟩ := by
  rw [scanIndex, hview]
  simp only [scanView, answerRows, hasked, if_true, hreduce, hrows]

theorem key_mappedRow (s : Store) (includeDocs : Bool) (entry : Entry) :
    (s.mappedRow includeDocs entry).key = entry.key := by
  cases includeDocs <;> rfl

theorem value_mappedRow (s : Store) (includeDocs : Bool) (entry : Entry) :
    (s.mappedRow includeDocs entry).value = entry.value := by
  cases includeDocs <;> rfl

theorem map_key_mappedRow (s : Store) (includeDocs : Bool) (entries : List Entry) :
    (entries.map (s.mappedRow includeDocs)).map Row.key = entries.map Entry.key := by
  rw [List.map_map]
  exact List.map_congr_left fun entry _ => s.key_mappedRow includeDocs entry

theorem map_value_mappedRow (s : Store) (includeDocs : Bool) (entries : List Entry) :
    (entries.map (s.mappedRow includeDocs)).map Row.value = entries.map Entry.value := by
  rw [List.map_map]
  exact List.map_congr_left fun entry _ => s.value_mappedRow includeDocs entry

/-- After any history, a reduced scan of a range whose calls do not crash answers a page of rows
that partition the rows selected, in the order of the scan, with one call for each; at level 0 there
is one row for all, if any row is selected. -/
theorem grouped_scan_partitions (numbered : Nat) (history : List Command) (request : Request)
    {id : IndexId} {view : View} {range : KeyRange} {reduce : ReduceFunction}
    (hview : (after numbered history).view? id = some view)
    (hrange : request.selection = .range range) (hreduce : view.reduce = some reduce)
    (hasked : request.reduce = true)
    (hcalm : ∀ call ∈ (view.reduction reduce request).2, reduce call.keys call.values ≠ none) :
    ∃ selected rows calls,
      (after numbered history).scanIndex id request.unreduced =
        .ok ⟨selected, view.indexed.getD 0⟩ ∧
      view.reduction reduce request = (.ok rows, calls) ∧
      (after numbered history).scanIndex id request =
        .ok ⟨page request.skip request.limit rows, view.indexed.getD 0⟩ ∧
      (1 ≤ request.groupLevel → Partitions reduce request calls rows selected) ∧
      (request.groupLevel = 0 →
        (selected = [] → rows = [] ∧ calls = []) ∧
        (selected ≠ [] → calls = [⟨selected.map Row.key, selected.map Row.value⟩] ∧
          ∃ value, reduce (selected.map Row.key) (selected.map Row.value) = some value ∧
            rows = [Row.aggregate .null value])) := by
  obtain ⟨blocks, hblocks⟩ := exists_blocks request.groupLevel
    (view.select request.selection request.descending)
  have hruns := Group.runs_of_blocks hblocks
  have hnoted : view.reduction reduce request =
      (Group.reduceAll reduce (blocks.map Block.group),
        (Group.reached reduce (blocks.map Block.group)).map Group.call) := by
    rw [View.reduction, hruns, Group.run_noting, List.nil_append]
  rw [hnoted, List.forall_mem_map] at hcalm
  have hreached := Group.reached_eq_self hcalm
  rw [hreached] at hcalm hnoted
  obtain ⟨rows, hrows⟩ := Group.exists_reduceAll hcalm
  rw [hrows] at hnoted
  have hkeys := map_key_mappedRow (after numbered history) request.includeDocs
    (view.select request.selection request.descending)
  have hvalues := map_value_mappedRow (after numbered history) request.includeDocs
    (view.select request.selection request.descending)
  refine ⟨_, rows, _, scanIndex_unreduced hview request, hnoted,
    scanIndex_reduced hview hreduce hasked (hruns ▸ hrows), fun hlevel => ?_, fun hlevel => ?_⟩
  · apply hblocks.partitions _ hlevel hrows hkeys hvalues
    rw [hrange]
    exact view.inOrder_select range request.descending
  · rw [hlevel] at hblocks
    rw [hkeys, hvalues]
    exact ⟨fun hnil => hblocks.none_of_nil (List.map_eq_nil_iff.1 hnil) hrows,
      fun hnil => hblocks.one_of_ne_nil (fun h => hnil (by rw [h]; rfl)) hrows⟩

/-- Emits each document under its body. -/
def bodyAsKey : MapFunction := fun doc =>
  some [(Key.ofJson doc.body, .null)]

/-- A view of arrays of different lengths and of a text that equals their first item. -/
def mixedKeys : List Command :=
  [.put "a" (.array [.string "x", .bool true]), .put "b" (.string "x"),
   .put "c" (.array [.string "x"]), .put "d" (.array [.string "x", .bool false]),
   .defineView "v" bodyAsKey (some .count), .scan (wholeOf ⟨1⟩ .refreshBefore)]

/-- A request for the number of rows of each group. -/
def countsAt (level : Nat) (descending : Bool) : Request :=
  { wholeOf ⟨1⟩ .neverRefresh with
    reduce := true, groupLevel := level, descending := descending }

/-- Arrays are grouped by their first item, whatever their length, and the text is a group of its
own, behind them in a descending scan. -/
theorem partitions_mixedKeys :
    ∃ view selected rows calls, (after 0 mixedKeys).view? ⟨1⟩ = some view ∧
      (after 0 mixedKeys).scanIndex ⟨1⟩ (countsAt 1 true).unreduced = .ok ⟨selected, 4⟩ ∧
      view.reduction .count (countsAt 1 true) = (.ok rows, calls) ∧
      rows = [Row.aggregate (.array [.string "x"]) (.nat 3), Row.aggregate (.string "x") (.nat 1)] ∧
      Partitions .count (countsAt 1 true) calls rows selected := by
  have hview : (after 0 mixedKeys).view? ⟨1⟩ = some _ := rfl
  have hcalm : ∀ call : Call, ReduceFunction.count call.keys call.values ≠ none := fun _ =>
    Option.some_ne_none _
  obtain ⟨selected, rows, calls, hselected, hnoted, -, hpartitions, -⟩ :=
    grouped_scan_partitions 0 mixedKeys (countsAt 1 true) hview rfl rfl rfl fun call _ => hcalm call
  refine ⟨_, selected, rows, calls, rfl, hselected, hnoted, ?_, hpartitions (by decide)⟩
  cases hnoted
  rfl

end Store

end Viewbase
