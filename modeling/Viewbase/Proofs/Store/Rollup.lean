import Viewbase.Proofs.Store.Grouping
import Viewbase.Query.Params
import Mathlib.Algebra.GroupWithZero.Nat

/-!
Counts of groups at two levels.

Cutting rows into blocks at a coarse level puts whole blocks of a finer level together
(`Blocks.rows_eq_flatMap`).  Main statement: each count at a coarse level is the sum of the counts
at a finer level that it covers, which stand side by side, and each of these is covered once; counts
at a level that no array exceeds are those of the keys themselves (`counts_roll_up`).
-/

namespace Viewbase

/-! ## Choosing from lists -/

/-- What is chosen from an ordered list stands side by side if everything between two chosen items
is chosen. -/
theorem infix_filter_of_convex {α : Type} {before : α → α → Prop} {chosen : α → Bool}
    (hconvex : ∀ {a b c}, before a b → before b c → chosen a → chosen c → chosen b) {items : List α}
    (h : items.Pairwise before) : items.filter chosen <:+: items := by
  -- Behind a chosen item the chosen ones come first.
  have hleading : ∀ {item : α} {rest : List α}, chosen item → (item :: rest).Pairwise before →
      rest.filter chosen <+: rest := by
    intro item rest hitem hrest
    induction rest with
    | nil => exact List.prefix_rfl
    | cons next rest ih =>
      obtain ⟨hbefore, hrest⟩ := List.pairwise_cons.1 hrest
      obtain ⟨hnext, htail⟩ := List.pairwise_cons.1 hrest
      by_cases hchosen : chosen next = true
      · rw [List.filter_cons_of_pos hchosen, List.prefix_cons_inj]
        exact ih (.cons (fun other hother => hbefore other (List.mem_cons_of_mem _ hother)) htail)
      · have hnone : rest.filter chosen = [] := List.filter_eq_nil_iff.2 fun other hother hlater =>
          hchosen (hconvex (hbefore next List.mem_cons_self) (hnext other hother) hitem hlater)
        rw [List.filter_cons_of_neg hchosen, hnone]
        exact List.nil_prefix
  induction items with
  | nil => exact List.infix_rfl
  | cons item rest ih =>
    by_cases hitem : chosen item = true
    · rw [List.filter_cons_of_pos hitem]
      exact ((List.prefix_cons_inj item).2 (hleading hitem h)).isInfix
    · rw [List.filter_cons_of_neg hitem]
      exact List.infix_cons (ih (List.pairwise_cons.1 h).2)

/-- Among items of different keys one is chosen by its key. -/
theorem filter_same_eq_single {α : Type} {key : α → Key} {items : List α}
    (h : items.Pairwise fun a b => key a ≠ key b) {item : α} (hitem : item ∈ items) :
    items.filter (fun other => (key other).same (key item)) = [item] := by
  induction items with
  | nil => simp at hitem
  | cons head rest ih =>
    obtain ⟨hhead, hrest⟩ := List.pairwise_cons.1 h
    rcases List.mem_cons.1 hitem with rfl | hitem
    · rw [List.filter_cons, if_pos (Key.same_iff.2 rfl), List.filter_eq_nil_iff.2]
      exact fun other hother hsame => hhead other hother (Key.same_iff.1 hsame).symm
    · have hdiffer : ¬(key head).same (key item) = true := fun hsame =>
        hhead item hitem (Key.same_iff.1 hsame)
      rw [List.filter_cons, if_neg hdiffer, ih hrest hitem]

/-! ## Blocks at two levels -/

namespace Blocks

variable {m n : Nat} {descending : Bool} {coarse fine blocks : List Block} {rows : List Entry}

/-- The rows of one group key, gathered from the blocks of a level that is no coarser. -/
theorem filter_keyAt (h : Blocks n blocks rows) (hlevels : m ≤ n) (key : Key) :
    rows.filter (fun row => (Group.keyAt m row.key).same key) =
      (blocks.filter fun block => (Group.keyAt m block.key).same key).flatMap Block.rows := by
  rw [← h.joined]
  apply filter_flatMap_of_alike
  intro block hblock row hrow
  rw [← h.uniform block hblock row hrow, Group.keyAt_keyAt hlevels]

theorem keyAt_key (h : Blocks n blocks rows) {block : Block} (hblock : block ∈ blocks) :
    Group.keyAt n block.key = block.key := by
  obtain ⟨row, -, -, hkey⟩ := h.exists_row hblock
  rw [← hkey, Group.keyAt_keyAt (Nat.le_refl n)]

theorem pairwise_ne (h : Blocks n blocks rows) (horder : Entry.InOrder descending rows) :
    blocks.Pairwise fun a b => a.key ≠ b.key :=
  (h.pairwise_met horder).imp Key.ne_of_met_eq_lt

/-- A block of rows in order has all rows of its key. -/
theorem rows_eq_filter (h : Blocks n blocks rows) (horder : Entry.InOrder descending rows)
    {block : Block} (hblock : block ∈ blocks) :
    block.rows = rows.filter fun row => (Group.keyAt n row.key).same block.key := by
  have hself : blocks.filter (fun other => (Group.keyAt n other.key).same block.key) =
      blocks.filter fun other => other.key.same block.key :=
    List.filter_congr fun other hother => by rw [h.keyAt_key hother]
  rw [h.filter_keyAt (Nat.le_refl n), hself, filter_same_eq_single (h.pairwise_ne horder) hblock]
  exact (List.append_nil _).symm

/-- A block at a coarse level puts whole blocks of a finer level together. -/
theorem rows_eq_flatMap (hcoarse : Blocks m coarse rows) (hfine : Blocks n fine rows)
    (hlevels : m ≤ n) (horder : Entry.InOrder descending rows) {block : Block}
    (hblock : block ∈ coarse) :
    block.rows =
      (fine.filter fun part => (Group.keyAt m part.key).same block.key).flatMap Block.rows :=
  (hcoarse.rows_eq_filter horder hblock).trans (hfine.filter_keyAt hlevels block.key)

/-- Each block of a finer level lies in a block at the coarse level. -/
theorem exists_coarse (hcoarse : Blocks m coarse rows) (hfine : Blocks n fine rows)
    (hlevels : m ≤ n) {part : Block} (hpart : part ∈ fine) :
    ∃ block ∈ coarse, Group.keyAt m part.key = block.key := by
  obtain ⟨row, -, hrow, hfineKey⟩ := hfine.exists_row hpart
  obtain ⟨block, hblock, -, hcoarseKey⟩ := hcoarse.exists_block hrow
  refine ⟨block, hblock, ?_⟩
  rw [← hfineKey, ← hcoarseKey, Group.keyAt_keyAt hlevels]

/-- The blocks of a finer level that lie in one block at the coarse level stand side by side. -/
theorem infix_filter_keyAt (hfine : Blocks n fine rows) (horder : Entry.InOrder descending rows)
    (m : Nat) (key : Key) :
    (fine.filter fun part => (Group.keyAt m part.key).same key) <:+: fine := by
  refine infix_filter_of_convex (fun {a b c} hab hbc ha hc => ?_) (hfine.pairwise_met horder)
  rw [Key.same_iff] at ha hc ⊢
  have hle : (Key.met descending (Group.keyAt m a.key) (Group.keyAt m b.key)).isLE :=
    Group.isLE_keyAt m (by rw [hab]; rfl)
  have hge : (Key.met descending (Group.keyAt m b.key) (Group.keyAt m c.key)).isLE :=
    Group.isLE_keyAt m (by rw [hbc]; rfl)
  rw [ha] at hle
  rw [hc] at hge
  exact Key.met_eq_eq.1 (Std.OrientedCmp.isLE_antisymm hge hle)

end Blocks

/-! ## Counts -/

/-- A group key and the number of rows of the group. -/
structure Tally where
  key : Key
  count : Nat

namespace Tally

def row (tally : Tally) : Row :=
  Row.aggregate tally.key (.nat tally.count)

/-- Whether a count at a level covers a finer one: at level 0 it covers all, and at any other the
one whose key, cut to the level, is its own. -/
def covers (level : Nat) (whole part : Tally) : Bool :=
  decide (level = 0) || (part.key.truncate level).same whole.key

end Tally

namespace Block

def tally (block : Block) : Tally :=
  ⟨block.key, block.rows.length⟩

end Block

namespace Blocks

variable {m n : Nat} {descending : Bool} {coarse fine : List Block} {rows : List Entry}

/-- A count covers a finer one if that is of rows of its group. -/
theorem covers_tally (hcoarse : Blocks m coarse rows) {block : Block} (hblock : block ∈ coarse)
    (part : Block) :
    block.tally.covers m part.tally = (Group.keyAt m part.key).same block.key := by
  rw [Tally.covers]
  by_cases hm : m = 0
  · have hnull : block.key = .null := by
      rw [← hcoarse.keyAt_key hblock, hm, Group.keyAt_zero]
    rw [hnull, hm]
    rfl
  · rw [Group.keyAt_of_pos (by omega)]
    simp [hm, Block.tally]

theorem filter_covers (hcoarse : Blocks m coarse rows) {block : Block} (hblock : block ∈ coarse)
    (fine : List Block) :
    (fine.map Block.tally).filter (block.tally.covers m) =
      (fine.filter fun part => (Group.keyAt m part.key).same block.key).map Block.tally := by
  rw [List.filter_map]
  exact congrArg _ (List.filter_congr fun part _ => hcoarse.covers_tally hblock part)

/-- A count is the sum of those it covers, which stand side by side. -/
theorem tally_covers (hcoarse : Blocks m coarse rows) (hfine : Blocks n fine rows)
    (hlevels : m ≤ n) (horder : Entry.InOrder descending rows) {whole : Tally}
    (hwhole : whole ∈ coarse.map Block.tally) :
    whole.count = (((fine.map Block.tally).filter (whole.covers m)).map Tally.count).sum ∧
      (fine.map Block.tally).filter (whole.covers m) <:+: fine.map Block.tally := by
  obtain ⟨block, hblock, rfl⟩ := List.mem_map.1 hwhole
  rw [hcoarse.filter_covers hblock]
  refine ⟨?_, (hfine.infix_filter_keyAt horder m block.key).map Block.tally⟩
  calc block.rows.length
      = ((fine.filter fun part => (Group.keyAt m part.key).same block.key).flatMap
          Block.rows).length := by
        rw [← hcoarse.rows_eq_flatMap hfine hlevels horder hblock]
    _ = _ := by
        rw [List.length_flatMap, List.map_map]
        rfl

/-- Each finer count is covered by exactly one. -/
theorem covered_once (hcoarse : Blocks m coarse rows) (hfine : Blocks n fine rows)
    (hlevels : m ≤ n) (horder : Entry.InOrder descending rows) {part : Tally}
    (hpart : part ∈ fine.map Block.tally) :
    ∃ whole, (coarse.map Block.tally).filter (fun whole => whole.covers m part) = [whole] := by
  obtain ⟨block, hblock, rfl⟩ := List.mem_map.1 hpart
  obtain ⟨own, hown, hkey⟩ := hcoarse.exists_coarse hfine hlevels hblock
  refine ⟨own.tally, ?_⟩
  have hcovers : coarse.filter (fun whole => whole.tally.covers m block.tally) =
      coarse.filter fun whole => whole.key.same own.key :=
    List.filter_congr fun whole hwhole => by
      rw [hcoarse.covers_tally hwhole, hkey, Key.same_comm]
  rw [List.filter_map]
  exact congrArg (List.map Block.tally)
    (hcovers.trans (filter_same_eq_single (hcoarse.pairwise_ne horder) hown))

/-- If grouping cuts no key, the blocks have the keys of the rows. -/
theorem mem_keys_iff (h : Blocks n fine rows)
    (huncut : ∀ row ∈ rows, Group.keyAt n row.key = row.key) (key : Key) :
    key ∈ fine.map Block.key ↔ key ∈ rows.map Entry.key := by
  constructor
  · intro hmem
    obtain ⟨block, hblock, rfl⟩ := List.mem_map.1 hmem
    obtain ⟨row, -, hrow, hkey⟩ := h.exists_row hblock
    exact List.mem_map.2 ⟨row, hrow, (huncut row hrow).symm.trans hkey⟩
  · intro hmem
    obtain ⟨row, hrow, rfl⟩ := List.mem_map.1 hmem
    obtain ⟨block, hblock, -, hkey⟩ := h.exists_block hrow
    exact List.mem_map.2 ⟨block, hblock, hkey.symm.trans (huncut row hrow)⟩

/-- If grouping cuts no key, a block has as many rows as there are with its key. -/
theorem length_rows (h : Blocks n fine rows) (horder : Entry.InOrder descending rows)
    (huncut : ∀ row ∈ rows, Group.keyAt n row.key = row.key) {block : Block}
    (hblock : block ∈ fine) :
    block.rows.length = (rows.map Entry.key).countP fun key => key.same block.key := by
  rw [List.countP_map, List.countP_eq_length_filter, h.rows_eq_filter horder hblock]
  refine congrArg List.length (List.filter_congr fun row hrow => ?_)
  rw [huncut row hrow]
  rfl

/-- At a level that no array exceeds the counts are those of the different keys. -/
theorem tally_deep (hfine : Blocks n fine rows) (hn : 1 ≤ n)
    (horder : Entry.InOrder descending rows)
    (hdeep : ∀ row ∈ rows, ∀ items, row.key = .array items → items.length ≤ n) :
    ((fine.map Block.tally).map Tally.key).Nodup ∧
      (∀ key, key ∈ (fine.map Block.tally).map Tally.key ↔ key ∈ rows.map Entry.key) ∧
      ∀ part ∈ fine.map Block.tally,
        part.count = (rows.map Entry.key).countP fun key => key.same part.key := by
  have huncut : ∀ row ∈ rows, Group.keyAt n row.key = row.key := fun row hrow =>
    Group.keyAt_of_deep hn (hdeep row hrow)
  have hkeys : (fine.map Block.tally).map Tally.key = fine.map Block.key := List.map_map
  rw [hkeys]
  refine ⟨List.pairwise_map.2 (hfine.pairwise_ne horder), hfine.mem_keys_iff huncut,
    fun part hpart => ?_⟩
  obtain ⟨block, hblock, rfl⟩ := List.mem_map.1 hpart
  exact hfine.length_rows horder huncut hblock

end Blocks

theorem Group.reduceAll_count (blocks : List Block) :
    Group.reduceAll .count (blocks.map Block.group) =
      .ok ((blocks.map Block.tally).map Tally.row) := by
  rw [Group.reduceAll_eq_ok, List.forall₂_map_left_iff, List.forall₂_map_right_iff,
    List.forall₂_map_right_iff, List.forall₂_same]
  intro block _
  refine ⟨.nat block.rows.length, ?_, rfl⟩
  rw [ReduceFunction.count, Block.group, List.length_map]

/-! ## Scans at two levels -/

/-- The same request at a level of grouping. -/
def Request.atLevel (request : Request) (level : Nat) : Request :=
  { request with groupLevel := level }

namespace Store

/-- An unpaged count of groups answers the number of rows of each. -/
theorem scanIndex_count {s : Store} {id : IndexId} {view : View} {request : Request} {level : Nat}
    {blocks : List Block} (hview : s.view? id = some view) (hcount : view.reduce = some .count)
    (hasked : request.reduce = true) (hskip : request.skip = 0) (hlimit : request.limit = none)
    (hblocks : Blocks level blocks (view.select request.selection request.descending)) :
    s.scanIndex id (request.atLevel level) =
      .ok ⟨(blocks.map Block.tally).map Tally.row, view.indexed.getD 0⟩ := by
  have hrows : Group.reduceAll .count (Group.runs (request.atLevel level).groupLevel
      (view.select (request.atLevel level).selection (request.atLevel level).descending)) =
      .ok ((blocks.map Block.tally).map Tally.row) := by
    rw [← Group.reduceAll_count, ← Group.runs_of_blocks hblocks]
    rfl
  have hreduce : (request.atLevel level).reduce = true := hasked
  rw [scanIndex_reduced hview hcount hreduce hrows]
  simp [Request.atLevel, hskip, hlimit, page]

/-- After any history, counts of the groups of a range at two levels agree: a count at the coarser
level is the sum of those it covers at the finer one, these stand side by side, and each count at
the finer level is covered once.  A level that no array among the selected keys exceeds counts the
rows of each key. -/
theorem counts_roll_up (numbered : Nat) (history : List Command) (request : Request)
    {id : IndexId} {view : View} {range : KeyRange} {m n : Nat}
    (hview : (after numbered history).view? id = some view)
    (hrange : request.selection = .range range) (hcount : view.reduce = some .count)
    (hasked : request.reduce = true) (hskip : request.skip = 0) (hlimit : request.limit = none)
    (hlevels : m ≤ n) :
    ∃ (selected : List Row) (wholes parts : List Tally),
      (after numbered history).scanIndex id request.unreduced =
        .ok ⟨selected, view.indexed.getD 0⟩ ∧
      (after numbered history).scanIndex id (request.atLevel m) =
        .ok ⟨wholes.map Tally.row, view.indexed.getD 0⟩ ∧
      (after numbered history).scanIndex id (request.atLevel n) =
        .ok ⟨parts.map Tally.row, view.indexed.getD 0⟩ ∧
      (∀ whole ∈ wholes,
        whole.count = ((parts.filter (whole.covers m)).map Tally.count).sum ∧
        parts.filter (whole.covers m) <:+: parts) ∧
      (∀ part ∈ parts, ∃ whole, wholes.filter (fun whole => whole.covers m part) = [whole]) ∧
      (1 ≤ n → (∀ row ∈ selected, ∀ items, row.key = .array items → items.length ≤ n) →
        (parts.map Tally.key).Nodup ∧
        (∀ key, key ∈ parts.map Tally.key ↔ key ∈ selected.map Row.key) ∧
        ∀ part ∈ parts,
          part.count = (selected.map Row.key).countP fun key => key.same part.key) := by
  have horder : Entry.InOrder request.descending
      (view.select request.selection request.descending) := by
    rw [hrange]
    exact view.inOrder_select range request.descending
  obtain ⟨coarse, hcoarse⟩ := exists_blocks m (view.select request.selection request.descending)
  obtain ⟨fine, hfine⟩ := exists_blocks n (view.select request.selection request.descending)
  refine ⟨_, coarse.map Block.tally, fine.map Block.tally, scanIndex_unreduced hview request,
    scanIndex_count hview hcount hasked hskip hlimit hcoarse,
    scanIndex_count hview hcount hasked hskip hlimit hfine,
    fun whole hwhole => hcoarse.tally_covers hfine hlevels horder hwhole,
    fun part hpart => hcoarse.covered_once hfine hlevels horder hpart, fun hn hdeep => ?_⟩
  rw [map_key_mappedRow]
  refine hfine.tally_deep hn horder fun entry hentry items hitems => ?_
  refine hdeep _ (List.mem_map_of_mem hentry) items ?_
  rw [key_mappedRow, hitems]

/-- The text comes first and is counted by itself, and the arrays, which share their first item, are
counted together; by whole keys, at the deepest level there is, each key counts for itself. -/
theorem roll_up_mixedKeys :
    ∃ (view : View) (wholes parts : List Tally),
      (after 0 mixedKeys).view? ⟨1⟩ = some view ∧ view.reduce = some .count ∧
      (after 0 mixedKeys).scanIndex ⟨1⟩ (countsAt 1 false) = .ok ⟨wholes.map Tally.row, 4⟩ ∧
      wholes.map Tally.row =
        [Row.aggregate (.string "x") (.nat 1), Row.aggregate (.array [.string "x"]) (.nat 3)] ∧
      (∀ whole ∈ wholes,
        whole.count = ((parts.filter (whole.covers 1)).map Tally.count).sum ∧
        parts.filter (whole.covers 1) <:+: parts) ∧
      (after 0 mixedKeys).scanIndex ⟨1⟩ (countsAt Params.exactLevel false) =
        .ok ⟨parts.map Tally.row, 4⟩ ∧
      parts.map Tally.row =
        [Row.aggregate (.string "x") (.nat 1), Row.aggregate (.array [.string "x"]) (.nat 1),
          Row.aggregate (.array [.string "x", .bool false]) (.nat 1),
          Row.aggregate (.array [.string "x", .bool true]) (.nat 1)] ∧
      (parts.map Tally.key).Nodup := by
  have hview : (after 0 mixedKeys).view? ⟨1⟩ = some _ := rfl
  have hlevels : 1 ≤ Params.exactLevel := by decide
  obtain ⟨selected, wholes, parts, hselected, hwholes, hparts, hcovers, -, hdeep⟩ :=
    counts_roll_up 0 mixedKeys (countsAt 1 false) hview rfl rfl rfl rfl rfl hlevels
  have hkeys : selected.map Row.key = [.string "x", .array [.string "x"],
      .array [.string "x", .bool false], .array [.string "x", .bool true]] := by
    cases hselected
    rfl
  have hlengths : ∀ row ∈ selected, ∀ items, row.key = .array items →
      items.length ≤ Params.exactLevel := by
    intro row hrow items hitems
    have hmem := List.mem_map_of_mem (f := Row.key) hrow
    rw [hkeys, hitems] at hmem
    rcases (by simpa using hmem) with rfl | rfl | rfl <;> decide
  exact ⟨_, wholes, parts, rfl, rfl, hwholes, (congrArg Answer.rows (Except.ok.inj hwholes)).symm,
    hcovers, hparts, (congrArg Answer.rows (Except.ok.inj hparts)).symm,
    (hdeep hlevels hlengths).1⟩

end Store

end Viewbase
