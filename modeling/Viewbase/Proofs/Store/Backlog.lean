import Viewbase.Proofs.Store.Chronicle
import Viewbase.Proofs.Store.Naming
import Viewbase.Proofs.Store.Succession

/-!
The log of changes, over a whole history.

All writes of a history are dated by the generations they made, one after the other.  The log holds
the last of them, from behind some generation that every built view has taken in (`Backlogged`);
after a write, and after a view was brought up to date, it goes back just as far as the built views
need (`Tight`).  Main statement: `log_covers_and_is_tight`.

Whatever prunes the log makes it tight (`Backlogged.tight_prune`), and all commands keep the log in
line with the writes (`Backlogged.perform`).
-/

namespace Viewbase.Store

/-- The generation and the document of a write that succeeds. -/
def writes? (s : Store) (command : Command) : Option (Nat × String) :=
  command.edit?.bind fun change =>
    match s.write change.1 change.2 with
    | .ok (written, _) => some (written.generation, change.1)
    | .error _ => none

/-- The writes that succeeded in a run, each with the generation that it made. -/
abbrev writes (s : Store) (history : List Command) : List (Nat × String) :=
  s.chronicle writes? history

/-- The log holds the generations that some built view has yet to take in, and no others. -/
def Tight (s : Store) : Prop :=
  ∀ g, g ∈ s.log.map Prod.fst ↔
    g ≤ s.generation ∧ ∃ view ∈ s.views, ∃ i, view.indexed = some i ∧ i < g

/-- The log is what is left of the writes. -/
structure Backlogged (s : Store) (writes : List (Nat × String)) : Prop where
  dated : writes.map Prod.fst = List.range' 1 s.generation
  reached : ∀ view ∈ s.views, ∀ i, view.indexed = some i → i ≤ s.generation
  /-- The writes up to some generation are forgotten, and every built view has taken them in. -/
  rest : ∃ cut ≤ s.generation, (∀ view ∈ s.views, ∀ i, view.indexed = some i → cut ≤ i) ∧
    s.log = writes.filter fun write => decide (cut < write.1)

variable {s s' : Store} {writes : List (Nat × String)}

theorem backlogged_empty (numbered : Nat) : (empty numbered).Backlogged [] where
  dated := rfl
  reached := nofun
  rest := ⟨0, Nat.le_refl _, nofun, rfl⟩

/-! ## Pruning -/

/-- The floor is the generation of some built view, or the current one if no view is built. -/
theorem indexedFloor_cases (s : Store) :
    (∃ view ∈ s.views, view.indexed = some s.indexedFloor) ∨
      (∀ view ∈ s.views, view.indexed = none) ∧ s.indexedFloor = s.generation := by
  have hfold : ∀ (rest : List Nat) (first : Nat), rest.foldl Nat.min first ∈ first :: rest := by
    intro rest
    induction rest with
    | nil => exact fun first => List.mem_singleton.2 rfl
    | cons g rest ih =>
      intro first
      rcases List.mem_cons.1 (ih (Nat.min first g)) with heq | hmem
      · rw [List.foldl_cons, heq]
        rcases Nat.le_total first g with hle | hle
        · exact List.mem_cons.2 (.inl (Nat.min_eq_left hle))
        · exact List.mem_cons_of_mem _ (List.mem_cons.2 (.inl (Nat.min_eq_right hle)))
      · exact List.mem_cons_of_mem _ (List.mem_cons_of_mem _ hmem)
  rw [indexedFloor]
  cases hbuilt : s.views.filterMap View.indexed with
  | nil =>
    refine .inr ⟨fun view hview => ?_, rfl⟩
    cases hindexed : view.indexed with
    | none => rfl
    | some i =>
      have hmem : i ∈ s.views.filterMap View.indexed := List.mem_filterMap.2 ⟨view, hview, hindexed⟩
      simp [hbuilt] at hmem
  | cons first rest =>
    have hmem : rest.foldl Nat.min first ∈ s.views.filterMap View.indexed := by
      rw [hbuilt]
      exact hfold rest first
    obtain ⟨view, hview, hindexed⟩ := List.mem_filterMap.1 hmem
    exact .inl ⟨view, hview, hindexed⟩

/-- Some built view has yet to take in a generation just if the floor is below it. -/
theorem indexedFloor_lt_iff {g : Nat} (hg : g ≤ s.generation) :
    s.indexedFloor < g ↔ ∃ view ∈ s.views, ∃ i, view.indexed = some i ∧ i < g := by
  constructor
  · intro hfloor
    rcases s.indexedFloor_cases with ⟨view, hview, hindexed⟩ | ⟨-, heq⟩
    · exact ⟨view, hview, _, hindexed, hfloor⟩
    · omega
  · rintro ⟨view, hview, i, hindexed, hi⟩
    exact Nat.lt_of_le_of_lt (indexedFloor_le hview hindexed) hi

/-- Of what is left of the writes, the changes above the floor are all writes above the floor. -/
theorem Backlogged.log_prune (h : s.Backlogged writes) :
    s.prune.log = writes.filter fun write => decide (s.indexedFloor < write.1) := by
  obtain ⟨cut, hcut, hcovers, hlog⟩ := h.rest
  have hfloor : cut ≤ s.indexedFloor := by
    rcases s.indexedFloor_cases with ⟨view, hview, hindexed⟩ | ⟨-, heq⟩
    · exact hcovers view hview _ hindexed
    · omega
  rw [prune, hlog, List.filter_filter]
  refine List.filter_congr fun write _ => ?_
  rw [Bool.and_eq_left_iff_imp, decide_eq_true_iff, decide_eq_true_iff]
  omega

theorem Backlogged.prune (h : s.Backlogged writes) : s.prune.Backlogged writes where
  dated := h.dated
  reached := h.reached
  rest := by
    refine ⟨s.indexedFloor, ?_, fun view hview i hindexed => indexedFloor_le hview hindexed,
      h.log_prune⟩
    rcases s.indexedFloor_cases with ⟨view, hview, hindexed⟩ | ⟨-, heq⟩
    · exact h.reached view hview _ hindexed
    · exact Nat.le_of_eq heq

/-- The generations of the writes are those there were so far. -/
theorem Backlogged.mem_generations (h : s.Backlogged writes) {g : Nat} :
    g ∈ writes.map Prod.fst ↔ 1 ≤ g ∧ g ≤ s.generation := by
  rw [h.dated, List.mem_range'_1]
  omega

/-- Pruning makes the log tight. -/
theorem Backlogged.tight_prune (h : s.Backlogged writes) : s.prune.Tight := by
  intro g
  have hmem : g ∈ s.prune.log.map Prod.fst ↔ g ∈ writes.map Prod.fst ∧ s.indexedFloor < g := by
    rw [h.log_prune, List.mem_map, List.mem_map]
    simp only [List.mem_filter, decide_eq_true_iff]
    constructor
    · rintro ⟨write, ⟨hwrite, hfloor⟩, rfl⟩
      exact ⟨⟨write, hwrite, rfl⟩, hfloor⟩
    · rintro ⟨⟨write, hwrite, rfl⟩, hfloor⟩
      exact ⟨write, ⟨hwrite, hfloor⟩, rfl⟩
  rw [hmem, h.mem_generations]
  constructor
  · rintro ⟨⟨-, hg⟩, hfloor⟩
    exact ⟨hg, (indexedFloor_lt_iff hg).1 hfloor⟩
  · rintro ⟨hg, hbehind⟩
    have hfloor := (indexedFloor_lt_iff hg).2 hbehind
    exact ⟨⟨by omega, hg⟩, hfloor⟩

/-- A built view finds every write that it has yet to take in. -/
theorem Backlogged.covers (h : s.Backlogged writes) {view : View} (hview : view ∈ s.views) {i : Nat}
    (hindexed : view.indexed = some i) {g : Nat} (hi : i < g) (hg : g ≤ s.generation) :
    ∃ id, (g, id) ∈ writes ∧ (g, id) ∈ s.log := by
  obtain ⟨cut, -, hcovers, hlog⟩ := h.rest
  have hcut := hcovers view hview i hindexed
  have hmem : g ∈ writes.map Prod.fst := h.mem_generations.2 ⟨by omega, hg⟩
  obtain ⟨write, hwrite, rfl⟩ := List.mem_map.1 hmem
  refine ⟨write.2, hwrite, ?_⟩
  rw [hlog]
  exact List.mem_filter.2 ⟨hwrite, decide_eq_true (Nat.lt_of_le_of_lt hcut hi)⟩

/-! ## Commands -/

/-- Views may go, and unbuilt ones may come. -/
theorem Backlogged.of_views (h : s.Backlogged writes) (hgeneration : s'.generation = s.generation)
    (hlog : s'.log = s.log) (hviews : ∀ view ∈ s'.views, view ∈ s.views ∨ view.indexed = none) :
    s'.Backlogged writes := by
  have hold : ∀ view ∈ s'.views, ∀ i, view.indexed = some i → view ∈ s.views := by
    intro view hview i hindexed
    rcases hviews view hview with hmem | hnone
    · exact hmem
    · simp [hnone] at hindexed
  obtain ⟨cut, hcut, hcovers, hrest⟩ := h.rest
  refine ⟨hgeneration ▸ h.dated, ?_, cut, hgeneration ▸ hcut, ?_, hlog.trans hrest⟩
  · intro view hview i hindexed
    rw [hgeneration]
    exact h.reached view (hold view hview i hindexed) i hindexed
  · intro view hview i hindexed
    exact hcovers view (hold view hview i hindexed) i hindexed

/-- A view that is unbuilt, or up to date, may take the place of another. -/
theorem Backlogged.setView (h : s.Backlogged writes) {view : View}
    (hbuilt : ∀ i, view.indexed = some i → i = s.generation) :
    (s.setView view).Backlogged writes := by
  obtain ⟨cut, hcut, hcovers, hrest⟩ := h.rest
  refine ⟨h.dated, ?_, cut, hcut, ?_, hrest⟩
  · intro other hother i hindexed
    rcases mem_views_setView hother with hother | rfl
    · exact h.reached other hother i hindexed
    · exact Nat.le_of_eq (hbuilt i hindexed)
  · intro other hother i hindexed
    rcases mem_views_setView hother with hother | rfl
    · exact hcovers other hother i hindexed
    · rw [hbuilt i hindexed]
      exact hcut

/-- A write that succeeds dates one more generation. -/
theorem Backlogged.write (h : s.Backlogged writes) {id : String} {edit : Edit} {doc : Document}
    (hwrite : s.write id edit = .ok (s', doc)) :
    s'.Backlogged (writes ++ [(s'.generation, id)]) ∧ s'.Tight := by
  obtain ⟨-, rfl⟩ := write_eq_ok hwrite
  obtain ⟨cut, hcut, hcovers, hrest⟩ := h.rest
  have hlogged : Backlogged { s with
      generation := s.generation + 1
      documents := placeDocument doc s.documents
      log := s.log ++ [(s.generation + 1, id)] } (writes ++ [(s.generation + 1, id)]) := by
    refine ⟨?_, ?_, cut, Nat.le_succ_of_le hcut, hcovers, ?_⟩
    · rw [List.map_append, h.dated, List.range'_1_concat, Nat.add_comm 1]
      rfl
    · exact fun view hview i hindexed => Nat.le_succ_of_le (h.reached view hview i hindexed)
    · rw [List.filter_append, hrest, List.filter_cons_of_pos, List.filter_nil]
      exact decide_eq_true (Nat.lt_succ_of_le hcut)
  exact ⟨hlogged.prune, hlogged.tight_prune⟩

/-- A refresh leaves the views as they were, but for one that it leaves unbuilt; or it brings a view
up to date, and the log is tight. -/
theorem Backlogged.refresh_cases (h : s.Backlogged writes) (id : IndexId) :
    (s.refresh id).1.Backlogged writes ∧
      ((s.refresh id).1.Tight ∨ ∀ other view, (s.refresh id).1.view? other = some view →
        s.view? other = some view ∨ view.indexed = none) := by
  rw [Store.refresh]
  split
  · exact ⟨h, .inr fun _ _ hview => .inl hview⟩
  next found hfound =>
    split
    · exact ⟨h, .inr fun _ _ hview => .inl hview⟩
    · rcases catchUp_cases s found with ⟨halfway, error, halike, hnone, heq⟩ |
        ⟨current, -, hsome, heq⟩
      · rw [heq]
        refine ⟨h.setView fun i hindexed => ?_, .inr fun other view hview => ?_⟩
        · rw [hnone] at hindexed
          cases hindexed
        · by_cases hother : other = id
          · rw [hother, view?_setView hfound halike] at hview
            exact .inr (Option.some.inj hview ▸ hnone)
          · have hid : found.id = id := by simpa using List.find?_some hfound
            rw [view?_setView_of_ne (by rw [halike.id, hid]; exact Ne.symm hother)] at hview
            exact .inl hview
      · rw [heq]
        have hset : (s.setView current).Backlogged writes := h.setView fun i hindexed => by
          rw [hsome] at hindexed
          exact (Option.some.inj hindexed).symm
        exact ⟨hset.prune, .inl hset.tight_prune⟩

theorem Backlogged.counted (h : s.Backlogged writes) :
    { s with scans := s.scans + 1 }.Backlogged writes :=
  h.of_views rfl rfl fun _ hview => .inl hview

theorem Backlogged.scan (h : s.Backlogged writes) (request : Request) :
    (s.scan request).1.Backlogged writes := by
  rcases fst_scan s request with heq | ⟨id, -, heq⟩
  · rw [heq]
    exact h.counted
  · rw [heq]
    exact (h.counted.refresh_cases id).1

/-- A scan that leaves a view built, and at another generation than before, makes the log tight. -/
theorem Backlogged.tight_scan (h : s.Backlogged writes) {request : Request} {id : IndexId}
    {view view' : View} (hview : s.view? id = some view)
    (hview' : (s.scan request).1.view? id = some view') (hbuilt : view'.indexed ≠ none)
    (hchanged : view'.indexed ≠ view.indexed) : (s.scan request).1.Tight := by
  have hsame : s.view? id ≠ some view' := by
    rw [hview]
    rintro ⟨⟩
    exact hchanged rfl
  rcases fst_scan s request with heq | ⟨target, -, heq⟩
  · rw [heq] at hview'
    exact absurd hview' hsame
  · rw [heq] at hview' ⊢
    rcases (h.counted.refresh_cases target).2 with htight | hkept
    · exact htight
    · rcases hkept id view' hview' with hold | hnone
      · exact absurd hold hsame
      · exact absurd hnone hbuilt

/-- A command that is no write leaves the writes as they are. -/
theorem Backlogged.quiet (h : s.Backlogged writes) {command : Command}
    (hedit : command.edit? = none) : (s.perform command).Backlogged writes := by
  cases command with
  | put id body => cases hedit
  | delete id => cases hedit
  | addConflict id rev => cases hedit
  | resolveConflicts id => cases hedit
  | defineView name map reduce =>
    exact h.of_views (generation_defineView s name map reduce) (log_defineView s name map reduce)
      fun view hview => (mem_views_defineView hview).imp_right (congrArg View.indexed)
  | createEphemeral map =>
    exact h.of_views rfl rfl
      fun view hview => (mem_views_addView hview).imp_right (congrArg View.indexed)
  | deleteIndex index =>
    rw [perform]
    split
    next hdelete =>
      have hwithout := without_of_deleteIndex hdelete
      exact h.of_views hwithout.generation hwithout.log
        fun view hview => .inl (mem_views_deleteIndex hdelete hview)
    next => exact h
  | subscribe index observer =>
    rw [perform]
    split
    next hsubscribe =>
      obtain ⟨-, -, rfl⟩ := subscribe_eq_ok hsubscribe
      exact h.of_views rfl rfl fun _ hview => .inl hview
    next => exact h
  | unsubscribe token => exact h.of_views rfl rfl fun _ hview => .inl hview
  | scan request => exact h.scan request

/-- Every command keeps the log in line with the writes. -/
theorem Backlogged.perform (h : s.Backlogged writes) (command : Command) :
    (s.perform command).Backlogged (writes ++ (s.writes? command).toList) := by
  rw [writes?]
  cases hedit : command.edit? with
  | none =>
    rw [Option.bind_none, Option.toList_none, List.append_nil]
    exact h.quiet hedit
  | some change =>
    obtain ⟨id, edit⟩ := change
    rw [perform_of_edit? hedit, Option.bind_some, written]
    cases hwrite : s.write id edit with
    | error error =>
      rw [Option.toList_none, List.append_nil]
      exact h
    | ok result => exact (h.write hwrite).1

/-! ## Histories -/

theorem backlogged_after (numbered : Nat) (history : List Command) :
    (after numbered history).Backlogged ((empty numbered).writes history) :=
  chronicle_induct backlogged_empty (fun _ _ command h => h.perform command) numbered history

/-- After any history the writes are dated by the generations from one to the current one, the log
is part of them, and every built view is of a generation so far and finds in the log all writes
since.  After a write, and after a scan that left a view built at another generation than before, the
log goes back no further than some built view needs. -/
theorem log_covers_and_is_tight (numbered : Nat) (history : List Command) :
    let s := after numbered history
    let writes := (empty numbered).writes history
    (writes.map Prod.fst = List.range' 1 s.generation ∧ s.log.Sublist writes) ∧
    (∀ view ∈ s.views, ∀ i, view.indexed = some i → i ≤ s.generation ∧
      ∀ g, i < g → g ≤ s.generation → ∃ id, (g, id) ∈ writes ∧ (g, id) ∈ s.log) ∧
    (∀ id edit written doc, s.write id edit = .ok (written, doc) → written.Tight) ∧
    (∀ request id view view', s.view? id = some view →
      (s.scan request).1.view? id = some view' → view'.indexed ≠ none →
      view'.indexed ≠ view.indexed → (s.scan request).1.Tight) := by
  intro s writes
  have hlogged : s.Backlogged writes := backlogged_after numbered history
  refine ⟨⟨hlogged.dated, ?_⟩, fun view hview i hindexed => ?_, ?_, ?_⟩
  · obtain ⟨cut, -, -, hlog⟩ := hlogged.rest
    exact hlog ▸ List.filter_sublist
  · exact ⟨hlogged.reached view hview i hindexed,
      fun g hi hg => hlogged.covers hview hindexed hi hg⟩
  · exact fun id edit written doc hwrite => (hlogged.write hwrite).2
  · exact fun request id view view' hview hview' hbuilt hchanged =>
      hlogged.tight_scan hview hview' hbuilt hchanged

/-- Two views are built, one of them before the second write and the other one behind it. -/
def uneven : List Command :=
  [.put "a" (.bool true), .defineView "v" bodyById none, .scan (wholeOf ⟨1⟩ .refreshBefore),
   .put "b" (.bool true), .defineView "w" bodyById none, .scan (wholeOf ⟨2⟩ .refreshBefore),
   .put "c" (.bool true)]

/-- The log goes back for the view behind, and after a scan that brings it up to date for the other
one alone. -/
theorem backlog_of_uneven :
    (∃ view ∈ (after 0 uneven).views, view.indexed = some 1 ∧
      ∀ g, 1 < g → g ≤ 3 → ∃ id, (g, id) ∈ (after 0 uneven).log) ∧
    (after 0 uneven).log = [(2, "b"), (3, "c")] ∧
    ((after 0 uneven).scan (wholeOf ⟨1⟩ .refreshAfter)).1.Tight ∧
    ((after 0 uneven).scan (wholeOf ⟨1⟩ .refreshAfter)).1.log = [(3, "c")] := by
  obtain ⟨view, hview, hindexed⟩ : ∃ view, (after 0 uneven).view? ⟨1⟩ = some view ∧
      view.indexed = some 1 := ⟨_, rfl, rfl⟩
  obtain ⟨view', hview', hindexed'⟩ : ∃ view',
      ((after 0 uneven).scan (wholeOf ⟨1⟩ .refreshAfter)).1.view? ⟨1⟩ = some view' ∧
        view'.indexed = some 3 := ⟨_, rfl, rfl⟩
  have hmem : view ∈ (after 0 uneven).views := List.mem_of_find?_eq_some hview
  obtain ⟨-, hcovers, -, htight⟩ := log_covers_and_is_tight 0 uneven
  refine ⟨⟨view, hmem, hindexed, fun g hlow hhigh => ?_⟩, rfl, ?_, rfl⟩
  · obtain ⟨id, -, hlogged⟩ := (hcovers view hmem 1 hindexed).2 g hlow hhigh
    exact ⟨id, hlogged⟩
  · refine htight (wholeOf ⟨1⟩ .refreshAfter) ⟨1⟩ view view' hview hview' ?_ ?_
    · rw [hindexed']
      exact Option.some_ne_none 3
    · rw [hindexed, hindexed']
      decide

end Viewbase.Store
