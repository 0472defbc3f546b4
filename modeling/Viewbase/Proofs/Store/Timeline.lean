import Viewbase.Proofs.Store.Changes
import Viewbase.Store.History
import Mathlib.Data.List.Induction

/-!
The documents of every generation, and what a store keeps of them.

A timeline says which documents there were at each generation.  A store follows a timeline if every
built view reflects the documents of the generation it notes, and the log names every document that
changed since (`Follows`).  Every command keeps this (`Follows.perform`), so every history has a
timeline (`exists_timeline`).
-/

namespace Viewbase

open Entry (rowsAt)

/-- The documents of each generation. -/
abbrev Timeline := Nat → List Document

namespace Timeline

/-- The timeline with the documents of one generation replaced. -/
def update (past : Timeline) (generation : Nat) (documents : List Document) : Timeline :=
  fun g => if g = generation then documents else past g

end Timeline

namespace Store

/-- What a store keeps of the documents of earlier generations. -/
structure Follows (past : Timeline) (s : Store) : Prop where
  now : past s.generation = s.documents
  sorted : s.documents.Pairwise Document.Before
  reached : ∀ view ∈ s.views, ∀ g, view.indexed = some g → g ≤ s.generation
  reflects : ∀ view ∈ s.views, ∀ g, view.indexed = some g → view.Reflects (past g)
  /-- A document that the log does not name is as it was. -/
  logged : ∀ view ∈ s.views, ∀ g, view.indexed = some g → ∀ id ∉ s.changedAfter g,
    Document.named id (past g) = Document.named id s.documents

variable {past : Timeline} {s : Store}

theorem follows_empty (numbered : Nat) : (empty numbered).Follows fun _ => [] where
  now := rfl
  sorted := .nil
  reached := by simp [empty]
  reflects := by simp [empty]
  logged := by simp [empty]

theorem view?_setView {id : IndexId} {view view' : View} (hview : s.view? id = some view)
    (halike : view'.Alike view) : (s.setView view').view? id = some view' := by
  have hid : view'.id = id := halike.id.trans (by simpa using List.find?_some hview)
  have hfind : ∀ {views : List View}, views.find? (fun view => decide (view.id = id)) = some view →
      (views.map fun old => if old.id = view'.id then view' else old).find?
        (fun view => decide (view.id = id)) = some view' := by
    intro views h
    induction views with
    | nil => simp at h
    | cons head rest ih =>
      rw [List.map_cons]
      by_cases hhead : head.id = id
      · rw [if_pos (hhead.trans hid.symm), List.find?_cons_of_pos (by simpa using hid)]
      · rw [List.find?_cons_of_neg (by simpa using hhead)] at h
        rw [if_neg (fun heq => hhead (heq.trans hid)),
          List.find?_cons_of_neg (by simpa using hhead), ih h]
  exact hfind hview

/-! ## Indexes and subscriptions -/

/-- Removing views and adding unbuilt ones changes nothing that a store keeps. -/
theorem Follows.of_views (h : s.Follows past) {s' : Store}
    (hgeneration : s'.generation = s.generation) (hdocuments : s'.documents = s.documents)
    (hlog : s'.log = s.log)
    (hviews : ∀ view ∈ s'.views, view ∈ s.views ∨ view.indexed = none) : s'.Follows past := by
  have hold : ∀ view ∈ s'.views, ∀ g, view.indexed = some g → view ∈ s.views := by
    intro view hview g hindexed
    rcases hviews view hview with hmem | hnone
    · exact hmem
    · simp [hnone] at hindexed
  refine ⟨by rw [hgeneration, hdocuments, h.now], hdocuments ▸ h.sorted, ?_, ?_, ?_⟩
  · intro view hview g hindexed
    rw [hgeneration]
    exact h.reached view (hold view hview g hindexed) g hindexed
  · intro view hview g hindexed
    exact h.reflects view (hold view hview g hindexed) g hindexed
  · intro view hview g hindexed id hid
    rw [hdocuments]
    rw [changedAfter, hlog] at hid
    exact h.logged view (hold view hview g hindexed) g hindexed id hid

theorem mem_views_addView {descriptor : Descriptor} {map : MapFunction}
    {reduce : Option ReduceFunction} {view : View}
    (hview : view ∈ (s.addView descriptor map reduce).views) :
    view ∈ s.views ∨ view = .unbuilt descriptor map reduce := by
  rcases List.mem_append.1 hview with hold | hnew
  · exact .inl hold
  · exact .inr (List.mem_singleton.1 hnew)

theorem mem_views_defineView {name : String} {map : MapFunction} {reduce : Option ReduceFunction}
    {view : View} (hview : view ∈ (s.defineView name map reduce).2.views) :
    view ∈ s.views ∨ view = .unbuilt (s.defineView name map reduce).1 map reduce := by
  rcases mem_views_addView hview with hold | hnew
  · left
    simp only at hold
    split at hold
    · exact (List.mem_filter.1 hold).1
    · exact hold
  · exact .inr hnew

theorem Follows.defineView (h : s.Follows past) (name : String) (map : MapFunction)
    (reduce : Option ReduceFunction) : (s.defineView name map reduce).2.Follows past := by
  refine h.of_views ?_ ?_ ?_ fun view hview =>
    (mem_views_defineView hview).imp_right (congrArg View.indexed)
  all_goals
    simp only [Store.defineView, addView]
    split <;> rfl

theorem Follows.createEphemeral (h : s.Follows past) (map : MapFunction) :
    (s.createEphemeral map).2.Follows past := by
  refine h.of_views rfl rfl rfl fun view hview => ?_
  exact (mem_views_addView hview).imp_right (congrArg View.indexed)

theorem Follows.deleteIndex (h : s.Follows past) {index : Descriptor} {s' : Store}
    (hdelete : s.deleteIndex index = .ok s') : s'.Follows past := by
  have hremoved : (s.removeView index.id).Follows past :=
    h.of_views rfl rfl rfl fun view hview => .inl (List.mem_filter.1 hview).1
  obtain ⟨-, -, ⟨name, -, -, rfl⟩ | ⟨-, rfl⟩⟩ := deleteIndex_eq_ok hdelete
  · exact hremoved.of_views rfl rfl rfl fun view hview => .inl hview
  · exact hremoved

/-! ## Writes -/

/-- Forgetting changes that every built view has taken in changes nothing that a store keeps. -/
theorem Follows.prune (h : s.Follows past) : s.prune.Follows past where
  now := h.now
  sorted := h.sorted
  reached := h.reached
  reflects := h.reflects
  logged := by
    intro view hview g hindexed
    have hkept := changedAfter_prune (s := s) hview hindexed
    rw [hkept]
    exact h.logged view hview g hindexed

/-- A write makes the documents of a new generation, and leaves those of earlier ones alone. -/
theorem Follows.write (h : s.Follows past) {id : String} {edit : Edit} {s' : Store} {doc : Document}
    (hid : doc.id = id) (hwrite : s.write id edit = .ok (s', doc)) :
    s'.Follows (past.update (s.generation + 1) s'.documents) := by
  obtain ⟨-, rfl⟩ := write_eq_ok hwrite
  apply Follows.prune
  have hpast : ∀ view ∈ s.views, ∀ g, view.indexed = some g → ∀ documents,
      past.update (s.generation + 1) documents g = past g := by
    intro view hview g hindexed documents
    have hreached := h.reached view hview g hindexed
    exact if_neg (by omega)
  refine ⟨if_pos rfl, pairwise_placeDocument doc h.sorted, ?_, ?_, ?_⟩
  · intro view hview g hindexed
    exact Nat.le_trans (h.reached view hview g hindexed) (Nat.le_succ _)
  · intro view hview g hindexed
    rw [hpast view hview g hindexed]
    exact h.reflects view hview g hindexed
  · intro view hview g hindexed other hother
    have hreached := h.reached view hview g hindexed
    simp only [mem_changedAfter, List.mem_append, List.mem_singleton, not_exists, not_and] at hother
    have hne : doc.id ≠ other := by
      rw [hid]
      exact hother _ (.inr rfl) (by simp only; omega)
    have hunlogged : other ∉ s.changedAfter g := by
      rw [mem_changedAfter]
      rintro ⟨change, hchange, hlater, hnames⟩
      exact hother change (.inl hchange) hlater hnames
    rw [hpast view hview g hindexed, named_placeDocument hne]
    exact h.logged view hview g hindexed other hunlogged

/-! ## Refreshes -/

/-- A view that reflects earlier documents, less those that changed since, has at each position what
the unchanged documents emit. -/
theorem rowsAt_withdraw {view : View} {g : Nat} {ids : List String}
    (hreflects : view.Reflects (past g))
    (hlogged : ∀ id ∉ ids, Document.named id (past g) = Document.named id s.documents)
    (position : Position) :
    rowsAt position (view.withdraw (some ids)).tree.entries =
      if ids.contains position.docId then []
      else rowsAt position ((Document.living s.documents).flatMap view.rowsOf) := by
  have hentries : (view.withdraw (some ids)).tree.entries =
      view.tree.entries.filter fun entry => !ids.contains entry.position.docId :=
    View.entries_removeAll view.tree ids
  rw [hentries, Entry.rowsAt_filter (fun position => !ids.contains position.docId)]
  by_cases hmem : position.docId ∈ ids
  · simp [hmem]
  · simp only [List.contains_eq_mem, hmem, decide_false, Bool.not_false, if_true,
      Bool.false_eq_true, if_false]
    rw [(View.reflects_iff.1 hreflects).2, View.rowsAt_flatMap_rowsOf, ← Document.living_named,
      hlogged _ hmem, Document.living_named, ← View.rowsAt_flatMap_rowsOf]

/-- Taking the changed documents in again, after taking them out, leaves at each position what the
documents there are emit. -/
theorem rowsAt_replay (hsorted : s.documents.Pairwise Document.Before) {view : View} {g : Nat}
    {ids : List String} (hids : ids.Pairwise fun a b => Text.order a b = .lt)
    (hreflects : view.Reflects (past g))
    (hlogged : ∀ id ∉ ids, Document.named id (past g) = Document.named id s.documents)
    (position : Position) :
    rowsAt position
        ((view.withdraw (some ids)).tree.entries ++ (s.liveAmong ids).flatMap view.rowsOf) =
      rowsAt position ((Document.living s.documents).flatMap view.rowsOf) := by
  rw [Entry.rowsAt_append, rowsAt_withdraw hreflects hlogged, liveAmong_eq_filter hsorted hids,
    View.rowsAt_flatMap_rowsOf view position (List.filter _ _),
    Document.named_filter (fun id => ids.contains id)]
  split
  · rw [List.nil_append, ← View.rowsAt_flatMap_rowsOf]
  · simp [rowsAt]

/-- Of the living documents, none that the log leaves out crashes the map function. -/
theorem crash?_liveAmong (hsorted : s.documents.Pairwise Document.Before) {view : View} {g : Nat}
    {ids : List String} (hids : ids.Pairwise fun a b => Text.order a b = .lt)
    (hreflects : view.Reflects (past g))
    (hlogged : ∀ id ∉ ids, Document.named id (past g) = Document.named id s.documents) :
    view.crash? (s.liveAmong ids) = view.crash? (Document.living s.documents) := by
  rw [liveAmong_eq_filter hsorted hids]
  apply View.crash?_filter
  intro doc hdoc hunlogged
  have hnamed : doc ∈ Document.named doc.id (Document.living s.documents) :=
    Document.mem_named.2 ⟨hdoc, rfl⟩
  rw [← Document.living_named, ← hlogged doc.id (by simpa using hunlogged),
    Document.living_named] at hnamed
  exact View.crash?_eq_none.1 (View.reflects_iff.1 hreflects).1 doc (Document.mem_named.1 hnamed).1

/-- What is taken in again when a view catches up: it crashes the map function where the living
documents do, and puts at each position what these emit. -/
theorem Follows.retaken (h : s.Follows past) {view : View} (hview : view ∈ s.views)
    {ids : List String}
    (hids : ids = (view.indexed.map s.changedAfter).getD (s.documents.map Document.id)) :
    view.crash? (s.liveAmong ids) = view.crash? (Document.living s.documents) ∧
      ∀ position,
        rowsAt position ((view.withdraw (view.indexed.map s.changedAfter)).tree.entries ++
            (s.liveAmong ids).flatMap view.rowsOf) =
          rowsAt position ((Document.living s.documents).flatMap view.rowsOf) := by
  cases hindexed : view.indexed with
  | none =>
    have hall : s.liveAmong ids = Document.living s.documents := by
      rw [hids, hindexed]
      exact liveAmong_all h.sorted
    rw [hall]
    exact ⟨rfl, fun position => rfl⟩
  | some g =>
    have hreflects := h.reflects view hview g hindexed
    have hlogged := h.logged view hview g hindexed
    have hascending := pairwise_changedAfter s g
    rw [hids, hindexed]
    exact ⟨crash?_liveAmong h.sorted hascending hreflects hlogged,
      rowsAt_replay h.sorted hascending hreflects hlogged⟩

/-- What catching up comes to: it fails for the first living document that the map function crashes
on, and leaves the view unbuilt; otherwise the view reflects the documents there are. -/
theorem Follows.catchUp (h : s.Follows past) {view : View} (hview : view ∈ s.views) :
    (∃ doc halfway, view.crash? (Document.living s.documents) = some doc ∧ halfway.Alike view ∧
      halfway.indexed = none ∧ s.catchUp view = (s.setView halfway, .error (view.crashed doc))) ∨
    ∃ current, view.crash? (Document.living s.documents) = none ∧ current.Alike view ∧
      current.indexed = some s.generation ∧ current.Reflects s.documents ∧
      s.catchUp view = ((s.setView current).prune, .ok ()) := by
  obtain ⟨ids, hids⟩ : ∃ ids, ids =
      (view.indexed.map s.changedAfter).getD (s.documents.map Document.id) := ⟨_, rfl⟩
  obtain ⟨hcrash, hrows⟩ := h.retaken hview hids
  have hbare := view.alike_withdraw (view.indexed.map s.changedAfter)
  have hindexed := view.indexed_withdraw (view.indexed.map s.changedAfter)
  rw [Store.catchUp, ← hids]
  generalize view.withdraw (view.indexed.map s.changedAfter) = bare at hbare hindexed hrows ⊢
  have halike := (bare.alike_absorb (s.liveAmong ids)).trans hbare
  have herror := bare.absorb_error? (s.liveAmong ids)
  rw [hbare.crash?, hcrash, hbare.crashed] at herror
  cases hfirst : view.crash? (Document.living s.documents) with
  | some doc =>
    refine .inl ⟨doc, (bare.absorb (s.liveAmong ids)).1, rfl, halike, ?_, ?_⟩
    · rw [View.indexed_absorb, hindexed]
    · rw [hfirst] at herror
      split
      next heq =>
        rw [heq] at herror ⊢
        cases herror
        rfl
      next heq => simp [heq] at herror
  | none =>
    rw [hfirst] at herror
    refine .inr ⟨{ (bare.absorb (s.liveAmong ids)).1 with indexed := some s.generation }, rfl,
      ⟨halike.descriptor, halike.map, halike.reduce⟩, rfl, ?_, ?_⟩
    · have hbareCrash : bare.crash? (s.liveAmong ids) = none := by
        rw [hbare.crash?, hcrash, hfirst]
      apply View.reflects_iff.2
      constructor
      · rw [← hfirst]
        exact congrFun (View.Alike.crash? ⟨halike.descriptor, halike.map, halike.reduce⟩) _
      · intro position
        have hemitted : View.rowsOf { (bare.absorb (s.liveAmong ids)).1 with
            indexed := some s.generation } = view.rowsOf :=
          View.Alike.rowsOf ⟨halike.descriptor, halike.map, halike.reduce⟩
        rw [hemitted, ← hrows position, ← hbare.rowsOf]
        exact View.rowsAt_absorb position hbareCrash
    · split
      next heq => simp [heq] at herror
      next heq => rw [heq]

theorem mem_views_setView {view other : View} (h : other ∈ (s.setView view).views) :
    other ∈ s.views ∨ other = view := by
  obtain ⟨old, hold, heq⟩ := List.mem_map.1 h
  split at heq
  · exact .inr heq.symm
  · exact .inl (heq ▸ hold)

/-- A view that is unbuilt, or reflects the documents there are, may take the place of another. -/
theorem Follows.setView (h : s.Follows past) {view : View}
    (hbuilt : ∀ g, view.indexed = some g → g = s.generation ∧ view.Reflects s.documents) :
    (s.setView view).Follows past where
  now := h.now
  sorted := h.sorted
  reached := by
    intro other hother g hindexed
    rcases mem_views_setView hother with hother | rfl
    · exact h.reached other hother g hindexed
    · exact Nat.le_of_eq (hbuilt g hindexed).1
  reflects := by
    intro other hother g hindexed
    rcases mem_views_setView hother with hother | rfl
    · exact h.reflects other hother g hindexed
    · obtain ⟨rfl, hreflects⟩ := hbuilt g hindexed
      exact h.now ▸ hreflects
  logged := by
    intro other hother g hindexed id hid
    rcases mem_views_setView hother with hother | rfl
    · exact h.logged other hother g hindexed id hid
    · obtain ⟨rfl, -⟩ := hbuilt g hindexed
      exact congrArg (Document.named id) h.now

/-- What a refresh comes to. -/
theorem Follows.refresh_cases (h : s.Follows past) {id : IndexId} {view : View}
    (hview : s.view? id = some view) :
    (∃ doc halfway, view.crash? (Document.living s.documents) = some doc ∧ halfway.Alike view ∧
      halfway.indexed = none ∧ s.refresh id = (s.setView halfway, .error (view.crashed doc))) ∨
    ∃ s' current, view.crash? (Document.living s.documents) = none ∧ current.Alike view ∧
      current.indexed = some s.generation ∧ current.Reflects s.documents ∧
      s'.view? id = some current ∧ s'.documents = s.documents ∧ s'.generation = s.generation ∧
      s'.Follows past ∧ s.refresh id = (s', .ok ()) := by
  have hmem : view ∈ s.views := List.mem_of_find?_eq_some hview
  have hrefresh : s.refresh id =
      if view.indexed = some s.generation then (s, .ok ()) else s.catchUp view := by
    rw [refresh, hview]
  by_cases hcurrent : view.indexed = some s.generation
  · have hreflects := h.reflects view hmem s.generation hcurrent
    rw [h.now] at hreflects
    exact .inr ⟨s, view, (View.reflects_iff.1 hreflects).1, .refl view, hcurrent, hreflects, hview,
      rfl, rfl, h, hrefresh.trans (if_pos hcurrent)⟩
  · rw [hrefresh, if_neg hcurrent]
    rcases h.catchUp hmem with hfailed | ⟨current, hcrash, halike, hindexed, hreflects, heq⟩
    · exact .inl hfailed
    · refine .inr ⟨(s.setView current).prune, current, hcrash, halike, hindexed, hreflects, ?_, rfl,
        rfl, ?_, heq⟩
      · exact view?_setView hview halike
      · apply Follows.prune
        apply h.setView
        intro g hg
        rw [hindexed] at hg
        exact ⟨(Option.some.inj hg).symm, hreflects⟩

theorem Follows.refresh (h : s.Follows past) (id : IndexId) : (s.refresh id).1.Follows past := by
  cases hview : s.view? id with
  | none =>
    rw [Store.refresh, hview]
    exact h
  | some view =>
    rcases h.refresh_cases hview with
      ⟨doc, halfway, -, -, hindexed, heq⟩ | ⟨s', current, -, -, -, -, -, -, -, hfollows, heq⟩
    · rw [heq]
      exact h.setView fun g hg => by simp [hindexed] at hg
    · rw [heq]
      exact hfollows

/-! ## Scans -/

/-- Counting a scan changes nothing that a store keeps. -/
theorem Follows.counted (h : s.Follows past) (scans : Nat) :
    { s with scans := scans }.Follows past :=
  h.of_views rfl rfl rfl fun _ hview => .inl hview

/-- A scan is counted, and at most refreshes the index it reads. -/
theorem fst_scan (s : Store) (request : Request) :
    (s.scan request).1 = { s with scans := s.scans + 1 } ∨
      ∃ id, request.target = .index id ∧
        (s.scan request).1 = (Store.refresh { s with scans := s.scans + 1 } id).1 := by
  rw [Store.scan]
  split
  · exact .inl rfl
  next id htarget =>
    rw [scanRefreshing]
    split
    · exact .inl rfl
    · refine .inr ⟨id, htarget, ?_⟩
      split
      next heq => rw [heq]
      next heq => rw [heq]
    · split
      · exact .inl rfl
      · refine .inr ⟨id, htarget, ?_⟩
        split
        next heq => rw [heq]
        next heq => rw [heq]

theorem Follows.scan (h : s.Follows past) (request : Request) :
    (s.scan request).1.Follows past := by
  have hcounted := h.counted (s.scans + 1)
  rcases fst_scan s request with heq | ⟨id, -, heq⟩
  · rw [heq]
    exact hcounted
  · rw [heq]
    exact hcounted.refresh id

/-! ## Histories -/

/-- An edit makes a document of the id that it is applied to. -/
def KeepsId (id : String) (edit : Edit) : Prop :=
  ∀ generation (old : Option Document) doc, (∀ d ∈ old, d.id = id) →
    edit generation old = .ok doc → doc.id = id

theorem keepsId_putEdit (id : String) (body : Json) : KeepsId id (putEdit id body) := by
  rintro generation old doc - ⟨⟩
  rfl

theorem keepsId_deleteEdit (id : String) : KeepsId id (deleteEdit id) := by
  intro generation old doc hold hedit
  cases old with
  | none => cases hedit
  | some d =>
    have hd : d.id = id := hold d rfl
    rw [deleteEdit] at hedit
    split at hedit
    · cases hedit
    · cases hedit
      exact hd

theorem keepsId_conflictEdit (id rev : String) : KeepsId id (conflictEdit id rev) := by
  intro generation old doc hold hedit
  cases old with
  | none => cases hedit
  | some d =>
    have hd : d.id = id := hold d rfl
    rw [conflictEdit] at hedit
    split at hedit <;>
      · cases hedit
        exact hd

theorem keepsId_resolveEdit (id : String) : KeepsId id (resolveEdit id) := by
  intro generation old doc hold hedit
  cases old with
  | none => cases hedit
  | some d =>
    have hd : d.id = id := hold d rfl
    cases hedit
    exact hd

theorem keepsId_of_edit? {command : Command} {id : String} {edit : Edit}
    (h : command.edit? = some (id, edit)) : KeepsId id edit := by
  cases command with
  | put other body =>
    cases h
    exact keepsId_putEdit id body
  | delete other =>
    cases h
    exact keepsId_deleteEdit id
  | addConflict other rev =>
    cases h
    exact keepsId_conflictEdit id rev
  | resolveConflicts other =>
    cases h
    exact keepsId_resolveEdit id
  | _ => cases h

/-- A timeline that goes on after the generation of `s`, to one that `s'` follows. -/
structure Extends (past past' : Timeline) (s s' : Store) : Prop where
  earlier : ∀ g ≤ s.generation, past' g = past g
  follows : s'.Follows past'

/-- Without a new generation the timeline stays. -/
theorem Follows.extends {s' : Store} (h : s'.Follows past) : Extends past past s s' :=
  ⟨fun _ _ => rfl, h⟩

theorem Follows.written (h : s.Follows past) {id : String} {edit : Edit} (hedit : KeepsId id edit) :
    ∃ past', Extends past past' s (s.written id edit) := by
  rw [Store.written]
  split
  next s' doc hwrite =>
    have hid : doc.id = id :=
      hedit _ _ _ (fun d hd => by simpa using List.find?_some hd) (write_eq_ok hwrite).1
    refine ⟨_, fun g hg => ?_, h.write hid hwrite⟩
    exact if_neg (by omega)
  next => exact ⟨past, h.extends⟩

/-- Every command keeps what a store keeps of the documents of earlier generations. -/
theorem Follows.perform (h : s.Follows past) (command : Command) :
    ∃ past', Extends past past' s (s.perform command) := by
  cases command with
  | put id body => exact h.written (keepsId_putEdit id body)
  | delete id => exact h.written (keepsId_deleteEdit id)
  | addConflict id rev => exact h.written (keepsId_conflictEdit id rev)
  | resolveConflicts id => exact h.written (keepsId_resolveEdit id)
  | defineView name map reduce =>
    exact ⟨past, (h.defineView name map reduce).extends⟩
  | createEphemeral map => exact ⟨past, (h.createEphemeral map).extends⟩
  | deleteIndex index =>
    rw [Store.perform]
    split
    next hdelete =>
      exact ⟨past, (h.deleteIndex hdelete).extends⟩
    next => exact ⟨past, h.extends⟩
  | subscribe index observer =>
    rw [Store.perform]
    split
    next token subscribed hsubscribe =>
      obtain ⟨-, -, rfl⟩ := subscribe_eq_ok hsubscribe
      refine ⟨past, Follows.extends ?_⟩
      exact h.of_views rfl rfl rfl fun _ hview => .inl hview
    next => exact ⟨past, h.extends⟩
  | unsubscribe token =>
    have hsame : (s.unsubscribe token).Follows past :=
      h.of_views rfl rfl rfl fun _ hview => .inl hview
    exact ⟨past, hsame.extends⟩
  | scan request => exact ⟨past, (h.scan request).extends⟩

/-! ## Moments of a history -/

theorem generation_refresh (s : Store) (id : IndexId) :
    (s.refresh id).1.generation = s.generation := by
  rw [refresh]
  split
  · rfl
  · split
    · rfl
    · rw [catchUp]
      split <;> rfl

theorem generation_scan (s : Store) (request : Request) :
    (s.scan request).1.generation = s.generation := by
  rcases fst_scan s request with heq | ⟨id, -, heq⟩
  · rw [heq]
  · rw [heq, generation_refresh]

theorem generation_defineView (s : Store) (name : String) (map : MapFunction)
    (reduce : Option ReduceFunction) :
    (s.defineView name map reduce).2.generation = s.generation := by
  simp only [defineView, addView]
  split <;> rfl

theorem generation_deleteIndex {index : Descriptor} {s' : Store}
    (h : s.deleteIndex index = .ok s') : s'.generation = s.generation := by
  obtain ⟨-, -, ⟨name, -, -, rfl⟩ | ⟨-, rfl⟩⟩ := deleteIndex_eq_ok h
  · rfl
  · rfl

/-- A command makes one new generation or none. -/
theorem generation_perform (s : Store) (command : Command) :
    (s.perform command).generation = s.generation ∨
      (s.perform command).generation = s.generation + 1 := by
  have hwritten : ∀ id edit, (s.written id edit).generation = s.generation ∨
      (s.written id edit).generation = s.generation + 1 := by
    intro id edit
    rw [written]
    split
    next hwrite => exact .inr (generation_write hwrite)
    next => exact .inl rfl
  cases command with
  | put id body => exact hwritten id _
  | delete id => exact hwritten id _
  | addConflict id rev => exact hwritten id _
  | resolveConflicts id => exact hwritten id _
  | defineView name map reduce => exact .inl (generation_defineView s name map reduce)
  | createEphemeral map => exact .inl rfl
  | deleteIndex index =>
    rw [perform]
    split
    next hdelete => exact .inl (generation_deleteIndex hdelete)
    next => exact .inl rfl
  | subscribe index observer =>
    rw [perform]
    split
    next hsubscribe =>
      obtain ⟨-, -, rfl⟩ := subscribe_eq_ok hsubscribe
      exact .inl rfl
    next => exact .inl rfl
  | unsubscribe token => exact .inl rfl
  | scan request => exact .inl (generation_scan s request)

theorem after_append_singleton (numbered : Nat) (history : List Command) (command : Command) :
    after numbered (history ++ [command]) = (after numbered history).perform command := by
  rw [after, List.foldl_append]
  rfl

/-- The store at a moment of a history, after so many of its commands. -/
def moment (numbered : Nat) (history : List Command) (n : Nat) : Store :=
  after numbered (history.take n)

theorem moment_append_singleton {numbered : Nat} {history : List Command} {n : Nat}
    (h : n ≤ history.length) (command : Command) :
    moment numbered (history ++ [command]) n = moment numbered history n := by
  rw [moment, moment, List.take_append_of_le_length h]

theorem moment_of_length_le {numbered : Nat} {history : List Command} {n : Nat}
    (h : history.length ≤ n) : moment numbered history n = after numbered history := by
  rw [moment, List.take_of_length_le h]

theorem generation_moment_le (numbered : Nat) (history : List Command) (n : Nat) :
    (moment numbered history n).generation ≤ (after numbered history).generation := by
  induction history using List.reverseRecOn with
  | nil => simp [moment]
  | append_singleton history command ih =>
    rw [after_append_singleton]
    by_cases hn : n ≤ history.length
    · rw [moment_append_singleton hn]
      have hstep := generation_perform (after numbered history) command
      omega
    · refine Nat.le_of_eq ?_
      rw [moment_of_length_le (by simp; omega), after_append_singleton]

/-- Every generation up to the last was that of some moment. -/
theorem exists_moment (numbered : Nat) (history : List Command) {g : Nat}
    (hg : g ≤ (after numbered history).generation) :
    ∃ n, (moment numbered history n).generation = g := by
  induction history using List.reverseRecOn with
  | nil =>
    have hzero : (after numbered []).generation = 0 := rfl
    exact ⟨0, by rw [moment_of_length_le (by simp)]; omega⟩
  | append_singleton history command ih =>
    by_cases hearlier : g ≤ (after numbered history).generation
    · obtain ⟨n, hn⟩ := ih hearlier
      by_cases hlength : n ≤ history.length
      · exact ⟨n, by rw [moment_append_singleton hlength, hn]⟩
      · rw [moment_of_length_le (by omega)] at hn
        exact ⟨history.length, by
          rw [moment_append_singleton (Nat.le_refl _), moment_of_length_le (Nat.le_refl _), hn]⟩
    · rw [after_append_singleton] at hg
      have hstep := generation_perform (after numbered history) command
      exact ⟨(history ++ [command]).length, by
        rw [moment_of_length_le (Nat.le_refl _), after_append_singleton]; omega⟩

/-- Every history has a timeline: the store follows it, and the documents of every moment are those
of its generation. -/
theorem exists_timeline (numbered : Nat) (history : List Command) :
    ∃ past, (after numbered history).Follows past ∧ ∀ n,
      past (moment numbered history n).generation = (moment numbered history n).documents := by
  induction history using List.reverseRecOn with
  | nil => exact ⟨_, follows_empty numbered, fun n => by simp [moment, after, empty]⟩
  | append_singleton history command ih =>
    obtain ⟨past, hfollows, hmoments⟩ := ih
    obtain ⟨past', hextends⟩ := hfollows.perform command
    rw [after_append_singleton]
    refine ⟨past', hextends.follows, fun n => ?_⟩
    by_cases hn : n ≤ history.length
    · rw [moment_append_singleton hn,
        hextends.earlier _ (generation_moment_le numbered history n)]
      exact hmoments n
    · rw [moment_of_length_le (by simp; omega), after_append_singleton]
      exact hextends.follows.now

end Store

end Viewbase
