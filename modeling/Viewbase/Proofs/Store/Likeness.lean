import Viewbase.Proofs.Store.Renaming
import Mathlib.Data.List.Basic

/-!
Views that are alike in two stores.

Some views of a store are those of another store under other identities, over the same documents
(`Likeness`).  The two logs need not be the same, since other views keep entries in them or let them
go; but what each of these views has yet to take in is.  So they catch up alike, answer alike, and
stay alike when both stores are written to.
-/

namespace Viewbase.Store

/-- The place of an index among those made, counted from one. -/
def ordinal (made : List IndexId) (id : IndexId) : IndexId :=
  ⟨made.idxOf id + 1⟩

variable {s s' r : Store} {made : List IndexId} {id : IndexId}

/-! ## Places -/

theorem ordinal_inj {other : IndexId} (hid : id ∈ made) :
    ordinal made id = ordinal made other ↔ id = other := by
  rw [ordinal, ordinal, IndexId.mk.injEq, Nat.add_right_cancel_iff, List.idxOf_inj hid]

theorem ordinal_append_of_mem (hid : id ∈ made) (more : List IndexId) :
    ordinal (made ++ more) id = ordinal made id := by
  rw [ordinal, ordinal, List.idxOf_append_of_mem hid]

theorem ordinal_append_self (hid : id ∉ made) : ordinal (made ++ [id]) id = ⟨made.length + 1⟩ := by
  rw [ordinal, List.idxOf_append_of_notMem hid, List.idxOf_cons_self, Nat.add_zero]

/-! ## Views alike -/

/-- The views made under a name are in one store what they are in another under their places, over
the same documents, and each has the same changes to take in. -/
structure Likeness (made : List IndexId) (s r : Store) : Prop where
  generation : r.generation = s.generation
  documents : r.documents = s.documents
  views : ∀ id ∈ made, r.view? (ordinal made id) = (s.view? id).map (View.relabel (ordinal made))
  due : ∀ id ∈ made, ∀ view, s.view? id = some view → ∀ g, view.indexed = some g →
    r.due g = s.due g

/-- Other views come and go, and may keep changes in the log or let them go. -/
theorem Likeness.elsewhere (h : Likeness made s r) (hgeneration : s'.generation = s.generation)
    (hdocuments : s'.documents = s.documents) (hviews : ∀ id ∈ made, s'.view? id = s.view? id)
    (hdue : ∀ id ∈ made, ∀ view, s.view? id = some view → ∀ g, view.indexed = some g →
      s'.due g = s.due g) : Likeness made s' r where
  generation := h.generation.trans hgeneration.symm
  documents := h.documents.trans hdocuments.symm
  views := by
    intro id hid
    rw [hviews id hid]
    exact h.views id hid
  due := by
    intro id hid view hview g hindexed
    rw [hviews id hid] at hview
    rw [hdue id hid view hview g hindexed]
    exact h.due id hid view hview g hindexed

theorem Likeness.prune (h : Likeness made s r) : Likeness made s.prune r.prune where
  generation := h.generation
  documents := h.documents
  views := h.views
  due := by
    intro id hid view hview g hindexed
    have hother : r.view? (ordinal made id) = some (view.relabel (ordinal made)) := by
      rw [h.views id hid]
      exact congrArg (Option.map _) hview
    rw [due_prune (s := r) (List.mem_of_find?_eq_some hother) hindexed,
      due_prune (s := s) (List.mem_of_find?_eq_some hview) hindexed]
    exact h.due id hid view hview g hindexed

theorem Likeness.setView (h : Likeness made s r) (hid : id ∈ made) {old new : View}
    (hview : s.view? id = some old) (halike : new.Alike old)
    (hdue : ∀ g, new.indexed = some g → r.due g = s.due g) :
    Likeness made (s.setView new) (r.setView (new.relabel (ordinal made))) := by
  have hnew : new.id = id := halike.id.trans (by simpa using List.find?_some hview)
  refine ⟨h.generation, h.documents, fun other hother => ?_, fun other hother view hview' => ?_⟩
  · by_cases heq : other = id
    · have hplaced : r.view? (ordinal made id) = some (old.relabel (ordinal made)) := by
        rw [h.views id hid, hview, Option.map_some]
      rw [heq, view?_setView hview halike, view?_setView hplaced halike.relabel, Option.map_some]
    · have hplaced : (new.relabel (ordinal made)).id ≠ ordinal made other := by
        change ordinal made new.id ≠ ordinal made other
        rw [hnew, ne_eq, ordinal_inj hid]
        exact Ne.symm heq
      rw [view?_setView_of_ne hplaced, view?_setView_of_ne (by rw [hnew]; exact Ne.symm heq)]
      exact h.views other hother
  · by_cases heq : other = id
    · rw [heq, view?_setView hview halike] at hview'
      cases hview'
      exact hdue
    · rw [view?_setView_of_ne (by rw [hnew]; exact Ne.symm heq)] at hview'
      exact h.due other hother view hview'

/-! ## Refreshes and scans -/

/-- The log holds no change of a later generation. -/
def Logged (s : Store) : Prop :=
  ∀ change ∈ s.log, change.1 ≤ s.generation

theorem Logged.due_eq_nil (h : s.Logged) : s.due s.generation = [] := by
  rw [due, List.filter_eq_nil_iff]
  intro change hchange
  simpa using h change hchange

/-- Views alike catch up alike. -/
theorem Likeness.catchUp (h : Likeness made s r) (hlogged : s.Logged) (hlogged' : r.Logged)
    (hid : id ∈ made) {view : View} (hview : s.view? id = some view) :
    Likeness made (s.catchUp view).1 (r.catchUp (view.relabel (ordinal made))).1 ∧
      (r.catchUp (view.relabel (ordinal made))).2 =
        (s.catchUp view).2.mapError (IndexError.relabel (ordinal made)) := by
  have hchanged : view.indexed.map r.changedAfter = view.indexed.map s.changedAfter := by
    cases hindexed : view.indexed with
    | none => rfl
    | some g => exact congrArg some (changedAfter_congr (h.due id hid view hview g hindexed))
  have hlive : r.liveAmong = s.liveAmong := by
    have hdocument : r.document? = s.document? := by
      funext docId
      rw [document?, document?, h.documents]
    funext ids
    rw [liveAmong, liveAmong, hdocument]
  have halike := (View.alike_absorb (view.withdraw (view.indexed.map s.changedAfter))
    (s.liveAmong ((view.indexed.map s.changedAfter).getD (s.documents.map Document.id)))).trans
    (view.alike_withdraw (view.indexed.map s.changedAfter))
  have hunbuilt := (View.indexed_absorb (view.withdraw (view.indexed.map s.changedAfter))
    (s.liveAmong ((view.indexed.map s.changedAfter).getD (s.documents.map Document.id)))).trans
    (view.indexed_withdraw (view.indexed.map s.changedAfter))
  -- Both views withdraw the same changes and absorb the same documents.
  simp only [Store.catchUp, View.relabel_indexed, hchanged, h.documents, hlive,
    View.withdraw_relabel, View.absorb_relabel]
  generalize (view.withdraw (view.indexed.map s.changedAfter)).absorb _ = taken at halike hunbuilt ⊢
  obtain ⟨rebuilt, crash⟩ := taken
  cases crash with
  | some error =>
    refine ⟨h.setView hid hview halike fun g hg => ?_, rfl⟩
    have hnone := hunbuilt.symm.trans hg
    cases hnone
  | none =>
    refine ⟨Likeness.prune ?_, rfl⟩
    have hbuilt : View.Alike { rebuilt with indexed := some s.generation } view :=
      ⟨halike.descriptor, halike.map, halike.reduce⟩
    have hset := h.setView hid hview hbuilt ?_
    · rw [h.generation]
      exact hset
    · -- Neither log has anything after the current generation.
      rintro g ⟨⟩
      rw [hlogged.due_eq_nil, ← h.generation, hlogged'.due_eq_nil]

theorem Likeness.refresh (h : Likeness made s r) (hlogged : s.Logged) (hlogged' : r.Logged)
    (hid : id ∈ made) :
    Likeness made (s.refresh id).1 (r.refresh (ordinal made id)).1 ∧
      (r.refresh (ordinal made id)).2 =
        (s.refresh id).2.mapError (IndexError.relabel (ordinal made)) := by
  rw [Store.refresh, Store.refresh, h.views id hid]
  cases hview : s.view? id with
  | none => exact ⟨h, rfl⟩
  | some view =>
    simp only [Option.map_some, View.relabel_indexed, h.generation]
    split
    · exact ⟨h, rfl⟩
    · exact h.catchUp hlogged hlogged' hid hview

/-- A refresh of another view may let changes go, but none that a view made under the name has yet
to take in. -/
theorem Likeness.refreshElsewhere (h : Likeness made s r) (hid : id ∉ made) :
    Likeness made (s.refresh id).1 r := by
  rw [Store.refresh]
  split
  · exact h
  next found hfound =>
    split
    · exact h
    · have hother : ∀ view, view.Alike found → ∀ other ∈ made,
          (s.setView view).view? other = s.view? other := by
        intro view halike other hother
        refine view?_setView_of_ne fun heq => hid ?_
        have hfoundId : found.id = id := by simpa using List.find?_some hfound
        rwa [← hfoundId, ← halike.id, heq]
      rcases catchUp_cases s found with ⟨halfway, error, halike, -, heq⟩ | ⟨current, halike, -, heq⟩
      · rw [heq]
        exact h.elsewhere rfl rfl (hother halfway halike) fun _ _ _ _ _ _ => rfl
      · rw [heq]
        refine h.elsewhere rfl rfl (hother current halike) fun other hmem view hview g hindexed => ?_
        rw [← hother current halike other hmem] at hview
        exact due_prune (s := s.setView current) (List.mem_of_find?_eq_some hview) hindexed

theorem Likeness.scanIndex (h : Likeness made s r) (hid : id ∈ made) (request : Request)
    (target : Target) :
    r.scanIndex (ordinal made id) (request.retarget target) =
      (s.scanIndex id request).mapError (IndexError.relabel (ordinal made)) := by
  rw [Store.scanIndex, Store.scanIndex, h.views id hid]
  cases s.view? id with
  | none => rfl
  | some view => exact scanView_relabel h.documents view request target

/-- Views alike answer alike, and are left alike. -/
theorem Likeness.scan (h : Likeness made s r) (hlogged : s.Logged) (hlogged' : r.Logged)
    (hid : id ∈ made) {request : Request} (htarget : request.target = .index id) :
    Likeness made (s.scan request).1
        (r.scan (request.retarget (.index (ordinal made id)))).1 ∧
      (r.scan (request.retarget (.index (ordinal made id)))).2 =
        (s.scan request).2.mapError (IndexError.relabel (ordinal made)) := by
  have hcounted : Likeness made { s with scans := s.scans + 1 } { r with scans := r.scans + 1 } :=
    ⟨h.generation, h.documents, h.views, h.due⟩
  have hfound := hcounted.scanIndex hid request (.index (ordinal made id))
  have hrefreshed := hcounted.refresh hlogged hlogged' hid
  have hplaced : (request.retarget (.index (ordinal made id))).target =
    .index (ordinal made id) := rfl
  have hpolicy : (request.retarget (.index (ordinal made id))).stale = request.stale := rfl
  simp only [Store.scan, htarget, hplaced, scanRefreshing, hpolicy]
  -- Of the refresh only what it leaves and whether it failed matters from here on.
  generalize Store.refresh { s with scans := s.scans + 1 } id = done at hrefreshed ⊢
  generalize Store.refresh { r with scans := r.scans + 1 } (ordinal made id) = done' at hrefreshed ⊢
  obtain ⟨s', result⟩ := done
  obtain ⟨r', result'⟩ := done'
  obtain ⟨halike, hresult⟩ := hrefreshed
  cases request.stale with
  | neverRefresh => exact ⟨hcounted, hfound⟩
  | refreshBefore =>
    cases result with
    | error error =>
      cases hresult
      exact ⟨halike, rfl⟩
    | ok =>
      cases hresult
      exact ⟨halike, halike.scanIndex hid request _⟩
  | refreshAfter =>
    rw [hfound]
    cases Store.scanIndex { s with scans := s.scans + 1 } id request with
    | error error => exact ⟨hcounted, rfl⟩
    | ok answer =>
      cases result with
      | error error =>
        cases hresult
        exact ⟨halike, rfl⟩
      | ok =>
        cases hresult
        exact ⟨halike, rfl⟩

/-! ## Writes -/

theorem Likeness.written (h : Likeness made s r) (docId : String) (edit : Edit) :
    Likeness made (s.written docId edit) (r.written docId edit) := by
  have hdocument : r.document? docId = s.document? docId := by
    rw [document?, document?, h.documents]
  simp only [Store.written, Store.write, hdocument, h.generation]
  cases edit (s.generation + 1) (s.document? docId) with
  | error error => exact h
  | ok doc =>
    refine Likeness.prune ⟨rfl, ?_, h.views, fun id hid view hview g hindexed => ?_⟩
    · exact congrArg (placeDocument doc) h.documents
    · have hdue := h.due id hid view hview g hindexed
      rw [Store.due, Store.due] at hdue ⊢
      rw [List.filter_append, List.filter_append, hdue]

/-! ## Logs in order -/

theorem Logged.of_log (h : s.Logged) (hgeneration : s'.generation = s.generation)
    (hlog : ∀ change ∈ s'.log, change ∈ s.log) : s'.Logged := by
  intro change hchange
  rw [hgeneration]
  exact h change (hlog change hchange)

theorem Logged.refresh (h : s.Logged) (id : IndexId) : (s.refresh id).1.Logged := by
  refine h.of_log (generation_refresh s id) ?_
  rw [Store.refresh]
  split
  · exact fun _ hchange => hchange
  next found _ =>
    split
    · exact fun _ hchange => hchange
    · rcases catchUp_cases s found with ⟨halfway, error, -, -, heq⟩ | ⟨current, -, -, heq⟩
      · rw [heq]
        exact fun _ hchange => hchange
      · rw [heq]
        exact fun _ hchange => (List.mem_filter.1 hchange).1

theorem Logged.written (h : s.Logged) (docId : String) (edit : Edit) :
    (s.written docId edit).Logged := by
  rw [Store.written, Store.write]
  cases edit (s.generation + 1) (s.document? docId) with
  | error error => exact h
  | ok doc =>
    intro change hchange
    rcases List.mem_append.1 (List.mem_filter.1 hchange).1 with hold | hnew
    · exact Nat.le_succ_of_le (h change hold)
    · rw [List.mem_singleton.1 hnew]
      exact Nat.le_refl _

end Viewbase.Store
