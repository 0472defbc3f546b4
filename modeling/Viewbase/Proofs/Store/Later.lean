import Viewbase.Proofs.Store.Incremental

/-!
What becomes of an answer as its store goes on.

As long as nothing is written a view keeps its definition and the documents stay, whatever is
scanned, defined or deleted (`Later`).  So an answer of the current generation stays the one that
the view gives (`Fresh`); a write only makes it an answer of an earlier generation.
-/

namespace Viewbase.Store

/-- The store follows some timeline, and the identity of the next index is new. -/
structure Sound (s : Store) : Prop where
  follows : ∃ past, s.Follows past
  numbered : ∀ view ∈ s.views, view.id.number ≤ s.numbered

/-- The store `s'` came from `s` without a write or a change of subscriptions. -/
structure Later (s s' : Store) : Prop where
  generation : s'.generation = s.generation
  documents : s'.documents = s.documents
  subscriptions : s'.subscriptions = s.subscriptions
  tokens : s'.tokens = s.tokens
  numbered : s.numbered ≤ s'.numbered
  /-- A view is as it was defined, or new. -/
  views : ∀ id view', s'.view? id = some view' →
    s.numbered < id.number ∨ ∃ view, s.view? id = some view ∧ view'.Alike view
  sound : s.Sound → s'.Sound

variable {s s' s'' : Store} {id : IndexId}

theorem sound_empty (numbered : Nat) : (empty numbered).Sound :=
  ⟨⟨_, follows_empty numbered⟩, by simp [empty]⟩

theorem Later.refl (s : Store) : Later s s where
  generation := rfl
  documents := rfl
  subscriptions := rfl
  tokens := rfl
  numbered := Nat.le_refl _
  views := fun _ view hview => .inr ⟨view, hview, .refl view⟩
  sound := fun h => h

theorem Later.trans (h : Later s s') (h' : Later s' s'') : Later s s'' where
  generation := h'.generation.trans h.generation
  documents := h'.documents.trans h.documents
  subscriptions := h'.subscriptions.trans h.subscriptions
  tokens := h'.tokens.trans h.tokens
  numbered := Nat.le_trans h.numbered h'.numbered
  views := by
    intro id view'' hview''
    rcases h'.views id view'' hview'' with hnew | ⟨view', hview', halike'⟩
    · exact .inl (Nat.lt_of_le_of_lt h.numbered hnew)
    · rcases h.views id view' hview' with hnew | ⟨view, hview, halike⟩
      · exact .inl hnew
      · exact .inr ⟨view, hview, halike'.trans halike⟩
  sound := fun hsound => h'.sound (h.sound hsound)

theorem Sound.of_view? (h : s.Sound) {view : View} (hview : s.view? id = some view) :
    id.number ≤ s.numbered := by
  have hid : view.id = id := by simpa using List.find?_some hview
  rw [← hid]
  exact h.numbered view (List.mem_of_find?_eq_some hview)

/-! ## Commands that write nothing -/

theorem view?_removeView {removed : IndexId} {view : View}
    (h : (s.removeView removed).view? id = some view) : s.view? id = some view := by
  have hid : view.id = id := by simpa using List.find?_some h
  have hkept : view.id ≠ removed := by
    simpa using (List.mem_filter.1 (List.mem_of_find?_eq_some h)).2
  simp only [removeView, view?, List.find?_filter] at h
  rw [view?, ← h]
  congr 1
  funext other
  by_cases hother : other.id = id
  · have hdistinct : other.id ≠ removed := by
      rw [hother, ← hid]
      exact hkept
    simp only [hother, decide_eq_true_eq, Bool.not_eq_true', decide_eq_false_iff_not]
    simp [← hother, hdistinct]
  · simp [hother]

theorem later_removeView (s : Store) (removed : IndexId) : Later s (s.removeView removed) where
  generation := rfl
  documents := rfl
  subscriptions := rfl
  tokens := rfl
  numbered := Nat.le_refl _
  views := fun _ view hview => .inr ⟨view, view?_removeView hview, .refl view⟩
  sound := by
    rintro ⟨⟨past, hfollows⟩, hnumbered⟩
    refine ⟨⟨past, hfollows.of_views rfl rfl rfl fun view hview => .inl ?_⟩, ?_⟩
    · exact (List.mem_filter.1 hview).1
    · intro view hview
      exact hnumbered view (List.mem_filter.1 hview).1

/-- The names of views matter to nobody else. -/
theorem later_names (s : Store) (names : List (String × IndexId)) :
    Later s { s with names := names } where
  generation := rfl
  documents := rfl
  subscriptions := rfl
  tokens := rfl
  numbered := Nat.le_refl _
  views := fun _ view hview => .inr ⟨view, hview, .refl view⟩
  sound := by
    rintro ⟨⟨past, hfollows⟩, hnumbered⟩
    exact ⟨⟨past, hfollows.of_views rfl rfl rfl fun _ hview => .inl hview⟩, hnumbered⟩

theorem later_addView (s : Store) {descriptor : Descriptor} (hid : descriptor.id = s.nextId)
    (map : MapFunction) (reduce : Option ReduceFunction) :
    Later s (s.addView descriptor map reduce) where
  generation := rfl
  documents := rfl
  subscriptions := rfl
  tokens := rfl
  numbered := Nat.le_succ _
  views := by
    intro id view' hview'
    simp only [addView, view?, List.find?_append, Option.or_eq_some_iff] at hview'
    rcases hview' with hold | ⟨-, hnew⟩
    · exact .inr ⟨view', hold, .refl view'⟩
    · left
      have hview : view' = View.unbuilt descriptor map reduce :=
        List.mem_singleton.1 (List.mem_of_find?_eq_some hnew)
      have hfound : view'.id = id := by simpa using List.find?_some hnew
      have hnext : view'.id = s.nextId := by rw [hview]; exact hid
      rw [← hfound, hnext]
      exact Nat.lt_succ_self _
  sound := by
    rintro ⟨⟨past, hfollows⟩, hnumbered⟩
    refine ⟨⟨past, hfollows.of_views rfl rfl rfl fun view hview => ?_⟩, fun view hview => ?_⟩
    · exact (mem_views_addView hview).imp_right (congrArg View.indexed)
    · rcases mem_views_addView hview with hold | hnew
      · exact Nat.le_succ_of_le (hnumbered view hold)
      · rw [hnew, View.id, View.unbuilt, hid]
        exact Nat.le_refl _

theorem later_defineView (s : Store) (name : String) (map : MapFunction)
    (reduce : Option ReduceFunction) : Later s (s.defineView name map reduce).2 := by
  rw [defineView]
  split
  next old _ =>
    have hremoved := later_removeView s old
    have hforgotten := hremoved.trans (later_names _ ((s.removeView old).forgetName name).names)
    exact (hforgotten.trans (later_names _ _)).trans (later_addView _ rfl map reduce)
  next => exact (later_names s _).trans (later_addView _ rfl map reduce)

theorem later_createEphemeral (s : Store) (map : MapFunction) :
    Later s (s.createEphemeral map).2 :=
  later_addView s rfl map none

theorem later_deleteIndex {index : Descriptor} (h : s.deleteIndex index = .ok s') : Later s s' := by
  have hremoved := later_removeView s index.id
  obtain ⟨-, -, ⟨name, -, -, rfl⟩ | ⟨-, rfl⟩⟩ := deleteIndex_eq_ok h
  · exact hremoved.trans (later_names _ _)
  · exact hremoved

/-! ## Scans -/

theorem later_counted (s : Store) (scans : Nat) : Later s { s with scans := scans } where
  generation := rfl
  documents := rfl
  subscriptions := rfl
  tokens := rfl
  numbered := Nat.le_refl _
  views := fun _ view hview => .inr ⟨view, hview, .refl view⟩
  sound := fun ⟨⟨past, hfollows⟩, hnumbered⟩ => ⟨⟨past, hfollows.counted scans⟩, hnumbered⟩

theorem view?_setView_of_ne {view : View} (hid : view.id ≠ id) :
    (s.setView view).view? id = s.view? id := by
  rw [setView, view?, view?]
  induction s.views with
  | nil => rfl
  | cons head rest ih =>
    rw [List.map_cons]
    by_cases hhead : head.id = id
    · have hkept : head.id ≠ view.id := by rw [hhead]; exact Ne.symm hid
      rw [if_neg hkept, List.find?_cons_of_pos (by simpa using hhead),
        List.find?_cons_of_pos (by simpa using hhead)]
    · have hskip : (if head.id = view.id then view else head).id ≠ id := by
        split
        · exact hid
        · exact hhead
      rw [List.find?_cons_of_neg (by simpa using hskip),
        List.find?_cons_of_neg (by simpa using hhead), ih]

/-- A refresh leaves every view as it is defined. -/
theorem views_setView {found view : View} (hfound : s.view? found.id = some found)
    (halike : view.Alike found) {view' : View} (hview' : (s.setView view).view? id = some view') :
    ∃ old, s.view? id = some old ∧ view'.Alike old := by
  by_cases hid : found.id = id
  · subst hid
    have hset := view?_setView hfound halike
    rw [hset] at hview'
    cases hview'
    exact ⟨found, hfound, halike⟩
  · rw [view?_setView_of_ne (by rwa [halike.id])] at hview'
    exact ⟨view', hview', .refl view'⟩

/-- Catching up changes a view without defining it anew.  If it fails the view is left unbuilt;
otherwise the changes that every built view has taken in are forgotten. -/
theorem catchUp_cases (s : Store) (found : View) :
    (∃ halfway error, halfway.Alike found ∧ halfway.indexed = none ∧
      s.catchUp found = (s.setView halfway, .error error)) ∨
    ∃ current, current.Alike found ∧ current.indexed = some s.generation ∧
      s.catchUp found = ((s.setView current).prune, .ok ()) := by
  have halike := (View.alike_absorb (found.withdraw (found.indexed.map s.changedAfter))
    (s.liveAmong ((found.indexed.map s.changedAfter).getD (s.documents.map Document.id)))).trans
    (found.alike_withdraw (found.indexed.map s.changedAfter))
  have hindexed := (View.indexed_absorb (found.withdraw (found.indexed.map s.changedAfter))
    (s.liveAmong ((found.indexed.map s.changedAfter).getD (s.documents.map Document.id)))).trans
    (found.indexed_withdraw (found.indexed.map s.changedAfter))
  rw [catchUp]
  split
  next halfway error heq =>
    rw [heq] at halike hindexed
    exact .inl ⟨halfway, error, halike, hindexed, rfl⟩
  next rebuilt heq =>
    rw [heq] at halike
    exact .inr ⟨{ rebuilt with indexed := some s.generation },
      ⟨halike.descriptor, halike.map, halike.reduce⟩, rfl, rfl⟩

/-- Catching up changes a view without defining it anew, and the log. -/
theorem catchUp_eq (s : Store) (found : View) :
    ∃ view log, view.Alike found ∧ (s.catchUp found).1 = { s.setView view with log := log } := by
  rcases catchUp_cases s found with ⟨halfway, error, halike, -, heq⟩ | ⟨current, halike, -, heq⟩
  · exact ⟨halfway, s.log, halike, by rw [heq]; rfl⟩
  · exact ⟨current, _, halike, by rw [heq]; rfl⟩

theorem later_refresh (s : Store) (id : IndexId) : Later s (s.refresh id).1 := by
  have hsound : s.Sound → ∃ past, (s.refresh id).1.Follows past :=
    fun ⟨⟨past, hfollows⟩, _⟩ => ⟨past, hfollows.refresh id⟩
  rw [refresh] at hsound ⊢
  split at hsound
  · exact .refl s
  next found hview =>
    split at hsound
    · rw [if_pos ‹_›]
      exact .refl s
    · rw [if_neg ‹_›]
      have hid : found.id = id := by simpa using List.find?_some hview
      have hfound : s.view? found.id = some found := by rw [hid]; exact hview
      obtain ⟨view, log, halike, hcatchUp⟩ := catchUp_eq s found
      rw [hcatchUp] at hsound ⊢
      exact {
        generation := rfl
        documents := rfl
        subscriptions := rfl
        tokens := rfl
        numbered := Nat.le_refl _
        views := fun _ _ hview' => .inr (views_setView hfound halike hview')
        sound := fun h => ⟨hsound h, fun other hother => by
          rcases mem_views_setView hother with hother | rfl
          · exact h.numbered other hother
          · rw [halike.id]
            exact h.numbered found (List.mem_of_find?_eq_some hfound)⟩ }

theorem later_scan (s : Store) (request : Request) : Later s (s.scan request).1 := by
  have hcounted := later_counted s (s.scans + 1)
  rcases fst_scan s request with heq | ⟨id, -, heq⟩
  · rw [heq]
    exact hcounted
  · rw [heq]
    exact hcounted.trans (later_refresh { s with scans := s.scans + 1 } id)

/-! ## Subscriptions and writes -/

/-- Subscriptions matter to no view. -/
theorem Sound.of_subscriptions (h : s.Sound) (subscriptions : List Subscription) (tokens : Nat) :
    Sound { s with subscriptions := subscriptions, tokens := tokens } := by
  obtain ⟨past, hfollows⟩ := h.follows
  exact ⟨⟨past, hfollows.of_views rfl rfl rfl fun _ hview => .inl hview⟩, h.numbered⟩

theorem views_write {written : Store} {docId : String} {edit : Edit} {doc : Document}
    (h : s.write docId edit = .ok (written, doc)) :
    written.views = s.views ∧ written.numbered = s.numbered ∧
      written.subscriptions = s.subscriptions ∧ written.tokens = s.tokens := by
  obtain ⟨-, rfl⟩ := write_eq_ok h
  exact ⟨rfl, rfl, rfl, rfl⟩

theorem Sound.write (hsound : s.Sound) {written : Store} {docId : String} {edit : Edit}
    {doc : Document} (hedit : KeepsId docId edit) (h : s.write docId edit = .ok (written, doc)) :
    written.Sound := by
  obtain ⟨past, hfollows⟩ := hsound.follows
  obtain ⟨hviews, hnumbered, -, -⟩ := views_write h
  have hwritten : s.written docId edit = written := by
    rw [Store.written, h]
  obtain ⟨past', hextends⟩ := hfollows.written hedit
  rw [hwritten] at hextends
  refine ⟨⟨past', hextends.follows⟩, fun view hview => ?_⟩
  rw [hnumbered]
  exact hsound.numbered view (hviews ▸ hview)

/-! ## Fresh answers -/

/-- The answer is of this generation at the latest, and if it is of this one, the view of the index
gives it, made anew. -/
structure Fresh (s : Store) (id : IndexId) (request : Request) (answer : Answer) : Prop where
  known : id.number ≤ s.numbered
  reached : answer.generation ≤ s.generation
  anew : answer.generation = s.generation → ∀ view, s.view? id = some view →
    s.answerAnew view request = .ok answer

variable {request : Request} {answer : Answer}

theorem Fresh.later (h : s.Fresh id request answer) (hlater : Later s s') :
    s'.Fresh id request answer where
  known := Nat.le_trans h.known hlater.numbered
  reached := by
    rw [hlater.generation]
    exact h.reached
  anew := by
    intro hgeneration view' hview'
    rw [hlater.generation] at hgeneration
    rcases hlater.views id view' hview' with hnew | ⟨view, hview, halike⟩
    · have hknown := h.known
      omega
    · rw [answerAnew_congr hlater.documents hlater.generation halike]
      exact h.anew hgeneration view hview

/-- A write leaves an answer behind. -/
theorem Fresh.write (h : s.Fresh id request answer) {written : Store} {docId : String} {edit : Edit}
    {doc : Document} (hwrite : s.write docId edit = .ok (written, doc)) :
    written.Fresh id request answer ∧ answer.generation < written.generation := by
  have hgeneration := generation_write hwrite
  have hreached := h.reached
  have hbehind : answer.generation < written.generation := by omega
  refine ⟨⟨?_, Nat.le_of_lt hbehind, fun hsame => ?_⟩, hbehind⟩
  · rw [(views_write hwrite).2.1]
    exact h.known
  · omega

/-- The answer of a scan that refreshes first is fresh. -/
theorem Sound.fresh_of_scan (h : s.Sound) (htarget : request.target = .index id)
    (hstale : request.stale = .refreshBefore) (hscan : (s.scan request).2 = .ok answer) :
    (s.scan request).1.Fresh id request answer ∧ answer.generation = s.generation := by
  obtain ⟨past, hfollows⟩ := h.follows
  cases hview : s.view? id with
  | none =>
    -- Without the view the refresh fails.
    have hfailed : (s.scan request).2 = .error (.unavailable (.index id)) := by
      have hnone : view? { s with scans := s.scans + 1 } id = none := hview
      have hrefresh : refresh { s with scans := s.scans + 1 } id =
          ({ s with scans := s.scans + 1 }, .error (.unavailable (.index id))) := by
        rw [refresh, hnone]
      simp only [scan, htarget, scanRefreshing, hstale, hrefresh]
    rw [hfailed] at hscan
    cases hscan
  | some view =>
    have hanew := hfollows.scan_refreshBefore htarget hstale hview
    rw [hscan] at hanew
    have hgeneration : answer.generation = s.generation := by
      have hanswer := hanew.symm
      rw [answerAnew] at hanswer
      split at hanswer
      · cases hanswer
      · exact generation_of_answerRows hanswer
    have hfresh : s.Fresh id request answer := by
      refine ⟨h.of_view? hview, Nat.le_of_eq hgeneration, fun _ other hother => ?_⟩
      rw [hview] at hother
      cases hother
      exact hanew.symm
    exact ⟨hfresh.later (later_scan s request), hgeneration⟩

end Viewbase.Store
