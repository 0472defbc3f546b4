import Viewbase.Proofs.Store.Likeness
import Viewbase.Proofs.Store.Naming

/-!
Views do not interfere.

A run of a store is purged of everything but the writes and what is done to the views of one name,
with those views numbered in the order of their definition (`concerns`).  The purged run, on a store
of its own, answers every scan of those views as the whole run does (`Twin.replies`).  Main
statement: two runs that are the same when purged answer the same (`replies_eq_of_concerns_eq`), so
whatever is defined, scanned, refreshed or deleted under other names does not matter.

One command keeps the two runs twins (`Twin.perform`), and by induction a whole run does.
-/

namespace Viewbase

namespace Command

variable (name : String) (s : Store) (made : List IndexId)

/-- The indexes made under a name once a command is through, those made before going first. -/
def makes : Command → List IndexId
  | .defineView other _ _ => if other = name then made ++ [s.nextId] else made
  | _ => made

/-- What a command is to the views made under a name: a write is what it is; a definition under the
name, a deletion of one of the views that succeeds and a scan of one concern them, the view being
told by its place; all else is nothing to them. -/
def concern? : Command → Option Command
  | .defineView other map reduce =>
    if other = name then some (.defineView other map reduce) else none
  | .createEphemeral _ => none
  | .deleteIndex index =>
    if index.id ∈ made ∧ (s.deleteIndex index).isOk then
      some (.deleteIndex (index.relabel (Store.ordinal made)))
    else none
  | .subscribe _ _ => none
  | .unsubscribe _ => none
  | .scan request =>
    match request.target with
    | .index id =>
      if id ∈ made then some (.scan (request.retarget (.index (Store.ordinal made id)))) else none
    | .documents => none
  | command => some command

variable {name s made}

/-- What a scan answers. -/
def answer? (s : Store) : Command → Option (Except IndexError Answer)
  | .scan request => some (s.scan request).2
  | _ => none

variable (name s made)

/-- What a scan of a view made under a name answers, the view being told by its place. -/
def reply? (command : Command) : Option (Except IndexError Answer) :=
  (command.concern? name s made).bind fun _ =>
    (command.answer? s).map (Except.mapError (IndexError.relabel (Store.ordinal made)))

end Command

namespace Store

/-- What a run is to the views made under a name. -/
def concerns (s : Store) (name : String) (made : List IndexId) : List Command → List Command
  | [] => []
  | command :: rest =>
    (command.concern? name s made).toList ++
      (s.perform command).concerns name (command.makes name s made) rest

/-- What the scans of those views answer in a run. -/
def replies (s : Store) (name : String) (made : List IndexId) :
    List Command → List (Except IndexError Answer)
  | [] => []
  | command :: rest =>
    (command.reply? name s made).toList ++
      (s.perform command).replies name (command.makes name s made) rest

/-- What all scans of a run answer. -/
def answers (s : Store) : List Command → List (Except IndexError Answer)
  | [] => []
  | command :: rest => (command.answer? s).toList ++ (s.perform command).answers rest

variable {s s' r : Store} {made : List IndexId} {name : String} {id : IndexId}

/-! ## Runs -/

/-- A store keeps its identities apart, and its log in order. -/
structure Tidy (s : Store) : Prop where
  houses : s.Houses []
  logged : s.Logged

theorem tidy_empty (numbered : Nat) : (empty numbered).Tidy :=
  ⟨houses_empty numbered, nofun⟩

theorem Tidy.perform (h : s.Tidy) (command : Command) : (s.perform command).Tidy := by
  refine ⟨h.houses.perform command, ?_⟩
  cases command with
  | put id body => exact h.logged.written id (putEdit id body)
  | delete id => exact h.logged.written id (deleteEdit id)
  | addConflict id rev => exact h.logged.written id (conflictEdit id rev)
  | resolveConflicts id => exact h.logged.written id (resolveEdit id)
  | defineView name map reduce =>
    refine h.logged.of_log (generation_defineView s name map reduce) fun change hchange => ?_
    rwa [← log_defineView s name map reduce]
  | createEphemeral map => exact h.logged
  | unsubscribe token => exact h.logged
  | scan request =>
    have hcounted : Logged { s with scans := s.scans + 1 } := h.logged
    rw [Store.perform]
    rcases fst_scan s request with heq | ⟨id, -, heq⟩
    · rw [heq]
      exact hcounted
    · rw [heq]
      exact hcounted.refresh id
  | deleteIndex index =>
    rw [Store.perform]
    split
    next hdelete =>
      have hwithout := without_of_deleteIndex hdelete
      exact h.logged.of_log hwithout.generation fun change hchange => hwithout.log ▸ hchange
    next => exact h.logged
  | subscribe index observer =>
    rw [Store.perform]
    split
    next hsubscribe =>
      obtain ⟨-, -, rfl⟩ := subscribe_eq_ok hsubscribe
      exact h.logged
    next => exact h.logged

/-- The second store is what the first is to the views made under a name, and no more. -/
structure Twin (name : String) (made : List IndexId) (s r : Store) : Prop where
  alike : Likeness made s r
  tidy : s.Tidy
  tidy' : r.Tidy
  known : ∀ id ∈ made, id.number ≤ s.numbered
  names : ∀ other id, s.names.lookup other = some id → (other = name ↔ id ∈ made)
  named : r.names.lookup name = (s.names.lookup name).map (ordinal made)
  numbered : r.numbered = made.length
  unheard : r.subscriptions = []

theorem twin_empty (name : String) (numbered : Nat) : Twin name [] (empty numbered) (empty 0) where
  alike := ⟨rfl, rfl, nofun, nofun⟩
  tidy := tidy_empty numbered
  tidy' := tidy_empty 0
  known := nofun
  names := by simp [empty]
  named := rfl
  numbered := rfl
  unheard := rfl

/-- A command that does not concern the views may take away names that do not lead to them. -/
theorem Twin.elsewhere (h : Twin name made s r) (htidy : s'.Tidy) (halike : Likeness made s' r)
    (hnumbered : s.numbered ≤ s'.numbered)
    (hnames : ∀ other id, s'.names.lookup other = some id →
      s.names.lookup other = some id ∨ other ≠ name ∧ id ∉ made)
    (hnamed : s'.names.lookup name = s.names.lookup name) : Twin name made s' r where
  alike := halike
  tidy := htidy
  tidy' := h.tidy'
  known := fun id hid => Nat.le_trans (h.known id hid) hnumbered
  names := by
    intro other id hlookup
    rcases hnames other id hlookup with hold | ⟨hother, hid⟩
    · exact h.names other id hold
    · exact iff_of_false hother hid
  named := by
    rw [hnamed]
    exact h.named
  numbered := h.numbered
  unheard := h.unheard

/-- So does one that leaves the names alone. -/
theorem Twin.of_names (h : Twin name made s r) (htidy : s'.Tidy) (halike : Likeness made s' r)
    (hnumbered : s.numbered ≤ s'.numbered) (hnames : s'.names = s.names) : Twin name made s' r :=
  h.elsewhere htidy halike hnumbered (fun _ _ hlookup => .inl (hnames ▸ hlookup))
    (congrArg (List.lookup name) hnames)

theorem Twin.nextId_not_mem (h : Twin name made s r) : s.nextId ∉ made :=
  fun hmem => ne_nextId (h.known _ hmem) rfl

/-- The next view made under the name takes the place that is next in the purged run. -/
theorem Twin.ordinal_nextId (h : Twin name made s r) :
    ordinal (made ++ [s.nextId]) s.nextId = r.nextId := by
  rw [ordinal_append_self h.nextId_not_mem, nextId, h.numbered]

theorem Twin.ordinal_ne_nextId (h : Twin name made s r) (hid : id ∈ made) :
    ordinal made id ≠ r.nextId := by
  rw [← h.ordinal_nextId, ← ordinal_append_of_mem hid [s.nextId], ne_eq,
    ordinal_inj (List.mem_append_left _ hid)]
  exact ne_nextId (h.known id hid)

/-- The name leads to the same view in both runs. -/
theorem Twin.lookup_iff (h : Twin name made s r) (hid : id ∈ made) :
    r.names.lookup name = some (ordinal made id) ↔ s.names.lookup name = some id := by
  rw [h.named, Option.map_eq_some_iff]
  constructor
  · rintro ⟨other, hother, heq⟩
    rw [hother, (ordinal_inj hid).1 heq.symm]
  · exact fun hsome => ⟨id, hsome, rfl⟩

/-! ## One command -/

/-- Names and identities stay in both runs. -/
theorem Twin.of_same (h : Twin name made s r) {r' : Store} (halike : Likeness made s' r')
    (hsame : Same s s') (hsame' : Same r r') (htidy : s'.Tidy) (htidy' : r'.Tidy) :
    Twin name made s' r' where
  alike := halike
  tidy := htidy
  tidy' := htidy'
  known := hsame.numbered ▸ h.known
  names := hsame.names ▸ h.names
  named := by
    rw [hsame.names, hsame'.names]
    exact h.named
  numbered := hsame'.numbered.trans h.numbered
  unheard := hsame'.subscriptions.trans h.unheard

theorem Twin.written (h : Twin name made s r) (docId : String) (edit : Edit)
    (htidy : (s.written docId edit).Tidy) (htidy' : (r.written docId edit).Tidy) :
    Twin name made (s.written docId edit) (r.written docId edit) :=
  h.of_same (h.alike.written docId edit) (same_written s docId edit) (same_written r docId edit)
    htidy htidy'

/-- A definition under the name takes the earlier view away in both runs, and adds one. -/
theorem Twin.alike_define (h : Twin name made s r) (map : MapFunction)
    (reduce : Option ReduceFunction) :
    Likeness (made ++ [s.nextId]) (s.defineView name map reduce).2
      (r.defineView name map reduce).2 := by
  have hlater := later_defineView s name map reduce
  have hlater' := later_defineView r name map reduce
  have hplace : ∀ id ∈ made, ordinal (made ++ [s.nextId]) id = ordinal made id :=
    fun id hid => ordinal_append_of_mem hid _
  have hview : ∀ id ∈ made, (s.defineView name map reduce).2.view? id =
      if s.names.lookup name = some id then none else s.view? id :=
    fun id hid => view?_defineView_of_ne (ne_nextId (h.known id hid)) name map reduce
  have hself := view?_defineView_self h.tidy.houses name map reduce
  refine ⟨?_, ?_, ?_, ?_⟩
  · rw [hlater.generation, hlater'.generation, h.alike.generation]
  · rw [hlater.documents, hlater'.documents, h.alike.documents]
  · intro id hid
    rcases List.mem_append.1 hid with hold | hnew
    · rw [hplace id hold, view?_defineView_of_ne (h.ordinal_ne_nextId hold), hview id hold]
      simp only [h.lookup_iff hold]
      split
      · rfl
      · rw [h.alike.views id hold]
        cases hfound : s.view? id with
        | none => rfl
        | some view =>
          have hid' : view.id = id := by simpa using List.find?_some hfound
          exact congrArg some (View.relabel_congr (by rw [hid', hplace id hold])).symm
    · rw [List.mem_singleton.1 hnew, hself, h.ordinal_nextId,
        view?_defineView_self h.tidy'.houses, Option.map_some, View.relabel, ← h.ordinal_nextId]
      rfl
  · intro id hid view hfound g hindexed
    rw [due, due, log_defineView, log_defineView]
    rcases List.mem_append.1 hid with hold | hnew
    · rw [hview id hold] at hfound
      split at hfound
      · cases hfound
      · exact h.alike.due id hold view hfound g hindexed
    · -- A view that was just added has indexed nothing.
      rw [List.mem_singleton.1 hnew, hself] at hfound
      cases hfound
      cases hindexed

theorem Twin.define (h : Twin name made s r) (map : MapFunction) (reduce : Option ReduceFunction)
    (htidy : (s.defineView name map reduce).2.Tidy)
    (htidy' : (r.defineView name map reduce).2.Tidy) :
    Twin name (made ++ [s.nextId]) (s.defineView name map reduce).2
      (r.defineView name map reduce).2 := by
  refine ⟨h.alike_define map reduce, htidy, htidy', ?_, ?_, ?_, ?_, ?_⟩
  · intro id hid
    rw [numbered_defineView]
    rcases List.mem_append.1 hid with hold | hnew
    · exact Nat.le_succ_of_le (h.known id hold)
    · rw [List.mem_singleton.1 hnew]
      exact Nat.le_refl _
  · intro other id hlookup
    rw [lookup_defineView] at hlookup
    split at hlookup
    next hother =>
      cases hlookup
      exact iff_of_true hother (List.mem_append_right _ (List.mem_singleton.2 rfl))
    next hother =>
      rw [h.names other id hlookup, List.mem_append, List.mem_singleton]
      refine (or_iff_left fun heq => ?_).symm
      obtain ⟨earlier, later, hentries, -⟩ := List.lookup_eq_some_iff.1 hlookup
      exact ne_nextId (h.tidy.houses.names (other, id) (by simp [hentries])).1 heq
  · rw [lookup_defineView, lookup_defineView, if_pos rfl, if_pos rfl, Option.map_some,
      h.ordinal_nextId]
  · rw [numbered_defineView, h.numbered, List.length_append, List.length_singleton]
  · rw [(later_defineView r name map reduce).subscriptions, h.unheard]

/-- A definition under another name takes none of the views away. -/
theorem Twin.defineElsewhere (h : Twin name made s r) {other : String} (hother : other ≠ name)
    (map : MapFunction) (reduce : Option ReduceFunction)
    (htidy : (s.defineView other map reduce).2.Tidy) :
    Twin name made (s.defineView other map reduce).2 r := by
  have hlater := later_defineView s other map reduce
  refine h.elsewhere htidy ?_ hlater.numbered ?_ ?_
  · refine h.alike.elsewhere hlater.generation hlater.documents (fun id hid => ?_)
      fun id hid view hview g hindexed => ?_
    · rw [view?_defineView_of_ne (ne_nextId (h.known id hid)), if_neg]
      exact fun hlookup => hother ((h.names other id hlookup).2 hid)
    · rw [due, due, log_defineView]
  · intro third id hlookup
    rw [lookup_defineView] at hlookup
    split at hlookup
    next hthird =>
      cases hlookup
      exact .inr ⟨hthird ▸ hother, h.nextId_not_mem⟩
    next => exact .inl hlookup
  · rw [lookup_defineView, if_neg (Ne.symm hother)]

theorem Twin.createEphemeral (h : Twin name made s r) (map : MapFunction)
    (htidy : (s.createEphemeral map).2.Tidy) : Twin name made (s.createEphemeral map).2 r := by
  refine h.of_names htidy ?_ (Nat.le_succ _) rfl
  refine h.alike.elsewhere rfl rfl (fun id hid => ?_) fun _ _ _ _ _ _ => rfl
  exact view?_addView_of_ne (ne_nextId (h.known id hid)) map none

/-- A deletion of another index takes none of the views away. -/
theorem Twin.deleteElsewhere (h : Twin name made s r) {index : Descriptor} (hid : index.id ∉ made)
    (hdelete : s.deleteIndex index = .ok s') (htidy : s'.Tidy) : Twin name made s' r := by
  have hwithout := without_of_deleteIndex hdelete
  refine h.elsewhere htidy ?_ (Nat.le_of_eq hwithout.numbered.symm) ?_ ?_
  · refine h.alike.elsewhere hwithout.generation hwithout.documents (fun id hmem => ?_)
      fun id hmem view hfound g hindexed => ?_
    · rw [hwithout.views, if_neg]
      rintro rfl
      exact hid hmem
    · rw [due, due, hwithout.log]
  · intro other id hfound
    rw [hwithout.names] at hfound
    split at hfound
    · cases hfound
    · exact .inl hfound
  · rw [hwithout.names, if_neg fun hown => hid ((h.names name index.id hown.2).1 rfl)]

/-- A view that is deleted can be deleted in the purged run, where nobody is subscribed to it. -/
theorem Twin.exists_deleteIndex (h : Twin name made s r) {index : Descriptor} (hid : index.id ∈ made)
    (hdelete : s.deleteIndex index = .ok s') :
    ∃ r', r.deleteIndex (index.relabel (ordinal made)) = .ok r' := by
  have hthere : r.hasIndex (ordinal made index.id) = true := by
    rw [hasIndex, h.alike.views index.id hid, Option.isSome_map, ← hasIndex]
    exact (deleteIndex_eq_ok hdelete).1
  have hlabel : (index.relabel (ordinal made)).id = ordinal made index.id := rfl
  rw [deleteIndex, hlabel, hthere, h.unheard]
  exact ⟨_, rfl⟩

theorem Twin.alike_delete (h : Twin name made s r) {index : Descriptor} {r' : Store}
    (hwithout : Without index s s') (hwithout' : Without (index.relabel (ordinal made)) r r') :
    Likeness made s' r' := by
  refine ⟨?_, ?_, ?_, ?_⟩
  · rw [hwithout.generation, hwithout'.generation, h.alike.generation]
  · rw [hwithout.documents, hwithout'.documents, h.alike.documents]
  · intro id hmem
    have hsame : ordinal made id = (index.relabel (ordinal made)).id ↔ id = index.id :=
      ordinal_inj hmem
    rw [hwithout.views, hwithout'.views]
    simp only [hsame]
    split
    · rfl
    · exact h.alike.views id hmem
  · intro id hmem view hfound g hindexed
    rw [hwithout.views] at hfound
    split at hfound
    · cases hfound
    · rw [due, due, hwithout.log, hwithout'.log]
      exact h.alike.due id hmem view hfound g hindexed

theorem Twin.delete (h : Twin name made s r) {index : Descriptor} {r' : Store}
    (hid : index.id ∈ made) (hdelete : s.deleteIndex index = .ok s')
    (hdelete' : r.deleteIndex (index.relabel (ordinal made)) = .ok r') (htidy : s'.Tidy)
    (htidy' : r'.Tidy) : Twin name made s' r' := by
  have hwithout := without_of_deleteIndex hdelete
  have hwithout' := without_of_deleteIndex hdelete'
  refine ⟨h.alike_delete hwithout hwithout', htidy, htidy', ?_, ?_, ?_, ?_, ?_⟩
  · rw [hwithout.numbered]
    exact h.known
  · intro other id hfound
    rw [hwithout.names] at hfound
    split at hfound
    · cases hfound
    · exact h.names other id hfound
  · have hsame : index.name = some name ∧
          r.names.lookup name = some (index.relabel (ordinal made)).id ↔
        index.name = some name ∧ s.names.lookup name = some index.id :=
      and_congr_right' (h.lookup_iff hid)
    have hname : (index.relabel (ordinal made)).name = index.name := rfl
    rw [hwithout.names, hwithout'.names, hname]
    simp only [hsame]
    split
    · rfl
    · exact h.named
  · rw [hwithout'.numbered, h.numbered]
  · rw [hwithout'.subscriptions, h.unheard]

theorem Twin.scan (h : Twin name made s r) (hid : id ∈ made) {request : Request}
    (htarget : request.target = .index id) :
    Twin name made (s.scan request).1
        (r.scan (request.retarget (.index (ordinal made id)))).1 ∧
      (r.scan (request.retarget (.index (ordinal made id)))).2 =
        (s.scan request).2.mapError (IndexError.relabel (ordinal made)) := by
  obtain ⟨halike, hanswer⟩ := h.alike.scan h.tidy.logged h.tidy'.logged hid htarget
  exact ⟨h.of_same halike (same_scan ..) (same_scan ..) (h.tidy.perform (.scan request))
    (h.tidy'.perform (.scan (request.retarget (.index (ordinal made id))))), hanswer⟩

/-- A scan of anything else leaves the views as they are. -/
theorem Twin.scanElsewhere (h : Twin name made s r) {request : Request}
    (htarget : ∀ id ∈ made, request.target ≠ .index id) : Twin name made (s.scan request).1 r := by
  have hcounted : Likeness made { s with scans := s.scans + 1 } r :=
    ⟨h.alike.generation, h.alike.documents, h.alike.views, h.alike.due⟩
  have hsame := same_scan s request
  refine h.of_names (h.tidy.perform (.scan request)) ?_ (Nat.le_of_eq hsame.numbered.symm)
    hsame.names
  rcases fst_scan s request with heq | ⟨id, hindex, heq⟩
  · rw [heq]
    exact hcounted
  · rw [heq]
    exact hcounted.refreshElsewhere fun hid => htarget id hid hindex

/-- A command keeps the runs twins, and a scan of one of the views is answered in both alike. -/
theorem Twin.perform (h : Twin name made s r) (command : Command) :
    Twin name (command.makes name s made) (s.perform command)
        ((command.concern? name s made).toList.foldl Store.perform r) ∧
      command.reply? name s made = (command.concern? name s made).bind (Command.answer? r) := by
  have htidy := h.tidy.perform command
  cases command with
  | put id body =>
    exact ⟨h.written id (putEdit id body) htidy (h.tidy'.perform (.put id body)), rfl⟩
  | delete id =>
    exact ⟨h.written id (deleteEdit id) htidy (h.tidy'.perform (.delete id)), rfl⟩
  | addConflict id rev =>
    exact ⟨h.written id (conflictEdit id rev) htidy (h.tidy'.perform (.addConflict id rev)), rfl⟩
  | resolveConflicts id =>
    exact ⟨h.written id (resolveEdit id) htidy (h.tidy'.perform (.resolveConflicts id)), rfl⟩
  | defineView other map reduce =>
    by_cases hother : other = name
    · subst hother
      have hdefined := h.define map reduce htidy (h.tidy'.perform (.defineView other map reduce))
      simp only [Command.makes, Command.reply?, Command.concern?, if_true]
      exact ⟨hdefined, rfl⟩
    · simp only [Command.makes, Command.reply?, Command.concern?, if_neg hother]
      exact ⟨h.defineElsewhere hother map reduce htidy, rfl⟩
  | createEphemeral map => exact ⟨h.createEphemeral map htidy, rfl⟩
  | deleteIndex index =>
    simp only [Command.makes, Command.reply?, Command.concern?]
    rw [Store.perform] at htidy ⊢
    cases hdelete : s.deleteIndex index with
    | error error =>
      rw [if_neg (by simp [Except.isOk, Except.toBool])]
      exact ⟨h, rfl⟩
    | ok s' =>
      rw [hdelete] at htidy
      by_cases hid : index.id ∈ made
      · obtain ⟨r', hdelete'⟩ := h.exists_deleteIndex hid hdelete
        have htidy' := h.tidy'.perform (.deleteIndex (index.relabel (ordinal made)))
        rw [Store.perform, hdelete'] at htidy'
        rw [if_pos ⟨hid, rfl⟩, Option.toList_some, List.foldl_cons, List.foldl_nil, Store.perform,
          hdelete']
        exact ⟨h.delete hid hdelete hdelete' htidy htidy', rfl⟩
      · rw [if_neg fun hok => hid hok.1]
        exact ⟨h.deleteElsewhere hid hdelete htidy, rfl⟩
  | subscribe index observer =>
    refine ⟨?_, rfl⟩
    rw [Store.perform] at htidy ⊢
    cases hsubscribe : s.subscribe index observer with
    | error error => exact h
    | ok done =>
      rw [hsubscribe] at htidy
      obtain ⟨token, subscribed⟩ := done
      obtain ⟨-, -, rfl⟩ := subscribe_eq_ok hsubscribe
      exact h.of_names htidy ⟨h.alike.generation, h.alike.documents, h.alike.views, h.alike.due⟩
        (Nat.le_refl _) rfl
  | unsubscribe token =>
    exact ⟨h.of_names htidy ⟨h.alike.generation, h.alike.documents, h.alike.views, h.alike.due⟩
      (Nat.le_refl _) rfl, rfl⟩
  | scan request =>
    simp only [Command.makes, Command.reply?, Command.concern?]
    split
    next id htarget =>
      split
      next hid =>
        obtain ⟨htwin, hanswer⟩ := h.scan hid htarget
        exact ⟨htwin, congrArg some hanswer.symm⟩
      next hid =>
        refine ⟨h.scanElsewhere fun other hother heq => hid ?_, rfl⟩
        rw [htarget] at heq
        cases heq
        exact hother
    next htarget =>
      refine ⟨h.scanElsewhere fun other _ heq => ?_, rfl⟩
      rw [htarget] at heq
      cases heq

/-! ## Whole runs -/

theorem answers_append (s : Store) (commands more : List Command) :
    s.answers (commands ++ more) =
      s.answers commands ++ (commands.foldl Store.perform s).answers more := by
  induction commands generalizing s with
  | nil => rfl
  | cons command rest ih =>
    rw [List.cons_append, answers, answers, ih, List.append_assoc, List.foldl_cons]

theorem answers_toList (s : Store) (command : Option Command) :
    s.answers command.toList = (command.bind (Command.answer? s)).toList := by
  cases command with
  | none => rfl
  | some command => rw [Option.toList_some, answers, answers, List.append_nil, Option.bind_some]

/-- The purged run answers the scans of the views as the whole run does. -/
theorem Twin.replies (h : Twin name made s r) (history : List Command) :
    s.replies name made history = r.answers (s.concerns name made history) := by
  -- Each definition under the name makes a further view, so the views made so far go along.
  induction history generalizing s r made with
  | nil => rfl
  | cons command rest ih =>
    obtain ⟨htwin, hreply⟩ := h.perform command
    rw [Store.replies, concerns, answers_append, answers_toList, hreply, ih htwin]

/-- Two runs with the same writes and the same definitions, deletions and scans of the views of a
name, in the same order, answer every one of these scans alike: the same rows and generation, or the
same error.  What is done to other indexes in between, and where either store begins to number its
indexes, does not matter. -/
theorem replies_eq_of_concerns_eq (name : String) {numbered numbered' : Nat}
    {history history' : List Command}
    (h : (empty numbered).concerns name [] history =
      (empty numbered').concerns name [] history') :
    (empty numbered).replies name [] history = (empty numbered').replies name [] history' := by
  rw [(twin_empty name numbered).replies history, (twin_empty name numbered').replies history', h]

/-- A view is built, lags behind, catches up after it is read, and crashes. -/
def alone : List Command :=
  [.put "a" (.bool true), .defineView "v" bodyById none, .scan (wholeOf ⟨1⟩ .refreshBefore),
   .put "b" (.bool true), .scan (wholeOf ⟨1⟩ .refreshAfter), .put "c" .null,
   .scan (wholeOf ⟨1⟩ .neverRefresh), .scan (wholeOf ⟨1⟩ .refreshBefore)]

/-- The same among other indexes, one of which keeps changes in the log until it is deleted, and one
of which crashes and is defined anew. -/
def crowded : List Command :=
  [.createEphemeral bodyById, .put "a" (.bool true), .scan (wholeOf ⟨6⟩ .refreshBefore),
   .defineView "w" bodyById none, .defineView "v" bodyById none,
   .scan (wholeOf ⟨8⟩ .refreshBefore), .put "b" (.bool true), .scan (wholeOf ⟨7⟩ .refreshBefore),
   .scan (wholeOf ⟨8⟩ .refreshAfter), .put "c" .null, .scan (wholeOf ⟨7⟩ .refreshBefore),
   .deleteIndex ⟨⟨6⟩, none, false⟩, .scan (wholeOf ⟨8⟩ .neverRefresh),
   .defineView "w" bodyById none, .scan (wholeOf ⟨8⟩ .refreshBefore)]

/-- Purged, the crowded run is the other; so the view answers its four scans alike in both, though
the logs differ on the way. -/
theorem replies_alone_eq_replies_crowded :
    (after 0 (alone.take 6)).log = [(3, "c")] ∧
      (after 5 (crowded.take 11)).log = [(2, "b"), (3, "c")] ∧
      (empty 0).concerns "v" [] alone = alone ∧ (empty 5).concerns "v" [] crowded = alone ∧
      ((empty 0).replies "v" [] alone).length = 4 ∧
      (empty 0).replies "v" [] alone = (empty 5).replies "v" [] crowded := by
  have halone : (empty 0).concerns "v" [] alone = alone := rfl
  have hcrowded : (empty 5).concerns "v" [] crowded = alone := rfl
  exact ⟨rfl, rfl, halone, hcrowded, rfl,
    replies_eq_of_concerns_eq "v" (halone.trans hcrowded.symm)⟩

end Store

end Viewbase
