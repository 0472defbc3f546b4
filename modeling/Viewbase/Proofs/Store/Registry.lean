import Viewbase.Proofs.Store.Chronicle
import Viewbase.Proofs.Store.Naming
import Mathlib.Data.List.Nodup

/-!
Names and views, over a whole history.

The views that there are were made by definitions, whose handles are known, and are those that were
neither deleted nor replaced; and the names lead to the named ones of them (`Registered`).  Main
statement: looking a name up gives the handle of its latest definition unless that was deleted, and
the handles of earlier and of deleted definitions are of no use (`names_lead_to_latest`).

A definition, a deletion through any handle that was answered, and all other commands keep the two
tables in line (`Registered.define`, `Registered.delete`, `Registered.perform`).
-/

namespace Viewbase.Store

/-- The handles of the views that there are. -/
def descriptors (s : Store) : List Descriptor :=
  s.views.map View.descriptor

/-- The handle that a command answers, if it makes a view. -/
def handle? (s : Store) : Command → Option Descriptor
  | .defineView name map reduce => some (s.defineView name map reduce).1
  | .createEphemeral map => some (s.createEphemeral map).1
  | _ => none

/-- The handles that were answered in a run, in turn. -/
abbrev handles (s : Store) (history : List Command) : List Descriptor :=
  s.chronicle handle? history

/-- The index that a command deletes, if it succeeds. -/
def deletes? (s : Store) : Command → Option IndexId
  | .deleteIndex index =>
    match s.deleteIndex index with
    | .ok _ => some index.id
    | .error _ => none
  | _ => none

/-- The indexes that were deleted in a run. -/
abbrev deletions (s : Store) (history : List Command) : List IndexId :=
  s.chronicle deletes? history

/-- The handle of the latest definition under a name. -/
def latest? (name : String) (handles : List Descriptor) : Option Descriptor :=
  (handles.filter fun handle => handle.name == some name).getLast?

/-- All deletions are made through handles that were answered before, outdated ones among them. -/
def DeletesHandles (numbered : Nat) (history : List Command) : Prop :=
  ∀ n index, history[n]? = some (.deleteIndex index) →
    index ∈ (empty numbered).handles (history.take n)

/-- The views and the names are what is left of the definitions that were answered. -/
structure Registered (s : Store) (handles : List Descriptor) (deleted : List IndexId) : Prop where
  known : ∀ handle ∈ handles, handle.id.number ≤ s.numbered
  distinct : (handles.map Descriptor.id).Nodup
  gone : ∀ id ∈ deleted, id.number ≤ s.numbered
  given : s.descriptors.Sublist handles
  /-- A name leads to a view of that name. -/
  leads : ∀ entry ∈ s.names,
    ∃ handle ∈ s.descriptors, handle.id = entry.2 ∧ handle.name = some entry.1
  /-- A named view is where its name leads. -/
  target : ∀ handle ∈ s.descriptors, ∀ name, handle.name = some name →
    s.names.lookup name = some handle.id
  /-- There are the views that were neither deleted nor replaced. -/
  there : ∀ handle ∈ handles, handle ∈ s.descriptors ↔
    handle.id ∉ deleted ∧ ∀ name, handle.name = some name → latest? name handles = some handle

variable {s s' : Store} {handles : List Descriptor} {deleted : List IndexId}

theorem registered_empty (numbered : Nat) : (empty numbered).Registered [] [] where
  known := nofun
  distinct := .nil
  gone := nofun
  given := .slnil
  leads := nofun
  target := nofun
  there := nofun

/-! ## The two tables -/

theorem latest?_append_self {name : String} {handle : Descriptor} (h : handle.name = some name)
    (handles : List Descriptor) : latest? name (handles ++ [handle]) = some handle := by
  rw [latest?, List.filter_append, List.filter_cons_of_pos (by simp [h]), List.filter_nil,
    List.getLast?_concat]

theorem latest?_append_of_ne {name : String} {handle : Descriptor} (h : handle.name ≠ some name)
    (handles : List Descriptor) : latest? name (handles ++ [handle]) = latest? name handles := by
  rw [latest?, List.filter_append, List.filter_cons_of_neg (by simpa using h), List.filter_nil,
    List.append_nil]
  rfl

theorem mem_of_lookup {names : List (String × IndexId)} {name : String} {id : IndexId}
    (h : names.lookup name = some id) : (name, id) ∈ names := by
  obtain ⟨earlier, later, rfl, -⟩ := List.lookup_eq_some_iff.1 h
  simp

/-- Handles of the same index are the same. -/
theorem Registered.eq_of_id (h : s.Registered handles deleted) {handle other : Descriptor}
    (hhandle : handle ∈ handles) (hother : other ∈ handles) (hid : handle.id = other.id) :
    handle = other :=
  List.inj_on_of_nodup_map h.distinct hhandle hother hid

theorem Registered.lookup_iff (h : s.Registered handles deleted) {name : String} {id : IndexId} :
    s.names.lookup name = some id ↔
      ∃ handle ∈ s.descriptors, handle.id = id ∧ handle.name = some name := by
  constructor
  · exact fun hlookup => h.leads (name, id) (mem_of_lookup hlookup)
  · rintro ⟨handle, hhandle, rfl, hname⟩
    exact h.target handle hhandle name hname

theorem view?_map_descriptor (s : Store) (id : IndexId) :
    (s.view? id).map View.descriptor =
      s.descriptors.find? fun handle => decide (handle.id = id) := by
  rw [view?, descriptors, List.find?_map]
  rfl

/-- The view of a handle is found by its identity. -/
theorem Registered.find_eq (h : s.Registered handles deleted) {handle : Descriptor}
    (hhandle : handle ∈ s.descriptors) :
    (s.view? handle.id).map View.descriptor = some handle := by
  rw [view?_map_descriptor]
  cases hfound : s.descriptors.find? fun other => decide (other.id = handle.id) with
  | none => simpa using List.find?_eq_none.1 hfound handle hhandle
  | some other =>
    have hid : other.id = handle.id := by simpa using List.find?_some hfound
    have hother := h.given.subset (List.mem_of_find?_eq_some hfound)
    exact congrArg some (h.eq_of_id hother (h.given.subset hhandle) hid)

/-! ## Definitions -/

theorem descriptors_defineView (s : Store) (name : String) (map : MapFunction)
    (reduce : Option ReduceFunction) :
    (s.defineView name map reduce).2.descriptors =
      (s.descriptors.filter fun handle => !decide (s.names.lookup name = some handle.id)) ++
        [(s.defineView name map reduce).1] := by
  have hnew : ∀ views : List View,
      (views ++ [View.unbuilt (Descriptor.named s.nextId name reduce.isSome) map reduce]).map
        View.descriptor =
      views.map View.descriptor ++ [Descriptor.named s.nextId name reduce.isSome] :=
    fun views => List.map_append
  have hcleared : ∀ old : IndexId, s.names.lookup name = some old →
      (s.removeView old).views.map View.descriptor =
        s.descriptors.filter fun handle => !decide (s.names.lookup name = some handle.id) := by
    intro old hold
    rw [removeView, descriptors, List.filter_map]
    refine congrArg _ (List.filter_congr fun view _ => ?_)
    refine congrArg (!·) (decide_eq_decide.2 ?_)
    rw [hold, Option.some_inj]
    exact eq_comm
  rw [defineView, descriptors]
  split
  next old hold =>
    exact (hnew _).trans (congrArg (· ++ _) (hcleared old hold))
  next hnone =>
    refine (hnew _).trans (congrArg (· ++ _) ?_)
    rw [descriptors, List.filter_eq_self.2]
    simp [hnone]

theorem mem_names_defineView {name : String} {map : MapFunction} {reduce : Option ReduceFunction}
    {entry : String × IndexId} (hentry : entry ∈ (s.defineView name map reduce).2.names) :
    entry ∈ s.names ∧ entry.1 ≠ name ∨ entry = (name, s.nextId) := by
  have hlast : ∀ names : List (String × IndexId), entry ∈ names ++ [(name, s.nextId)] →
      (entry ∈ names → entry ∈ s.names ∧ entry.1 ≠ name) →
      entry ∈ s.names ∧ entry.1 ≠ name ∨ entry = (name, s.nextId) := by
    intro names hmem hold
    rcases List.mem_append.1 hmem with hmem | hmem
    · exact .inl (hold hmem)
    · exact .inr (List.mem_singleton.1 hmem)
  rw [defineView] at hentry
  split at hentry
  next old hold =>
    refine hlast _ hentry fun hmem => ?_
    obtain ⟨hmem, hne⟩ := List.mem_filter.1 hmem
    exact ⟨hmem, by simpa using hne⟩
  next hnone =>
    refine hlast _ hentry fun hmem => ⟨hmem, ?_⟩
    rintro rfl
    simpa using List.lookup_eq_none_iff.1 hnone entry hmem

/-- A definition takes away the view of its name, and no other. -/
theorem Registered.mem_defineView (h : s.Registered handles deleted) {name : String}
    {map : MapFunction} {reduce : Option ReduceFunction} {handle : Descriptor} :
    handle ∈ (s.defineView name map reduce).2.descriptors ↔
      handle ∈ s.descriptors ∧ handle.name ≠ some name ∨
        handle = (s.defineView name map reduce).1 := by
  rw [descriptors_defineView, List.mem_append, List.mem_singleton, List.mem_filter]
  refine or_congr_left (and_congr_right fun hhandle => ?_)
  rw [Bool.not_eq_true', decide_eq_false_iff_not, h.lookup_iff]
  refine not_congr ⟨?_, fun hname => ⟨handle, hhandle, rfl, hname⟩⟩
  rintro ⟨other, hother, hid, hname⟩
  rwa [← h.eq_of_id (h.given.subset hother) (h.given.subset hhandle) hid]

/-- The next handle is none that was known, and was not deleted before. -/
theorem Registered.fresh (h : s.Registered handles deleted) {handle : Descriptor}
    (hid : handle.id = s.nextId) : handle ∉ handles ∧ handle.id ∉ deleted :=
  ⟨fun hhandle => ne_nextId (h.known handle hhandle) hid,
    fun hgone => ne_nextId (h.gone handle.id hgone) hid⟩

theorem Registered.distinct_append (h : s.Registered handles deleted) {handle : Descriptor}
    (hid : handle.id = s.nextId) : ((handles ++ [handle]).map Descriptor.id).Nodup := by
  rw [List.map_append, List.nodup_append]
  refine ⟨h.distinct, List.nodup_singleton _, ?_⟩
  rintro _ hold _ hnew rfl
  obtain ⟨other, hother, hsame⟩ := List.mem_map.1 hold
  rw [List.map_singleton, List.mem_singleton, hid] at hnew
  exact ne_nextId (h.known other hother) (hsame.trans hnew)

theorem Registered.known_append (h : s.Registered handles deleted) {handle : Descriptor}
    (hid : handle.id = s.nextId) (hnumbered : s'.numbered = s.numbered + 1) :
    ∀ other ∈ handles ++ [handle], other.id.number ≤ s'.numbered := by
  intro other hother
  rw [hnumbered]
  rcases List.mem_append.1 hother with hold | hnew
  · exact Nat.le_succ_of_le (h.known other hold)
  · rw [List.mem_singleton.1 hnew, hid]
    exact Nat.le_refl _

theorem Registered.define (h : s.Registered handles deleted) (name : String) (map : MapFunction)
    (reduce : Option ReduceFunction) :
    (s.defineView name map reduce).2.Registered (handles ++ [(s.defineView name map reduce).1])
      deleted := by
  have hname : (s.defineView name map reduce).1.name = some name := rfl
  have hid : (s.defineView name map reduce).1.id = s.nextId := rfl
  have hnumbered := numbered_defineView s name map reduce
  refine ⟨h.known_append hid hnumbered, h.distinct_append hid, ?_, ?_, ?_, ?_, ?_⟩
  · intro id hgone
    rw [hnumbered]
    exact Nat.le_succ_of_le (h.gone id hgone)
  · rw [descriptors_defineView]
    exact (List.filter_sublist.trans h.given).append (.refl _)
  · intro entry hentry
    rcases mem_names_defineView hentry with ⟨hold, hne⟩ | rfl
    · obtain ⟨handle, hhandle, hleads, hentryName⟩ := h.leads entry hold
      refine ⟨handle, h.mem_defineView.2 (.inl ⟨hhandle, ?_⟩), hleads, hentryName⟩
      rw [hentryName]
      exact fun heq => hne (Option.some.inj heq)
    · exact ⟨_, h.mem_defineView.2 (.inr rfl), hid, hname⟩
  · intro handle hhandle other hother
    rw [lookup_defineView]
    rcases h.mem_defineView.1 hhandle with ⟨hold, hne⟩ | rfl
    · rw [if_neg fun heq => hne (by rw [hother, heq])]
      exact h.target handle hold other hother
    · rw [if_pos (Option.some.inj (hother.symm.trans hname)), hid]
  · intro handle hhandle
    rw [h.mem_defineView]
    rcases List.mem_append.1 hhandle with hold | hnew
    · have hne : handle ≠ (s.defineView name map reduce).1 :=
        ne_of_mem_of_not_mem hold (h.fresh hid).1
      rw [or_iff_left hne, h.there handle hold]
      by_cases hsame : handle.name = some name
      · refine iff_of_false (fun hkept => hkept.2 hsame) fun hlatest => hne ?_
        exact (Option.some.inj ((latest?_append_self hname handles).symm.trans
          (hlatest.2 name hsame))).symm
      · rw [and_iff_left hsame]
        refine and_congr_right fun _ => forall₂_congr fun other hother => ?_
        rw [latest?_append_of_ne fun heq => hsame (hother.trans (heq.symm.trans hname))]
    · rw [List.mem_singleton.1 hnew]
      refine iff_of_true (.inr rfl) ⟨(h.fresh hid).2, fun other hother => ?_⟩
      rw [← Option.some.inj (hname.symm.trans hother)]
      exact latest?_append_self hname handles

/-- An index without a name comes, and all names stay. -/
theorem Registered.createEphemeral (h : s.Registered handles deleted) (map : MapFunction) :
    (s.createEphemeral map).2.Registered (handles ++ [(s.createEphemeral map).1]) deleted := by
  have hunnamed : (s.createEphemeral map).1.name = none := rfl
  have hid : (s.createEphemeral map).1.id = s.nextId := rfl
  have hdescriptors : (s.createEphemeral map).2.descriptors =
      s.descriptors ++ [(s.createEphemeral map).1] := List.map_append
  refine ⟨h.known_append hid rfl, h.distinct_append hid, ?_, ?_, ?_, ?_, ?_⟩
  · exact fun id hgone => Nat.le_succ_of_le (h.gone id hgone)
  · rw [hdescriptors]
    exact h.given.append (.refl _)
  · intro entry hentry
    obtain ⟨handle, hhandle, hleads⟩ := h.leads entry hentry
    exact ⟨handle, hdescriptors ▸ List.mem_append_left _ hhandle, hleads⟩
  · intro handle hhandle name hname
    rw [hdescriptors] at hhandle
    rcases List.mem_append.1 hhandle with hold | hnew
    · exact h.target handle hold name hname
    · rw [List.mem_singleton.1 hnew, hunnamed] at hname
      cases hname
  · intro handle hhandle
    have hlatest : ∀ name, latest? name (handles ++ [(s.createEphemeral map).1]) =
        latest? name handles := fun name => latest?_append_of_ne (by simp [hunnamed]) handles
    simp only [hdescriptors, List.mem_append, List.mem_singleton, hlatest]
    rcases List.mem_append.1 hhandle with hold | hnew
    · rw [or_iff_left (ne_of_mem_of_not_mem hold (h.fresh hid).1), h.there handle hold]
    · rw [List.mem_singleton.1 hnew]
      refine iff_of_true (.inr rfl) ⟨(h.fresh hid).2, fun name hname => ?_⟩
      rw [hunnamed] at hname
      cases hname

/-! ## Deletions -/

theorem descriptors_deleteIndex {index : Descriptor} (hdelete : s.deleteIndex index = .ok s') :
    s'.descriptors = s.descriptors.filter fun handle => !decide (handle.id = index.id) := by
  have hremoved : (s.removeView index.id).views.map View.descriptor =
      s.descriptors.filter fun handle => !decide (handle.id = index.id) := by
    rw [removeView, descriptors, List.filter_map]
    rfl
  obtain ⟨-, -, ⟨name, -, -, rfl⟩ | ⟨-, rfl⟩⟩ := deleteIndex_eq_ok hdelete
  · exact hremoved
  · exact hremoved

/-- A name that stays did not lead to the index by its own name. -/
theorem mem_names_deleteIndex {index : Descriptor} (hdelete : s.deleteIndex index = .ok s')
    {entry : String × IndexId} (hentry : entry ∈ s'.names) :
    entry ∈ s.names ∧
      ¬ (index.name = some entry.1 ∧ s.names.lookup entry.1 = some index.id) := by
  obtain ⟨-, -, ⟨name, hname, -, rfl⟩ | ⟨hnot, rfl⟩⟩ := deleteIndex_eq_ok hdelete
  · obtain ⟨hold, hne⟩ := List.mem_filter.1 hentry
    refine ⟨hold, fun ⟨hsame, _⟩ => ?_⟩
    rw [hname, Option.some_inj] at hsame
    simp [hsame] at hne
  · exact ⟨hentry, fun ⟨hsame, hlookup⟩ => hnot entry.1 hsame hlookup⟩

/-- A deletion through a handle takes away its view, and the name if it leads there. -/
theorem Registered.delete (h : s.Registered handles deleted) {index : Descriptor}
    (hindex : index ∈ handles) (hdelete : s.deleteIndex index = .ok s') :
    s'.Registered handles (deleted ++ [index.id]) := by
  have hwithout := without_of_deleteIndex hdelete
  have hmem : ∀ handle, handle ∈ s'.descriptors ↔
      handle ∈ s.descriptors ∧ handle.id ≠ index.id := by
    intro handle
    rw [descriptors_deleteIndex hdelete, List.mem_filter]
    simp
  refine ⟨hwithout.numbered ▸ h.known, h.distinct, ?_, ?_, ?_, ?_, ?_⟩
  · intro id hgone
    rw [hwithout.numbered]
    rcases List.mem_append.1 hgone with hold | hnew
    · exact h.gone id hold
    · rw [List.mem_singleton.1 hnew]
      exact h.known index hindex
  · rw [descriptors_deleteIndex hdelete]
    exact List.filter_sublist.trans h.given
  · intro entry hentry
    obtain ⟨hold, hstays⟩ := mem_names_deleteIndex hdelete hentry
    obtain ⟨handle, hhandle, hleads, hname⟩ := h.leads entry hold
    refine ⟨handle, (hmem handle).2 ⟨hhandle, fun hid => hstays ?_⟩, hleads, hname⟩
    -- The view of the index is the one that the name leads to, so the handle is the index itself.
    have hself : handle = index := h.eq_of_id (h.given.subset hhandle) hindex hid
    subst hself
    exact ⟨hname, h.target handle hhandle entry.1 hname⟩
  · intro handle hhandle name hname
    obtain ⟨hold, hne⟩ := (hmem handle).1 hhandle
    have htarget := h.target handle hold name hname
    rw [hwithout.names, if_neg, htarget]
    rw [htarget]
    exact fun hown => hne (Option.some.inj hown.2)
  · intro handle hhandle
    rw [hmem, h.there handle hhandle, List.mem_append, List.mem_singleton, not_or]
    exact and_right_comm

/-! ## Other commands -/

theorem Registered.of_tables (h : s.Registered handles deleted)
    (hdescriptors : s'.descriptors = s.descriptors) (hnames : s'.names = s.names)
    (hnumbered : s'.numbered = s.numbered) : s'.Registered handles deleted := by
  obtain ⟨known, distinct, gone, given, leads, target, there⟩ := h
  constructor
  · rwa [hnumbered]
  · exact distinct
  · rwa [hnumbered]
  · rwa [hdescriptors]
  · rwa [hnames, hdescriptors]
  · rwa [hnames, hdescriptors]
  · rwa [hdescriptors]

/-- Catching up replaces the views by others of the same handles. -/
theorem Registered.descriptors_refresh (h : s.Registered handles deleted) (id : IndexId) :
    (s.refresh id).1.descriptors = s.descriptors := by
  rw [Store.refresh]
  split
  · rfl
  next found hfound =>
    split
    · rfl
    · obtain ⟨view, log, halike, heq⟩ := catchUp_eq s found
      have hmem : ∀ view ∈ s.views, view.descriptor ∈ handles := fun view hview =>
        h.given.subset (List.mem_map_of_mem hview)
      rw [heq, descriptors, setView, List.map_map]
      refine List.map_congr_left fun old hold => ?_
      rw [Function.comp_apply]
      split
      next hid =>
        have hsame : old.descriptor.id = found.descriptor.id := hid.trans halike.id
        rw [halike.descriptor,
          h.eq_of_id (hmem old hold) (hmem found (List.mem_of_find?_eq_some hfound)) hsame]
      next => rfl

theorem Registered.scan (h : s.Registered handles deleted) (request : Request) :
    (s.scan request).1.Registered handles deleted := by
  have hsame := same_scan s request
  refine h.of_tables ?_ hsame.names hsame.numbered
  have hcounted : Registered { s with scans := s.scans + 1 } handles deleted :=
    h.of_tables rfl rfl rfl
  rcases fst_scan s request with heq | ⟨id, -, heq⟩
  · rw [heq]
    rfl
  · rw [heq]
    exact hcounted.descriptors_refresh id

theorem Registered.written (h : s.Registered handles deleted) (docId : String) (edit : Edit) :
    (s.written docId edit).Registered handles deleted := by
  have hsame := same_written s docId edit
  refine h.of_tables ?_ hsame.names hsame.numbered
  rw [Store.written]
  split
  next hwrite =>
    obtain ⟨-, rfl⟩ := write_eq_ok hwrite
    rfl
  next => rfl

/-- Every command keeps the tables in line with what was answered and deleted. -/
theorem Registered.perform (h : s.Registered handles deleted) {command : Command}
    (hown : ∀ index, command = .deleteIndex index → index ∈ handles) :
    (s.perform command).Registered (handles ++ (s.handle? command).toList)
      (deleted ++ (s.deletes? command).toList) := by
  have hsilent : ∀ {s' : Store}, s'.Registered handles deleted →
      s'.Registered (handles ++ (none : Option Descriptor).toList)
        (deleted ++ (none : Option IndexId).toList) := by
    intro s' hs'
    rwa [Option.toList_none, Option.toList_none, List.append_nil, List.append_nil]
  cases command with
  | put id body => exact hsilent (h.written id (putEdit id body))
  | delete id => exact hsilent (h.written id (deleteEdit id))
  | addConflict id rev => exact hsilent (h.written id (conflictEdit id rev))
  | resolveConflicts id => exact hsilent (h.written id (resolveEdit id))
  | defineView name map reduce =>
    exact (List.append_nil deleted).symm ▸ h.define name map reduce
  | createEphemeral map => exact (List.append_nil deleted).symm ▸ h.createEphemeral map
  | deleteIndex index =>
    rw [deletes?, Store.perform]
    cases hdelete : s.deleteIndex index with
    | error error => exact hsilent h
    | ok s' => exact (List.append_nil handles).symm ▸ h.delete (hown index rfl) hdelete
  | subscribe index observer =>
    rw [Store.perform]
    split
    next hsubscribe =>
      obtain ⟨-, -, rfl⟩ := subscribe_eq_ok hsubscribe
      exact hsilent (h.of_tables rfl rfl rfl)
    next => exact hsilent h
  | unsubscribe token => exact hsilent (h.of_tables rfl rfl rfl)
  | scan request => exact hsilent (h.scan request)

/-! ## Histories -/

theorem DeletesHandles.of_append_singleton {numbered : Nat} {history : List Command}
    {command : Command} (h : DeletesHandles numbered (history ++ [command])) :
    DeletesHandles numbered history ∧
      ∀ index, command = .deleteIndex index → index ∈ (empty numbered).handles history := by
  constructor
  · intro n index hn
    have hlt : n < history.length := (List.getElem?_eq_some_iff.1 hn).1
    have hown := h n index (by rw [List.getElem?_append_left hlt, hn])
    rwa [List.take_append_of_le_length (Nat.le_of_lt hlt)] at hown
  · rintro index rfl
    have hown := h history.length index List.getElem?_concat_length
    rwa [List.take_left] at hown

theorem registered_after {numbered : Nat} {history : List Command}
    (h : DeletesHandles numbered history) :
    (after numbered history).Registered ((empty numbered).handles history)
      ((empty numbered).deletions history) := by
  induction history using List.reverseRecOn with
  | nil => exact registered_empty numbered
  | append_singleton history command ih =>
    obtain ⟨hearlier, hown⟩ := h.of_append_singleton
    rw [handles, deletions, chronicle_append_singleton, chronicle_append_singleton, after,
      List.foldl_append]
    exact (ih hearlier).perform hown

/-- The view of a handle that was answered is gone if it is not among those that there are. -/
theorem Registered.view?_eq_none (h : s.Registered handles deleted) {handle : Descriptor}
    (hhandle : handle ∈ handles) (hgone : handle ∉ s.descriptors) : s.view? handle.id = none := by
  cases hview : s.view? handle.id with
  | none => rfl
  | some view =>
    have hid : view.id = handle.id := by simpa using List.find?_some hview
    have hmem : view.descriptor ∈ s.descriptors :=
      List.mem_map_of_mem (List.mem_of_find?_eq_some hview)
    exact absurd (h.eq_of_id (h.given.subset hmem) hhandle hid ▸ hmem) hgone

/-- A look-up gives the named view that there is. -/
theorem Registered.named?_eq_some_iff (h : s.Registered handles deleted) {name : String}
    {handle : Descriptor} :
    s.named? name = some handle ↔ handle ∈ s.descriptors ∧ handle.name = some name := by
  rw [named?, Option.bind_eq_some_iff]
  constructor
  · rintro ⟨id, hlookup, hfound⟩
    obtain ⟨other, hother, rfl, hname⟩ := h.lookup_iff.1 hlookup
    rw [h.find_eq hother] at hfound
    cases hfound
    exact ⟨hother, hname⟩
  · rintro ⟨hhandle, hname⟩
    exact ⟨handle.id, h.target handle hhandle name hname, h.find_eq hhandle⟩

theorem mem_of_latest? {name : String} {handle : Descriptor}
    (h : latest? name handles = some handle) : handle ∈ handles ∧ handle.name = some name := by
  obtain ⟨hmem, hname⟩ := List.mem_filter.1 (List.mem_of_getLast? h)
  exact ⟨hmem, by simpa using hname⟩

/-- A handle is not the latest of its name once there is a later one. -/
theorem latest?_ne_of_later {earlier later : List Descriptor} {handle other : Descriptor}
    {name : String} (hdistinct : ((earlier ++ handle :: later).map Descriptor.id).Nodup)
    (hother : other ∈ later) (hname : other.name = some name) :
    latest? name (earlier ++ handle :: later) ≠ some handle := by
  rw [List.map_append, List.nodup_append, List.map_cons, List.nodup_cons] at hdistinct
  have hnot : handle ∉ later := fun hmem => hdistinct.2.1.1 (List.mem_map_of_mem hmem)
  have hother' : other ∈ later.filter fun handle => handle.name == some name :=
    List.mem_filter.2 ⟨hother, by simp [hname]⟩
  rw [latest?, List.append_cons, List.filter_append, List.getLast?_append]
  cases hlast : (later.filter fun handle => handle.name == some name).getLast? with
  | none =>
    rw [List.getLast?_eq_none_iff.1 hlast] at hother'
    cases hother'
  | some last =>
    rw [Option.some_or]
    rintro ⟨⟩
    exact hnot (List.mem_filter.1 (List.mem_of_getLast? hlast)).1

/-- A look-up gives the latest handle of the name, unless its index was deleted. -/
theorem Registered.named?_eq (h : s.Registered handles deleted) (name : String) :
    s.named? name = (latest? name handles).filter fun handle => decide (handle.id ∉ deleted) := by
  ext handle
  rw [h.named?_eq_some_iff, Option.filter_eq_some_iff, decide_eq_true_iff]
  constructor
  · rintro ⟨hhandle, hname⟩
    obtain ⟨hkept, hlatest⟩ := (h.there handle (h.given.subset hhandle)).1 hhandle
    exact ⟨hlatest name hname, hkept⟩
  · rintro ⟨hlatest, hkept⟩
    obtain ⟨hhandle, hname⟩ := mem_of_latest? hlatest
    refine ⟨(h.there handle hhandle).2 ⟨hkept, fun other hother => ?_⟩, hname⟩
    rwa [← Option.some.inj (hname.symm.trans hother)]

/-- The view of a handle is gone once its name was defined anew or its index was deleted. -/
theorem Registered.view?_eq_none_of_outdated {earlier later : List Descriptor}
    {handle : Descriptor} (h : s.Registered (earlier ++ handle :: later) deleted)
    (houtdated : (∃ name, handle.name = some name ∧ ∃ other ∈ later, other.name = some name) ∨
      handle.id ∈ deleted) : s.view? handle.id = none := by
  have hhandle : handle ∈ earlier ++ handle :: later :=
    List.mem_append_right _ List.mem_cons_self
  refine h.view?_eq_none hhandle ?_
  rw [h.there handle hhandle]
  rintro ⟨hkept, hlatest⟩
  rcases houtdated with ⟨name, hname, other, hother, hlater⟩ | hdeleted
  · exact latest?_ne_of_later h.distinct hother hlater (hlatest name hname)
  · exact hkept hdeleted

theorem scan_eq_unavailable {id : IndexId} (hmissing : s.view? id = none) {request : Request}
    (htarget : request.target = .index id) :
    (s.scan request).2 = .error (.unavailable (.index id)) := by
  have hview : view? { s with scans := s.scans + 1 } id = none := hmissing
  have hscan : scanIndex { s with scans := s.scans + 1 } id request =
      .error (.unavailable (.index id)) := by rw [scanIndex, hview]
  have hrefresh : refresh { s with scans := s.scans + 1 } id =
      ({ s with scans := s.scans + 1 }, .error (.unavailable (.index id))) := by
    rw [refresh, hview]
  simp only [Store.scan, htarget, scanRefreshing]
  cases request.stale <;> simp only [hscan, hrefresh]

/-- After any history whose deletions are made through handles that were answered, each name leads
to a view of that name, each named view is where its name leads, and no name leads to a view without
a name.  A look-up gives the handle of the latest definition under the name, unless that was deleted.
The handle of an earlier definition, as that of an index that was deleted, finds nothing to scan and
nothing to delete. -/
theorem names_lead_to_latest (numbered : Nat) (history : List Command)
    (own : DeletesHandles numbered history) :
    let s := after numbered history
    let handles := (empty numbered).handles history
    let deletions := (empty numbered).deletions history
    (∀ entry ∈ s.names, ∃ view, s.view? entry.2 = some view ∧
      view.descriptor.name = some entry.1) ∧
    (∀ view ∈ s.views, ∀ name, view.descriptor.name = some name →
      s.names.lookup name = some view.id) ∧
    (∀ view ∈ s.views, view.descriptor.name = none → ∀ entry ∈ s.names, entry.2 ≠ view.id) ∧
    (∀ name, s.named? name =
      (latest? name handles).filter fun handle => decide (handle.id ∉ deletions)) ∧
    (∀ earlier handle later, handles = earlier ++ handle :: later →
      (∃ name, handle.name = some name ∧ ∃ other ∈ later, other.name = some name) ∨
        handle.id ∈ deletions →
      (∀ request, request.target = .index handle.id →
        (s.scan request).2 = .error (.unavailable (.index handle.id))) ∧
      s.deleteIndex handle = .error (.alreadyDeleted handle.id)) := by
  intro s handles deletions
  have h : s.Registered handles deletions := registered_after own
  have hmem : ∀ view ∈ s.views, view.descriptor ∈ s.descriptors := fun _ => List.mem_map_of_mem
  refine ⟨fun entry hentry => ?_, fun view hview => h.target view.descriptor (hmem view hview),
    fun view hview hunnamed entry hentry hid => ?_, h.named?_eq, ?_⟩
  · obtain ⟨handle, hhandle, hid, hname⟩ := h.leads entry hentry
    obtain ⟨view, hview, rfl⟩ := Option.map_eq_some_iff.1 (hid ▸ h.find_eq hhandle)
    exact ⟨view, hview, hname⟩
  · obtain ⟨handle, hhandle, hleads, hname⟩ := h.leads entry hentry
    have hsame : handle = view.descriptor := h.eq_of_id (h.given.subset hhandle)
      (h.given.subset (hmem view hview)) (hleads.trans hid)
    rw [hsame, hunnamed] at hname
    cases hname
  · intro earlier handle later hhandles houtdated
    have hmissing := Registered.view?_eq_none_of_outdated (hhandles ▸ h) houtdated
    refine ⟨fun request htarget => scan_eq_unavailable hmissing htarget, ?_⟩
    rw [deleteIndex, hasIndex, hmissing]
    rfl

/-- A view is defined anew, and deletions go through the handle of its earlier definition and that of
another view. -/
def renewed : List Command :=
  [.defineView "v" bodyById none, .createEphemeral bodyById, .defineView "v" bodyById none,
   .deleteIndex ⟨⟨1⟩, some "v", false⟩, .defineView "w" bodyById none, .put "a" (.bool true),
   .scan (wholeOf ⟨3⟩ .refreshBefore), .deleteIndex ⟨⟨4⟩, some "w", false⟩]

/-- The deletion through the earlier handle leaves the later definition alone, and the deletion of
the other view leaves nothing under its name. -/
theorem names_of_renewed :
    DeletesHandles 0 renewed ∧
      (after 0 renewed).named? "v" = some ⟨⟨3⟩, some "v", false⟩ ∧
      (after 0 renewed).named? "w" = none ∧
      (∀ stale, ((after 0 renewed).scan (wholeOf ⟨1⟩ stale)).2 =
        .error (.unavailable (.index ⟨1⟩))) ∧
      (after 0 renewed).deleteIndex ⟨⟨1⟩, some "v", false⟩ = .error (.alreadyDeleted ⟨1⟩) := by
  have hown : DeletesHandles 0 renewed := by
    intro n index hn
    have hlt : n < 8 := (List.getElem?_eq_some_iff.1 hn).1
    match n, hlt with
    | 0, _ | 1, _ | 2, _ | 4, _ | 5, _ | 6, _ => cases hn
    | 3, _ | 7, _ =>
      cases hn
      decide
  obtain ⟨-, -, -, hnamed, houtdated⟩ := names_lead_to_latest 0 renewed hown
  obtain ⟨hscan, hdelete⟩ := houtdated [] ⟨⟨1⟩, some "v", false⟩
    [⟨⟨2⟩, none, false⟩, ⟨⟨3⟩, some "v", false⟩, ⟨⟨4⟩, some "w", false⟩] rfl
    (.inl ⟨"v", rfl, ⟨⟨3⟩, some "v", false⟩, by decide, rfl⟩)
  exact ⟨hown, (hnamed "v").trans rfl, (hnamed "w").trans rfl, fun stale => hscan _ rfl, hdelete⟩

end Viewbase.Store
