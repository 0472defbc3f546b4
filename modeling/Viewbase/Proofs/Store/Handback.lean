import Viewbase.Proofs.Key.Transit
import Viewbase.Proofs.Store.Bodies
import Viewbase.Proofs.Store.Grouping
import Viewbase.Proofs.Store.Points

/-!
The keys that scans hand back.

As long as bodies are JSON values and map functions make their keys from JSON values, so is every
key of a row, and so is what a group cuts from it (`fromJson_after`, `exists_fromJson`).  Main
statement: such a key is the same after it was written as JSON and read back, so it selects what it
did, and a row is found again by it (`keys_survive_json`).
-/

namespace Viewbase

namespace Key

/-- The key was made from a JSON value. -/
def FromJson (key : Key) : Prop :=
  ∃ value : Json, value.Proper ∧ ofJson value = key

theorem fromJson_null : Key.null.FromJson :=
  ⟨.null, .null, rfl⟩

theorem fromJson_string (s : String) : (Key.string s).FromJson :=
  ⟨.string s, .string s, rfl⟩

theorem FromJson.viaJson_eq {key : Key} (h : key.FromJson) : key.viaJson = key := by
  obtain ⟨value, hproper, rfl⟩ := h
  exact viaJson_ofJson hproper

/-- The first items of an array that was made from JSON were made from the first items there. -/
theorem FromJson.truncate {key : Key} (h : key.FromJson) (level : Nat) :
    (key.truncate level).FromJson := by
  obtain ⟨value, hproper, rfl⟩ := h
  cases hproper with
  | null => exact ⟨.null, .null, rfl⟩
  | bool b => exact ⟨.bool b, .bool b, rfl⟩
  | string s => exact ⟨.string s, .string s, rfl⟩
  | @number n hn => exact ⟨.number n, .number hn, rfl⟩
  | @object members hsorted h => exact ⟨.object members, .object hsorted h, rfl⟩
  | @array items h =>
    refine ⟨.array (items.take level), .array fun item hitem => h item (List.mem_of_mem_take hitem),
      ?_⟩
    rw [ofJson, ofJson, Key.truncate, ofItems_eq_map, ofItems_eq_map, List.map_take]

end Key

theorem Group.fromJson_keyAt {key : Key} (h : key.FromJson) (level : Nat) :
    (keyAt level key).FromJson := by
  rw [keyAt]
  split
  · exact Key.fromJson_null
  · exact h.truncate level

/-! ## Selections -/

namespace Selection

/-- The keys that a selection names, one by one or as bounds. -/
def named : Selection → List Key
  | keys chosen => chosen
  | range bounds => bounds.startKey.toList ++ bounds.endKey.toList

/-- The selection as it is read from the JSON forms of its keys. -/
def viaJson : Selection → Selection
  | keys chosen => keys (chosen.map Key.viaJson)
  | range bounds =>
    range { bounds with
      startKey := bounds.startKey.map Key.viaJson
      endKey := bounds.endKey.map Key.viaJson }

theorem viaJson_eq {selection : Selection} (h : ∀ key ∈ selection.named, key.viaJson = key) :
    selection.viaJson = selection := by
  have hbound : ∀ {bound : Option Key}, (∀ key ∈ bound.toList, key.viaJson = key) →
      bound.map Key.viaJson = bound := by
    intro bound hkey
    cases bound with
    | none => rfl
    | some key => exact congrArg some (hkey key List.mem_cons_self)
  cases selection with
  | keys chosen => exact congrArg keys (Key.map_eq_self_iff.2 h)
  | range bounds =>
    obtain ⟨hstart, hend⟩ := List.forall_mem_append.1 h
    rw [viaJson, hbound hstart, hbound hend]

end Selection

/-! ## Stores of JSON -/

/-- The keys that the function emits for bodies that are JSON values are made from JSON values. -/
def MapFunction.KeepsJson (map : MapFunction) : Prop :=
  ∀ doc : Document, doc.body.Proper →
    ∀ emitted ∈ map doc, ∀ pair ∈ emitted, Key.FromJson pair.1

/-- What the command brings into a store is JSON. -/
def Command.KeepsJson : Command → Prop
  | put _ body => body.Proper
  | defineView _ map _ => map.KeepsJson
  | createEphemeral map => map.KeepsJson
  | _ => True

theorem Command.KeepsJson.of_map? {command : Command} (h : command.KeepsJson) {map : MapFunction}
    (hmap : command.map? = some map) : map.KeepsJson := by
  cases command with
  | defineView name other reduce =>
    cases hmap
    exact h
  | createEphemeral other =>
    cases hmap
    exact h
  | _ => cases hmap

namespace View

/-- The keys of the rows were made from JSON values, and so are those that will come. -/
structure FromJson (view : View) : Prop where
  map : view.map.KeepsJson
  keys : ∀ entry ∈ view.tree.entries, entry.key.FromJson

theorem fromJson_of_mem_rowsOf {view : View} (h : view.map.KeepsJson) {doc : Document}
    (hbody : doc.body.Proper) {entry : Entry} (hentry : entry ∈ view.rowsOf doc) :
    entry.key.FromJson := by
  obtain ⟨pair, hpair, rfl⟩ := List.mem_map.1 hentry
  cases hemitted : view.map doc with
  | none =>
    rw [hemitted] at hpair
    cases hpair
  | some emitted =>
    rw [hemitted] at hpair
    exact h doc hbody emitted hemitted pair hpair

theorem FromJson.grown {s : Store} {found view : View} (h : found.FromJson)
    (hbodies : ∀ doc ∈ s.documents, doc.body.Proper) (hgrown : Grown s found view) :
    view.FromJson where
  map := hgrown.alike.map ▸ h.map
  keys entry hentry := by
    rcases hgrown.rows entry hentry with hmem | ⟨doc, hdoc, hrow⟩
    · exact h.keys entry hmem
    · exact fromJson_of_mem_rowsOf h.map (hbodies doc (List.mem_of_find?_eq_some hdoc)) hrow

end View

namespace Store

/-- All bodies are JSON values, and all keys were made from such. -/
structure FromJson (s : Store) : Prop where
  bodies : ∀ doc ∈ s.documents, doc.body.Proper
  views : ∀ view ∈ s.views, view.FromJson

variable {s : Store}

theorem fromJson_empty (numbered : Nat) : (empty numbered).FromJson where
  bodies := by simp [empty]
  views := by simp [empty]

theorem FromJson.perform (h : s.FromJson) {command : Command} (hcommand : command.KeepsJson) :
    (s.perform command).FromJson where
  bodies doc hdoc := by
    rcases mem_documents_perform hdoc with hold | ⟨id, edit, generation, hedit, hmade⟩
    · exact h.bodies doc hold
    · rcases body_of_edit? hedit hmade with ⟨rfl, -⟩ | hempty | ⟨old, hold, hbody, -⟩
      · exact hcommand
      · rw [hempty]
        exact .object .nil (List.forall_mem_nil _)
      · rw [hbody]
        exact h.bodies old (List.mem_of_find?_eq_some hold)
  views view hview := by
    rcases mem_views_perform hview with ⟨old, hold, hgrown⟩ | ⟨_, map, _, hmap, rfl⟩
    · exact (h.views old hold).grown h.bodies hgrown
    · exact ⟨hcommand.of_map? hmap, List.forall_mem_nil _⟩

theorem fromJson_after (numbered : Nat) {history : List Command}
    (h : ∀ command ∈ history, command.KeepsJson) : (after numbered history).FromJson := by
  induction history using List.reverseRecOn with
  | nil => exact fromJson_empty numbered
  | append_singleton history command ih =>
    rw [after_append_singleton]
    obtain ⟨hhistory, hcommand⟩ := List.forall_mem_append.1 h
    exact (ih hhistory).perform (hcommand command List.mem_cons_self)

/-! ## Answers -/

variable {request : Request} {answer : Answer} {row : Row}

/-- The view that an answer is read in, and what is read there if other rows are asked for. -/
structure Reading (s : Store) (request : Request) (answer : Answer) (read : Store) (view : View) :
    Prop where
  grown : ∃ old ∈ s.views, View.Grown s old view
  answered : read.scanView view request = .ok answer
  others : ∀ selection, s.outcomeOf request selection = .ok (read.answerOf view request selection)

theorem exists_view_of_scanIndex {id : IndexId} (h : s.scanIndex id request = .ok answer) :
    ∃ view ∈ s.views, s.scanView view request = .ok answer ∧
      ∀ selection, s.scanIndex id (request.choosing selection) =
        .ok (s.answerOf view request selection) := by
  cases hview : s.view? id with
  | none =>
    rw [scanIndex, hview] at h
    cases h
  | some view =>
    rw [scanIndex, hview] at h
    refine ⟨view, List.mem_of_find?_eq_some hview, h, fun selection => ?_⟩
    rw [scanIndex, hview]
    exact scanView_choosing s view request selection

/-- Every answer of an index is read in a view. -/
theorem exists_reading {id : IndexId} (htarget : request.target = .index id)
    (hscan : (s.scan request).2 = .ok answer) : ∃ read view, Reading s request answer read view := by
  simp only [scan, htarget, scanRefreshing] at hscan
  cases hstale : request.stale with
  | neverRefresh =>
    simp only [hstale] at hscan
    obtain ⟨view, hview, hanswer, hothers⟩ := exists_view_of_scanIndex hscan
    refine ⟨_, view, ⟨view, hview, .refl s view⟩, hanswer, fun selection => ?_⟩
    simpa only [outcomeOf, scan, Request.choosing_target, htarget, scanRefreshing,
      Request.choosing_stale, hstale] using hothers selection
  | refreshBefore =>
    simp only [hstale] at hscan
    split at hscan
    · cases hscan
    next refreshed hrefresh =>
      obtain ⟨view, hview, hanswer, hothers⟩ := exists_view_of_scanIndex hscan
      have hgrown : view ∈ (Store.refresh { s with scans := s.scans + 1 } id).1.views := by
        rwa [hrefresh]
      obtain ⟨old, hold, halike, hrows⟩ := exists_grown_of_refresh hgrown
      refine ⟨_, view, ⟨old, hold, halike, hrows⟩, hanswer, fun selection => ?_⟩
      simpa only [outcomeOf, scan, Request.choosing_target, htarget, scanRefreshing,
        Request.choosing_stale, hstale, hrefresh] using hothers selection
  | refreshAfter =>
    simp only [hstale] at hscan
    split at hscan
    · cases hscan
    next found hfound =>
      split at hscan
      · cases hscan
      next refreshed hrefresh =>
        cases hscan
        obtain ⟨view, hview, hanswer, hothers⟩ := exists_view_of_scanIndex hfound
        refine ⟨_, view, ⟨view, hview, .refl s view⟩, hanswer, fun selection => ?_⟩
        simp only [outcomeOf, scan, Request.choosing_target, htarget, scanRefreshing,
          Request.choosing_stale, hstale, hothers, hrefresh]

/-- The keys of rows and of groups were made from JSON values if those of the selected rows were. -/
theorem fromJson_of_answerRows {view : View} {selected : List Entry} {generation : Nat}
    (h : ∀ entry ∈ selected, entry.key.FromJson)
    (hanswer : s.answerRows view request selected generation = .ok answer)
    (hrow : row ∈ answer.rows) : row.key.FromJson := by
  cases hreduce : request.reduce with
  | false =>
    obtain ⟨entry, hentry, rfl⟩ := exists_entry_of_answerRows hreduce hanswer hrow
    rw [key_mappedRow]
    exact h entry hentry
  | true =>
    simp only [answerRows, hreduce, if_true] at hanswer
    split at hanswer
    · cases hanswer
    split at hanswer
    · cases hanswer
    next reduced hreduced =>
      cases hanswer
      obtain ⟨blocks, hblocks⟩ := exists_blocks request.groupLevel selected
      rw [Group.runs_of_blocks hblocks] at hreduced
      have hkey : row.key ∈ (blocks.map Block.group).map Group.key :=
        Group.keys_of_reduceAll hreduced ▸ List.mem_map_of_mem (mem_of_mem_page hrow)
      obtain ⟨group, hgroup, hsame⟩ := List.mem_map.1 hkey
      obtain ⟨block, hblock, rfl⟩ := List.mem_map.1 hgroup
      obtain ⟨entry, -, hentry, hcut⟩ := hblocks.exists_row hblock
      have hmade : block.key = row.key := hsame
      rw [← hmade, ← hcut]
      exact Group.fromJson_keyAt (h entry hentry) request.groupLevel

/-- Every key that a scan hands back was made from a JSON value. -/
theorem FromJson.scan_key (h : s.FromJson) (hscan : (s.scan request).2 = .ok answer)
    (hrow : row ∈ answer.rows) : row.key.FromJson := by
  cases htarget : request.target with
  | documents =>
    rw [scan, htarget] at hscan
    cases hscan
    obtain ⟨doc, -, rfl⟩ := List.mem_map.1 hrow
    exact Key.fromJson_string doc.id
  | index id =>
    obtain ⟨read, view, ⟨old, hold, hgrown⟩, hanswered, -⟩ := exists_reading htarget hscan
    have hview := (h.views old hold).grown h.bodies hgrown
    refine fromJson_of_answerRows (fun entry hentry => ?_) hanswered hrow
    rw [View.select_eq_selected] at hentry
    exact hview.keys entry (mem_selected hentry)

/-! ## Rows are found again -/

/-- The selections of one key: to name it, and to have it as both bounds. -/
def atKey (key : Key) : List Selection :=
  [.keys [key], .range (.point key)]

theorem mem_select_atKey {view : View} {entry : Entry} (h : entry ∈ view.tree.entries)
    (descending : Bool) {selection : Selection} (hselection : selection ∈ atKey entry.key) :
    entry ∈ view.select selection descending := by
  have hpoint : entry ∈ view.select (.range (.point entry.key)) descending := by
    refine List.mem_filter.2 ⟨View.mem_directed.2 h, ?_⟩
    rw [KeyRange.contains_point]
    exact Key.same_iff.2 rfl
  rcases List.mem_pair.1 hselection with rfl | rfl
  · rw [View.select_keys, List.flatMap_singleton]
    exact hpoint
  · exact hpoint

/-- A row of a view is found again by its key. -/
theorem Reading.found {read : Store} {view : View} (h : Reading s request answer read view)
    (hreduce : request.reduce = false) (hrow : row ∈ answer.rows) {selection : Selection}
    (hselection : selection ∈ atKey row.key) :
    ∃ again, s.outcomeOf request selection = .ok again ∧ row ∈ again.rows := by
  obtain ⟨entry, hentry, rfl⟩ := exists_entry_of_answerRows hreduce h.answered hrow
  rw [View.select_eq_selected] at hentry
  rw [key_mappedRow] at hselection
  exact ⟨_, h.others selection, List.mem_map_of_mem
    (mem_select_atKey (mem_selected hentry) request.descending hselection)⟩

theorem shows_of_mem_selectDocuments {doc : Document} (h : doc ∈ s.selectDocuments request) :
    request.mode.shows doc = true := by
  rw [selectDocuments] at h
  split at h
  · exact (List.mem_filter.1 h).2
  · exact (Bool.and_eq_true_iff.1 (List.mem_filter.1 h).2).1

/-- A row of the enumeration is found again by its key. -/
theorem mem_scanDocuments_atKey (hsorted : s.documents.Pairwise Document.Before)
    (hrow : row ∈ (s.scanDocuments request).rows) {selection : Selection}
    (hselection : selection ∈ atKey row.key) :
    row ∈ (s.scanDocuments (request.choosing selection)).rows := by
  obtain ⟨doc, hdoc, rfl⟩ := List.mem_map.1 hrow
  have hselected := mem_of_mem_page hdoc
  have hfound : s.document? doc.id = some doc :=
    Document.find?_of_mem hsorted (mem_documents_of_selectDocuments hselected)
  have hpoint : doc ∈ s.selectDocuments (request.choosing (.range (.point (.string doc.id)))) := by
    rw [selectDocuments_point hsorted, Key.string?, Option.bind_some, hfound]
    exact List.mem_filter.2 ⟨List.mem_singleton_self doc, shows_of_mem_selectDocuments hselected⟩
  refine List.mem_map_of_mem (f := documentRow request) ?_
  rcases List.mem_pair.1 hselection with rfl | rfl
  · rw [selectDocuments_keys hsorted, List.flatMap_singleton]
    exact hpoint
  · exact hpoint

/-- Rows that are not reduced are found again by their keys. -/
theorem exists_again (hsorted : s.documents.Pairwise Document.Before)
    (hscan : (s.scan request).2 = .ok answer)
    (hrows : request.target = .documents ∨ request.reduce = false) (hrow : row ∈ answer.rows)
    {selection : Selection} (hselection : selection ∈ atKey row.key) :
    ∃ again, s.outcomeOf request selection = .ok again ∧ row ∈ again.rows := by
  cases htarget : request.target with
  | documents =>
    rw [scan, htarget] at hscan
    cases hscan
    have hagain := mem_scanDocuments_atKey (s := { s with scans := s.scans + 1 }) hsorted hrow
      hselection
    exact ⟨_, by rw [outcomeOf, scan, Request.choosing_target, htarget], hagain⟩
  | index id =>
    obtain ⟨read, view, hreading⟩ := exists_reading htarget hscan
    have hreduce := hrows.resolve_left fun heq => Target.noConfusion (htarget.symm.trans heq)
    exact hreading.found hreduce hrow hselection

/-- The keys of an answer can be sent back as JSON. -/
structure Returnable (s : Store) (request : Request) (answer : Answer) : Prop where
  keys : ∀ row ∈ answer.rows, row.key.viaJson = row.key
  /-- Whether they are listed or are bounds, they select what they would have selected. -/
  selections : ∀ selection : Selection, selection.named ⊆ answer.rows.map Row.key →
    ∀ (other : Store) (next : Request), other.scan { next with selection := selection.viaJson } =
      other.scan { next with selection := selection }
  /-- A row that is not reduced is among the rows of its key. -/
  found : request.target = .documents ∨ request.reduce = false → ∀ row ∈ answer.rows,
    ∀ selection ∈ atKey row.key.viaJson,
      ∃ again, s.outcomeOf request selection = .ok again ∧ row ∈ again.rows

/-- A key that was made from a JSON value of any nesting is the same after the way through JSON, so
keys that differ have JSON forms that differ.  The keys that are handed back by a scan are of this
kind, those of rows and those of groups: they can be sent back as JSON. -/
theorem keys_survive_json :
    (∀ value : Json, value.Proper → (Key.ofJson value).viaJson = Key.ofJson value) ∧
      (∀ value value' : Json, value.Proper → value'.Proper →
        (Key.ofJson value).toJson = (Key.ofJson value').toJson →
          Key.ofJson value = Key.ofJson value') ∧
      ∀ (numbered : Nat) (history : List Command) (request : Request) (answer : Answer),
        (∀ command ∈ history, command.KeepsJson) →
        ((after numbered history).scan request).2 = .ok answer →
          (after numbered history).Returnable request answer := by
  refine ⟨fun _ => Key.viaJson_ofJson, fun _ _ => Key.ofJson_inj_of_toJson, ?_⟩
  intro numbered history request answer hhistory hscan
  have hkeys : ∀ row ∈ answer.rows, row.key.viaJson = row.key := fun row hrow =>
    ((fromJson_after numbered hhistory).scan_key hscan hrow).viaJson_eq
  obtain ⟨past, hfollows, -⟩ := exists_timeline numbered history
  constructor
  case keys => exact hkeys
  case selections =>
    intro selection hnamed other next
    have hselection : selection.viaJson = selection := Selection.viaJson_eq fun key hkey => by
      obtain ⟨row, hrow, rfl⟩ := List.mem_map.1 (hnamed hkey)
      exact hkeys row hrow
    rw [hselection]
  case found =>
    intro hrows row hrow selection hselection
    rw [hkeys row hrow] at hselection
    exact exists_again hfollows.sorted hscan hrows hrow hselection

theorem keepsJson_bodyAsKey : MapFunction.KeepsJson bodyAsKey := by
  intro doc hbody emitted hemitted pair hpair
  cases hemitted
  cases List.mem_singleton.1 hpair
  exact ⟨doc.body, hbody, rfl⟩

/-- A view of bodies that hold an integer between two floats, the lowest integer, the highest one,
and the zero with a sign. -/
def edgeKeys : List Command :=
  [.put "a" (.array [.integer 0x20000000000001, .integer Numeral.lowest]),
   .put "b" (.object [("high", .integer 0xFFFFFFFFFFFFFFFF),
    ("zero", .array [.number (.float ⟨0x8000000000000000⟩)])]),
   .defineView "v" bodyAsKey (some .count)]

/-- The rows of both bodies are found again. -/
theorem edgeKeys_returnable :
    ∃ answer, ((after 0 edgeKeys).scan (wholeOf ⟨1⟩ .refreshBefore)).2 = .ok answer ∧
      answer.rows.map Row.docId = [some "a", some "b"] ∧
      (after 0 edgeKeys).Returnable (wholeOf ⟨1⟩ .refreshBefore) answer := by
  have hkeeps : ∀ command ∈ edgeKeys, command.KeepsJson := by
    refine List.forall_mem_cons.2 ⟨?_, List.forall_mem_cons.2 ⟨?_, List.forall_mem_singleton.2
      keepsJson_bodyAsKey⟩⟩
    · exact .array (List.forall_mem_cons.2 ⟨.number ⟨by decide, by decide⟩,
        List.forall_mem_singleton.2 (.number ⟨by decide, by decide⟩)⟩)
    · refine .object (List.pairwise_pair.2 (by decide)) (List.forall_mem_cons.2
        ⟨.number ⟨by decide, by decide⟩, List.forall_mem_singleton.2 ?_⟩)
      exact .array (List.forall_mem_singleton.2 (.number rfl))
  exact ⟨_, rfl, rfl, keys_survive_json.2.2 0 edgeKeys _ _ hkeeps rfl⟩

end Store

end Viewbase
