import Viewbase.Proofs.Database.Submission
import Viewbase.Proofs.Store.Grouping
import Viewbase.Proofs.Store.Points

/-!
Queries by keys.

A query may have keys and bounds at once.  Main statement: a run of it at once comes to what the scan
by its keys comes to, whatever its bounds are, and that scan answers what the scans of the points of
the keys answer (`keys_agree_with_points`).
-/

namespace Viewbase

/-- The settings with other bounds. -/
def Settings.bounded (settings : Settings) (startKey endKey : Option Key)
    (startDoc endDoc : Option String) : Settings :=
  { settings with
    startKey := startKey, endKey := endKey, startDoc := startDoc, endDoc := endDoc }

namespace Query

/-- The query asks for all rows of its selection, neither paged nor reduced. -/
structure AsksForRows (query : Query) : Prop where
  skip : query.settings.skip = 0
  limit : query.settings.limit = none
  unreduced : query.settings.mapOnly = true

variable {query : Query} {keys : List Key}

/-- Bounds make no difference to the request of a query by keys. -/
theorem request_bounded (hkeys : query.settings.keys = some keys) (startKey endKey : Option Key)
    (startDoc endDoc : Option String) :
    { query with settings := query.settings.bounded startKey endKey startDoc endDoc }.request =
      query.request := by
  simp only [Query.request, Settings.request, Settings.bounded, Settings.selection, hkeys]

theorem AsksForRows.request_eq (h : query.AsksForRows) (hkeys : query.settings.keys = some keys) :
    query.request = query.request.choosing (.keys keys) := by
  simp only [Query.request, Settings.request, Settings.selection, Request.choosing, hkeys, h.skip,
    h.limit, h.unreduced, Bool.not_true]

end Query

namespace Database

variable {σ : Type} {db db' : Database σ} {query : Nat} {q : Query}

/-- Whether a scan is registered depends on the record of its index alone. -/
theorem snd_beginScan (h : db'.temporaries = db.temporaries) (id : Nat) :
    (db'.beginScan id).2 = (db.beginScan id).2 := by
  rw [beginScan, beginScan, onTemporary, onTemporary, h]
  cases db.temporaries[id]? with
  | none => rfl
  | some record =>
    simp only [Temporary.beginScan]
    split <;> rfl

theorem queries_configure (hquery : db.queries[query]? = some q) (change : Settings → Settings) :
    (db.configure query change).queries[query]? = some { q with settings := change q.settings } := by
  rw [configure, updateQuery, List.getElem?_modify_eq, hquery]
  rfl

/-- Whether a scan is registered is no matter of the settings. -/
theorem snd_register_configure (hquery : db.queries[query]? = some q)
    (change : Settings → Settings) :
    ((db.configure query change).register query).2 = (db.register query).2 := by
  have hbegun : ∀ temporary, ((db.configure query change).beginScan temporary).2 =
      (db.beginScan temporary).2 :=
    snd_beginScan rfl
  rw [register, register, queries_configure hquery, hquery]
  dsimp only
  split
  · rfl
  · cases q.temporary with
    | none => rfl
    | some temporary =>
      have hsame := hbegun temporary
      dsimp only
      generalize (db.configure query change).beginScan temporary = begun at hsame
      generalize db.beginScan temporary = begun' at hsame
      rcases begun with ⟨_, _ | _⟩ <;> rcases begun' with ⟨_, _ | _⟩ <;> cases hsame <;> rfl

/-- What a run at once comes to: the refusal of its scan, or what its scan comes to. -/
theorem snd_runQuery (hquery : db.queries[query]? = some q) :
    (db.runQuery (.silent σ) query).2 =
      match (db.register query).2 with
      | .error error => .error error
      | .ok _ => (Execution.Found.scanned (db.store.scan q.request).2).outcome q.lastGeneration := by
  have hqueries := Stance.queries_register query db
  have hstore := store_register query db
  rw [runQuery_eq _ hquery]
  generalize db.register query = registration at hqueries hstore
  rcases registration with ⟨registered, error | temporary⟩
  · rfl
  · have hregistered : registered.queries[query]? = some q := hqueries ▸ hquery
    rw [← show registered.store = db.store from hstore]
    exact (runRegistered_delivers hregistered _ _).1

/-- A run at once of a query by keys comes to the same whatever its bounds are. -/
theorem runQuery_bounded (hquery : db.queries[query]? = some q) {keys : List Key}
    (hkeys : q.settings.keys = some keys) (startKey endKey : Option Key)
    (startDoc endDoc : Option String) :
    ((db.configure query fun settings =>
        settings.bounded startKey endKey startDoc endDoc).runQuery (.silent σ) query).2 =
      (db.runQuery (.silent σ) query).2 := by
  have hconfigured := queries_configure hquery fun settings =>
    settings.bounded startKey endKey startDoc endDoc
  rw [snd_runQuery hconfigured, snd_register_configure hquery, q.request_bounded hkeys,
    snd_runQuery hquery]
  rfl

/-- In a database whose store has been through any history, a scan by keys, of any index or of the
documents in any mode and in either direction, answers what the scans of the points of the keys
answer, one after the other.  A query by the keys comes to the same whatever its bounds are when it
is run at once; and if it asks for all rows, it is refused or comes to what the scan by the keys comes
to. -/
theorem keys_agree_with_points {numbered : Nat} {history : List Command}
    (hreachable : db.store = Store.after numbered history) (keys : List Key) :
    (∀ request, db.store.JoinsPoints request keys) ∧
      ∀ query q, db.queries[query]? = some q → q.settings.keys = some keys →
        (∀ startKey endKey startDoc endDoc,
          ((db.configure query fun settings =>
              settings.bounded startKey endKey startDoc endDoc).runQuery (.silent σ) query).2 =
            (db.runQuery (.silent σ) query).2) ∧
        (q.AsksForRows →
          (db.runQuery (.silent σ) query).2 =
            match (db.register query).2 with
            | .error error => .error error
            | .ok _ => (Execution.Found.scanned
                (db.store.outcomeOf q.request (.keys keys))).outcome q.lastGeneration) := by
  obtain ⟨past, hfollows, -⟩ := Store.exists_timeline numbered history
  refine ⟨fun request => Store.keys_join_points ?_ request keys, fun query q hquery hkeys =>
    ⟨runQuery_bounded hquery hkeys, fun hrows => ?_⟩⟩
  · rw [hreachable]
    exact hfollows.sorted
  · rw [snd_runQuery hquery, Store.outcomeOf, ← hrows.request_eq hkeys]

/-- Keys for a look-up: one that two documents share, listed twice, one that none has, and another. -/
def listedKeys : List Key :=
  [.string "x", .null, .array [.string "x"], .string "x"]

/-- A query for them, from the last row to the first. -/
def listingQuery : Query where
  index := some ⟨⟨1⟩, some "v", false⟩
  temporary := none
  isTemporary := false
  settings := { Settings.initial none with keys := some listedKeys, descending := true }
  lastGeneration := none
  disposed := false

/-- A database of three documents, two of them with the same body, and the query over a view of their
bodies that is not built yet. -/
def listing : Database Unit where
  config := {}
  store := Store.after 0
    [.put "a" (.string "x"), .put "b" (.array [.string "x"]), .put "c" (.string "x"),
     .defineView "v" Store.bodyAsKey none]
  temporaries := []
  queries := [listingQuery]
  runs := []
  lives := []
  refreshes := []
  permits := 0
  waiting := []
  scanning := []
  ready := []
  timers := []
  clock := 0
  metrics := {}
  journal := Journal.empty .info
  client := ()

/-- The query answers under bounds that no row is within. -/
theorem keys_under_bounds : ∃ answer parts,
    ((listing.configure 0 fun settings =>
        settings.bounded (some .null) (some .null) (some "z") (some "z")).runQuery
      (.silent Unit) 0).2 = .ok answer ∧
    (listedKeys.map fun key =>
      listing.store.outcomeOf listingQuery.request (.range (.point key))) = parts.map .ok ∧
    answer.Joins parts ∧ answer.generation = 3 ∧
    answer.rows.map Row.docId = [some "c", some "a", some "b", some "c", some "a"] := by
  obtain ⟨hpoints, hruns⟩ := keys_agree_with_points (rfl : listing.store = _) listedKeys
  obtain ⟨hbounded, hrows⟩ := hruns 0 listingQuery rfl rfl
  have hrun := (hbounded (some .null) (some .null) (some "z") (some "z")).trans
    (hrows ⟨rfl, rfl, rfl⟩)
  rcases hpoints listingQuery.request with ⟨error, herror⟩ | ⟨answer, parts, hanswer, hparts, hjoins⟩
  · cases herror (.keys listedKeys)
  · rw [hanswer] at hrun
    refine ⟨answer, parts, hrun, hparts, hjoins, ?_⟩
    cases hanswer
    exact ⟨rfl, rfl⟩

end Database

end Viewbase
