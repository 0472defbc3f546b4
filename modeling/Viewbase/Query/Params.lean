import Viewbase.Query.Settings
import Viewbase.Error
import Viewbase.Json.Reader
import Viewbase.Text.Blank

/-!
Query parameters as named texts.

Keys are written as JSON, numbers in decimal, and flags as `true` and `false`.  The texts are a map,
and a pass over a map takes them in an order that nobody chooses: it is an argument of
`Params.parse`, and what the parameters come to may depend on it.
-/

namespace Viewbase

/-- Texts under names that are all different.  How they are listed means nothing. -/
structure Texts where
  entries : List (String × String)
  distinct : (entries.map Prod.fst).Nodup

namespace Texts

def empty : Texts := ⟨[], List.nodup_nil⟩

/-- Put a text under a name, in place of the one that is there. -/
def put (texts : Texts) (name raw : String) : Texts where
  entries := texts.entries.filter (fun entry => entry.1 != name) ++ [(name, raw)]
  distinct := by
    have hkept := texts.distinct.sublist
      ((List.filter_sublist (p := fun entry : String × String => entry.1 != name)).map Prod.fst)
    rw [List.map_append, List.nodup_append]
    refine ⟨hkept, by simp, fun other hother last hlast => ?_⟩
    obtain ⟨entry, hentry, rfl⟩ := List.mem_map.1 hother
    obtain rfl := List.mem_singleton.1 hlast
    simpa using (List.mem_filter.1 hentry).2

/-- Named texts as a map; of two under one name the later counts. -/
def ofList (entries : List (String × String)) : Texts :=
  entries.foldl (fun texts entry => texts.put entry.1 entry.2) empty

/-- An order in which a pass over the texts takes them. -/
structure Order (texts : Texts) where
  entries : List (String × String)
  perm : entries.Perm texts.entries

/-- The order in which they are listed. -/
def listed (texts : Texts) : texts.Order :=
  ⟨texts.entries, .refl _⟩

end Texts

/-- The parameters that were supplied. -/
structure Params where
  skip : Option Nat := none
  limit : Option Nat := none
  descending : Option Bool := none
  startKey : Option Key := none
  endKey : Option Key := none
  startDoc : Option String := none
  endDoc : Option String := none
  keys : Option (List Key) := none
  groupLevel : Option Nat := none
  /-- Whether to group by whole keys; it gives way to a group level. -/
  group : Option Bool := none
  reduce : Option Bool := none
  includeDocs : Option Bool := none
  stale : Option Staleness := none

namespace Params

/-- Decimal digits, at least one. -/
def digits? : List Char → Option Nat
  | [] => none
  | digits => if digits.all Json.isDigit then some (Json.digitsValue digits) else none

/-- An integer of 64 bits with or without a sign. -/
def integer? (text : String) : Option Int :=
  let i : Option Int := match text.toList with
    | '-' :: digits => (digits? digits).map fun n => -(n : Int)
    | '+' :: digits => (digits? digits).map fun n => (n : Int)
    | digits => (digits? digits).map fun n => (n : Int)
  i.filter fun i => decide (-0x8000000000000000 ≤ i) && decide (i < 0x8000000000000000)

/-- A number of rows to skip; a negative one counts as zero. -/
def parseSkip (raw : String) : Except Invalid Nat :=
  match integer? (Text.trim raw) with
  | some i => .ok i.toNat
  | none => .error (.number "skip" raw)

def parseCount (name raw : String) : Except Invalid Nat :=
  match integer? (Text.trim raw) with
  | some i => if i < 0 then .error (.negative name raw) else .ok i.toNat
  | none => .error (.number name raw)

/-- The level that groups by whole keys, and the largest there is. -/
def exactLevel : Nat := 0xFFFFFFFF

/-- A group level has 32 bits. -/
def parseLevel (raw : String) : Except Invalid Nat := do
  let level ← parseCount "group_level" raw
  if level ≤ exactLevel then .ok level else .error (.groupLevel raw)

def parseFlag (name raw : String) : Except Invalid Bool :=
  match Text.trim raw with
  | "true" => .ok true
  | "false" => .ok false
  | word => .error (.boolean name word)

def parseKey (name raw : String) : Except Invalid Key :=
  match Json.parse? raw with
  | some value => .ok (Key.ofJson value)
  | none => .error (.json name)

def parseKeys (raw : String) : Except Invalid (List Key) :=
  match Json.parse? raw with
  | some (.array items) => .ok (items.map Key.ofJson)
  | some _ => .error .keysNotArray
  | none => .error (.json "keys")

def parseStale (raw : String) : Except Invalid Staleness :=
  match Text.trim raw with
  | "ok" => .ok .neverRefresh
  | "update_after" => .ok .refreshAfter
  | "false" => .ok .refreshBefore
  | word => .error (.stale word)

/-- Take in one parameter; one of an unknown name is ignored. -/
def supply (params : Params) (name raw : String) : Except Invalid Params :=
  match name with
  | "skip" => do return { params with skip := some (← parseSkip raw) }
  | "limit" => do return { params with limit := some (← parseCount name raw) }
  | "descending" => do return { params with descending := some (← parseFlag name raw) }
  | "startkey" | "start_key" => do return { params with startKey := some (← parseKey name raw) }
  | "endkey" | "end_key" => do return { params with endKey := some (← parseKey name raw) }
  | "startkey_docid" | "start_key_doc_id" => .ok { params with startDoc := some raw }
  | "endkey_docid" | "end_key_doc_id" => .ok { params with endDoc := some raw }
  | "keys" => do return { params with keys := some (← parseKeys raw) }
  | "group_level" => do return { params with groupLevel := some (← parseLevel raw) }
  | "group" => do return { params with group := some (← parseFlag name raw) }
  | "reduce" => do return { params with reduce := some (← parseFlag name raw) }
  | "include_docs" => do return { params with includeDocs := some (← parseFlag name raw) }
  | "stale" => do return { params with stale := some (← parseStale raw) }
  | _ => .ok params

/-- Turn the wish to group into a level, unless a level was given. -/
def settle (params : Params) : Params :=
  match params.groupLevel with
  | some _ => params
  | none =>
    { params with groupLevel := params.group.map fun group => if group then exactLevel else 0 }

/-- Take in parameters in turn. -/
def supplyAll (params : Params) : List (String × String) → Except Invalid Params
  | [] => .ok params
  | (name, raw) :: rest => do supplyAll (← params.supply name raw) rest

/-- The parameters of named texts, taken in in the given order.  Of two texts for one parameter the
one that comes later in it counts. -/
def parse (texts : Texts) (order : texts.Order) : Except QueryError Params :=
  match supplyAll {} order.entries with
  | .ok params => .ok params.settle
  | .error cause => .error (.validation cause)

/-- Write every supplied parameter into settings. -/
def apply (params : Params) (settings : Settings) : Settings where
  skip := params.skip.getD settings.skip
  limit := params.limit.or settings.limit
  startKey := params.startKey.or settings.startKey
  endKey := params.endKey.or settings.endKey
  startDoc := params.startDoc.or settings.startDoc
  endDoc := params.endDoc.or settings.endDoc
  keys := params.keys.or settings.keys
  descending := params.descending.getD settings.descending
  groupLevel := params.groupLevel.getD settings.groupLevel
  mapOnly := (params.reduce.map not).getD settings.mapOnly
  mode := settings.mode
  stale := params.stale.getD settings.stale
  prefetch := params.includeDocs.getD settings.prefetch

end Params

end Viewbase
