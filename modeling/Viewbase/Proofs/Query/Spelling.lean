import Mathlib.Data.List.Perm.Basic
import Mathlib.Data.List.Nodup
import Viewbase.Query.Params

/-!
Named texts have no order of their own.

What texts come to in an order is read off one parameter at a time: the text that comes last among
those for a parameter gives its value (`Parameter.get_supplyAll`).  So the order decides nothing but
which of two texts for one parameter comes last.  With different names that takes both spellings of
a parameter (`Parameter.spelled_twice`), and the texts come to the same in every order exactly if
they fail in every order, or no two spellings disagree (`Params.parse_agrees_iff`).
-/

namespace Viewbase

/-- A parameter, whichever way its name is spelled. -/
inductive Parameter where
  | skip
  | limit
  | descending
  | startKey
  | endKey
  | startDoc
  | endDoc
  | keys
  | groupLevel
  | group
  | reduce
  | includeDocs
  | stale
  deriving DecidableEq

namespace Parameter

/-- The parameter of a name. -/
def named? : String → Option Parameter
  | "skip" => some .skip
  | "limit" => some .limit
  | "descending" => some .descending
  | "startkey" | "start_key" => some .startKey
  | "endkey" | "end_key" => some .endKey
  | "startkey_docid" | "start_key_doc_id" => some .startDoc
  | "endkey_docid" | "end_key_doc_id" => some .endDoc
  | "keys" => some .keys
  | "group_level" => some .groupLevel
  | "group" => some .group
  | "reduce" => some .reduce
  | "include_docs" => some .includeDocs
  | "stale" => some .stale
  | _ => none

/-- The names of a parameter.  Four of them have two. -/
def names : Parameter → List String
  | skip => ["skip"]
  | limit => ["limit"]
  | descending => ["descending"]
  | startKey => ["startkey", "start_key"]
  | endKey => ["endkey", "end_key"]
  | startDoc => ["startkey_docid", "start_key_doc_id"]
  | endDoc => ["endkey_docid", "end_key_doc_id"]
  | keys => ["keys"]
  | groupLevel => ["group_level"]
  | group => ["group"]
  | reduce => ["reduce"]
  | includeDocs => ["include_docs"]
  | stale => ["stale"]

theorem named?_eq_some_iff {name : String} {p : Parameter} :
    named? name = some p ↔ name ∈ p.names := by
  constructor
  · fun_cases named? name <;> rintro ⟨⟩ <;> decide
  · intro h
    cases p <;> simp only [names, List.mem_cons, List.not_mem_nil, or_false] at h
    case startKey | endKey | startDoc | endDoc => rcases h with rfl | rfl <;> rfl
    all_goals subst h; rfl

/-- What a parameter is about. -/
def Value : Parameter → Type
  | skip | limit | groupLevel => Nat
  | descending | group | reduce | includeDocs => Bool
  | startKey | endKey => Key
  | startDoc | endDoc => String
  | keys => List Key
  | stale => Staleness

/-- The value of a text.  The name is that under which a text is refused. -/
def read (name raw : String) : (p : Parameter) → Except Invalid p.Value
  | skip => Params.parseSkip raw
  | limit => Params.parseCount name raw
  | descending => Params.parseFlag name raw
  | startKey => Params.parseKey name raw
  | endKey => Params.parseKey name raw
  | startDoc => .ok raw
  | endDoc => .ok raw
  | keys => Params.parseKeys raw
  | groupLevel => Params.parseLevel raw
  | group => Params.parseFlag name raw
  | reduce => Params.parseFlag name raw
  | includeDocs => Params.parseFlag name raw
  | stale => Params.parseStale raw

def get (params : Params) : (p : Parameter) → Option p.Value
  | skip => params.skip
  | limit => params.limit
  | descending => params.descending
  | startKey => params.startKey
  | endKey => params.endKey
  | startDoc => params.startDoc
  | endDoc => params.endDoc
  | keys => params.keys
  | groupLevel => params.groupLevel
  | group => params.group
  | reduce => params.reduce
  | includeDocs => params.includeDocs
  | stale => params.stale

def set (params : Params) : (p : Parameter) → p.Value → Params
  | skip, v => { params with skip := some v }
  | limit, v => { params with limit := some v }
  | descending, v => { params with descending := some v }
  | startKey, v => { params with startKey := some v }
  | endKey, v => { params with endKey := some v }
  | startDoc, v => { params with startDoc := some v }
  | endDoc, v => { params with endDoc := some v }
  | keys, v => { params with keys := some v }
  | groupLevel, v => { params with groupLevel := some v }
  | group, v => { params with group := some v }
  | reduce, v => { params with reduce := some v }
  | includeDocs, v => { params with includeDocs := some v }
  | stale, v => { params with stale := some v }

@[simp] theorem get_set_self (params : Params) (p : Parameter) (v : p.Value) :
    get (set params p v) p = some v := by
  cases p <;> rfl

theorem get_set_of_ne {p q : Parameter} (h : p ≠ q) (params : Params) (v : p.Value) :
    get (set params p v) q = get params q := by
  cases p <;> cases q <;> first | rfl | exact absurd rfl h

/-- Parameters are what each of them is. -/
theorem ext_get {params other : Params} (h : ∀ p, get params p = get other p) : params = other := by
  have each := And.intro (h skip) <| And.intro (h limit) <| And.intro (h descending) <|
    And.intro (h startKey) <| And.intro (h endKey) <| And.intro (h startDoc) <|
    And.intro (h endDoc) <| And.intro (h keys) <| And.intro (h groupLevel) <|
    And.intro (h group) <| And.intro (h reduce) <| And.intro (h includeDocs) (h stale)
  cases params
  cases other
  rw [Params.mk.injEq]
  exact each

/-- One parameter is taken in by the value of its text, whatever was taken in before. -/
theorem supply_eq (params : Params) (name raw : String) :
    params.supply name raw =
      match named? name with
      | none => .ok params
      | some p => (p.read name raw).map (set params p) := by
  have writes {α : Type} (value : Except Invalid α) (f : α → Params) :
      (do return f (← value)) = value.map f := by
    cases value <;> rfl
  fun_cases named? name <;> simp only [Params.supply, read, writes] <;> rfl

/-! ## All parameters -/

/-- The values that the texts of one parameter stand for, in turn. -/
def values (p : Parameter) (texts : List (String × String)) : List p.Value :=
  texts.filterMap fun (name, raw) =>
    if named? name = some p then (p.read name raw).toOption else none

/-- Every text for a parameter stands for a value. -/
def Legible (texts : List (String × String)) : Prop :=
  ∀ name raw, (name, raw) ∈ texts → ∀ p, named? name = some p → ∃ v, p.read name raw = .ok v

variable {texts other : List (String × String)} {params filled : Params} {p : Parameter}

theorem mem_values {v : p.Value} :
    v ∈ p.values texts ↔
      ∃ name raw, (name, raw) ∈ texts ∧ named? name = some p ∧ p.read name raw = .ok v := by
  simp only [values, List.mem_filterMap, Prod.exists, Option.ite_none_right_eq_some]
  constructor
  · rintro ⟨name, raw, hmem, hname, hread⟩
    refine ⟨name, raw, hmem, hname, ?_⟩
    cases h : p.read name raw with
    | error cause => rw [h] at hread; cases hread
    | ok w => rw [h] at hread; cases hread; rfl
  · rintro ⟨name, raw, hmem, hname, hread⟩
    exact ⟨name, raw, hmem, hname, by rw [hread]; rfl⟩

theorem legible_cons {name raw : String} :
    Legible ((name, raw) :: texts) ↔
      (∀ p, named? name = some p → ∃ v, p.read name raw = .ok v) ∧ Legible texts := by
  simp only [Legible, List.mem_cons, Prod.mk.injEq]
  constructor
  · intro h
    exact ⟨h name raw (.inl ⟨rfl, rfl⟩), fun name raw hmem => h name raw (.inr hmem)⟩
  · rintro ⟨hhead, htail⟩ name raw (⟨rfl, rfl⟩ | hmem)
    · exact hhead
    · exact htail name raw hmem

/-- A text is taken in if it can be read. -/
theorem supply_ok_iff (params : Params) {name raw : String} :
    (∃ filled, params.supply name raw = .ok filled) ↔
      ∀ p, named? name = some p → ∃ v, p.read name raw = .ok v := by
  rw [supply_eq]
  cases hname : named? name with
  | none => simp
  | some p =>
    cases hread : p.read name raw with
    | error cause => simp [hread, Except.map]
    | ok v => simp [hread, Except.map]

/-- The texts are taken in if each can be read. -/
theorem supplyAll_ok_iff (params : Params) :
    (∃ filled, params.supplyAll texts = .ok filled) ↔ Legible texts := by
  induction texts generalizing params with
  | nil => simp [Params.supplyAll, Legible]
  | cons entry rest ih =>
    obtain ⟨name, raw⟩ := entry
    rw [legible_cons, ← supply_ok_iff params]
    cases h : params.supply name raw with
    | error cause => simp [Params.supplyAll, h, bind, Except.bind]
    | ok middle => simp [Params.supplyAll, h, bind, Except.bind, ih middle]

theorem supplyAll_fails_iff (params : Params) :
    (params.supplyAll texts).toOption = none ↔ ¬ Legible texts := by
  rw [← supplyAll_ok_iff params]
  cases params.supplyAll texts <;> simp [Except.toOption]

/-- One text gives its parameter a value and leaves the others. -/
theorem get_supply {name raw : String} (h : params.supply name raw = .ok filled) (p : Parameter) :
    get filled p = (values p [(name, raw)]).getLast?.or (get params p) := by
  rw [supply_eq] at h
  cases hname : named? name with
  | none =>
    simp only [hname, Except.ok.injEq] at h
    simp [values, hname, h]
  | some q =>
    cases hread : q.read name raw with
    | error cause => simp [hname, hread, Except.map] at h
    | ok v =>
      simp only [hname, hread, Except.map, Except.ok.injEq] at h
      subst h
      by_cases hq : q = p
      · subst hq
        simp [values, hname, hread, Except.toOption]
      · simp [values, hname, hq, get_set_of_ne hq]

/-- The text that comes last among those for a parameter gives its value. -/
theorem get_supplyAll (h : params.supplyAll texts = .ok filled) (p : Parameter) :
    get filled p = (values p texts).getLast?.or (get params p) := by
  induction texts generalizing params with
  | nil =>
    cases h
    rfl
  | cons entry rest ih =>
    obtain ⟨name, raw⟩ := entry
    cases hsupply : params.supply name raw with
    | error cause => simp [Params.supplyAll, hsupply, bind, Except.bind] at h
    | ok middle =>
      have hrest : middle.supplyAll rest = .ok filled := by
        simpa [Params.supplyAll, hsupply, bind, Except.bind] using h
      have hsplit : values p ((name, raw) :: rest) = values p [(name, raw)] ++ values p rest :=
        List.filterMap_append (l := [(name, raw)])
      rw [hsplit, List.getLast?_append, Option.or_assoc, ih hrest, get_supply hsupply]

/-! ## The order of the texts -/

theorem Legible.perm (h : Legible texts) (hperm : other.Perm texts) : Legible other :=
  fun name raw hmem => h name raw (hperm.mem_iff.mp hmem)

/-- Whether the texts fail does not depend on their order. -/
theorem supplyAll_fails_perm (params : Params) (hperm : other.Perm texts)
    (h : (params.supplyAll texts).toOption = none) : (params.supplyAll other).toOption = none := by
  rw [supplyAll_fails_iff] at h ⊢
  exact fun hother => h (hother.perm hperm.symm)

/-- The texts for one parameter all stand for one value. -/
def Agree (texts : List (String × String)) : Prop :=
  ∀ p, ∀ v ∈ values p texts, ∀ w ∈ values p texts, v = w

theorem getLast?_eq_of_perm {α : Type} {l l' : List α} (h : l.Perm l')
    (same : ∀ v ∈ l, ∀ w ∈ l, v = w) : l.getLast? = l'.getLast? := by
  cases hl : l.getLast? with
  | none =>
    rw [List.getLast?_eq_none_iff] at hl
    subst hl
    rw [← h.nil_eq, List.getLast?_nil]
  | some v =>
    cases hl' : l'.getLast? with
    | none =>
      rw [List.getLast?_eq_none_iff] at hl'
      subst hl'
      rw [h.eq_nil] at hl
      cases hl
    | some w =>
      have hw : w ∈ l := h.mem_iff.mpr (List.mem_of_getLast? hl')
      rw [same v (List.mem_of_getLast? hl) w hw]

/-- Texts that agree come to the same in every order. -/
theorem supplyAll_perm (agree : Agree texts) (hperm : other.Perm texts) (params : Params) :
    (params.supplyAll other).toOption = (params.supplyAll texts).toOption := by
  cases hall : params.supplyAll texts with
  | error cause => rw [supplyAll_fails_perm params hperm (by rw [hall]; rfl)]; rfl
  | ok filled =>
    have hlegible := (supplyAll_ok_iff params).mp ⟨filled, hall⟩
    obtain ⟨filled', hall'⟩ := (supplyAll_ok_iff params).mpr (hlegible.perm hperm)
    have heq : filled' = filled := ext_get fun p => by
      have hlast := getLast?_eq_of_perm (hperm.symm.filterMap _) (agree p)
      rw [get_supplyAll hall', get_supplyAll hall, values, values, ← hlast]
    rw [hall', heq]

/-- Every text for a parameter can come last. -/
theorem exists_last {v : p.Value} (h : v ∈ p.values texts) :
    ∃ order : List (String × String), order.Perm texts ∧ (p.values order).getLast? = some v := by
  obtain ⟨name, raw, hmem, hname, hread⟩ := mem_values.mp h
  obtain ⟨front, back, rfl⟩ := List.append_of_mem hmem
  refine ⟨front ++ back ++ [(name, raw)], ?_, ?_⟩
  · rw [List.append_assoc]
    exact (List.perm_append_singleton _ _).append_left front
  · have hlast : values p [(name, raw)] = [v] := by
      simp [values, hname, hread, Except.toOption]
    rw [values, List.filterMap_append, ← values, ← values, hlast, List.getLast?_concat]

/-- Both names of one parameter are there, with texts for different values. -/
def Clash (texts : List (String × String)) : Prop :=
  ∃ p one two, names p = [one, two] ∧ ∃ raw raw', (one, raw) ∈ texts ∧ (two, raw') ∈ texts ∧
    ∃ v w, p.read one raw = .ok v ∧ p.read two raw' = .ok w ∧ v ≠ w

/-- Two names of one parameter are its two spellings. -/
theorem spelled_twice {name name' : String} (hname : named? name = some p)
    (hname' : named? name' = some p) (hne : name ≠ name') :
    names p = [name, name'] ∨ names p = [name', name] := by
  rw [named?_eq_some_iff] at hname hname'
  cases p <;> simp only [names, List.mem_cons, List.not_mem_nil, or_false] at hname hname' ⊢
  case startKey | endKey | startDoc | endDoc =>
    rcases hname with rfl | rfl <;> rcases hname' with rfl | rfl <;>
      first | exact absurd rfl hne | exact .inl rfl | exact .inr rfl
  all_goals exact absurd (hname.trans hname'.symm) hne

/-- With different names, texts agree unless two spellings disagree. -/
theorem agree_iff_not_clash (distinct : (texts.map Prod.fst).Nodup) :
    Agree texts ↔ ¬ Clash texts := by
  constructor
  · rintro agree ⟨p, one, two, hnames, raw, raw', hone, htwo, v, w, hv, hw, hne⟩
    have named (name : String) (h : name ∈ [one, two]) : named? name = some p :=
      named?_eq_some_iff.mpr (hnames ▸ h)
    exact hne (agree p v (mem_values.mpr ⟨one, raw, hone, named one (by simp), hv⟩)
      w (mem_values.mpr ⟨two, raw', htwo, named two (by simp), hw⟩))
  · intro calm p v hv w hw
    by_contra hne
    obtain ⟨name, raw, hmem, hname, hread⟩ := mem_values.mp hv
    obtain ⟨name', raw', hmem', hname', hread'⟩ := mem_values.mp hw
    by_cases heq : name = name'
    · have hsame : (name, raw) = (name', raw') :=
        List.inj_on_of_nodup_map distinct hmem hmem' heq
      cases hsame
      exact hne (Except.ok.inj (hread.symm.trans hread'))
    · rcases spelled_twice hname hname' heq with hnames | hnames
      · exact calm ⟨p, name, name', hnames, raw, raw', hmem, hmem', v, w, hread, hread', hne⟩
      · exact calm
          ⟨p, name', name, hnames, raw', raw, hmem', hmem, w, v, hread', hread, Ne.symm hne⟩

/-- What was supplied stays when the wish to group is settled. -/
theorem get_settle {v : p.Value} (h : get params p = some v) : get params.settle p = some v := by
  unfold Params.settle
  split
  · exact h
  case h_2 hlevel => cases p <;> first | exact h | exact absurd (hlevel.symm.trans h) (by simp)

end Parameter

namespace Params

open Parameter

variable {texts : Texts} {order : texts.Order}

theorem toOption_parse (texts : Texts) (order : texts.Order) :
    (parse texts order).toOption = (supplyAll {} order.entries).toOption.map settle := by
  unfold parse
  cases supplyAll {} order.entries <;> rfl

/-- The text that comes last among those for a parameter gives its value, group level or not. -/
theorem get_parse {params : Params} {p : Parameter} {v : p.Value}
    (h : (parse texts order).toOption = some params)
    (hlast : (p.values order.entries).getLast? = some v) : p.get params = some v := by
  rw [toOption_parse] at h
  obtain ⟨filled, hfilled, rfl⟩ := Option.map_eq_some_iff.mp h
  cases hall : supplyAll {} order.entries with
  | error cause => rw [hall] at hfilled; cases hfilled
  | ok supplied =>
    rw [hall] at hfilled
    cases hfilled
    exact get_settle (by rw [get_supplyAll hall, hlast, Option.some_or])

/-- Texts that fail in one order fail in every order. -/
theorem parse_fails (h : (parse texts order).toOption = none) (other : texts.Order) :
    (parse texts other).toOption = none := by
  rw [toOption_parse, Option.map_eq_none_iff] at h ⊢
  exact supplyAll_fails_perm {} (other.perm.trans order.perm.symm) h

/-- Named texts come to the same in every order, or fail in every order, exactly if they fail or no
two spellings of one parameter disagree.  Nothing else depends on the order: not a group level
beside a wish to group, nor names that mean nothing. -/
theorem parse_agrees_iff (texts : Texts) :
    (∀ first second : texts.Order,
        (parse texts first).toOption = (parse texts second).toOption) ↔
      (∀ order : texts.Order, (parse texts order).toOption = none) ∨ ¬ Clash texts.entries := by
  rw [← agree_iff_not_clash texts.distinct]
  constructor
  · intro same
    refine or_iff_not_imp_left.mpr fun hsome p v hv w hw => ?_
    obtain ⟨order, hok⟩ := not_forall.mp hsome
    obtain ⟨params, hparams⟩ := Option.ne_none_iff_exists'.mp hok
    -- Whichever value comes last, the parameters are these.
    have holds {v : p.Value} (hv : v ∈ p.values texts.entries) : p.get params = some v := by
      obtain ⟨entries, hperm, hlast⟩ := exists_last hv
      exact @get_parse texts ⟨entries, hperm⟩ params p v ((same _ order).trans hparams) hlast
    exact Option.some.inj ((holds hv).symm.trans (holds hw))
  · rintro (hfails | agree) first second
    · rw [hfails first, hfails second]
    · rw [toOption_parse, toOption_parse, supplyAll_perm agree first.perm,
        supplyAll_perm agree second.perm]

/-- Both spellings of the first key, for one value, a wish to group beside a group level, and a name
that means nothing. -/
def wordy : Texts where
  entries := [("colour", "red"), ("group", "true"), ("group_level", "2"), ("start_key", " 1"),
    ("startkey", "1")]
  distinct := by decide

theorem wordy_in_every_order : ∀ first second : wordy.Order,
    (parse wordy first).toOption = (parse wordy second).toOption := by
  refine (parse_agrees_iff wordy).mpr (.inr ?_)
  rintro ⟨p, one, two, hnames, raw, raw', hone, htwo, v, w, hv, hw, hne⟩
  cases p <;> cases hnames <;> simp [wordy] at hone htwo
  subst hone htwo
  have same : Parameter.read "startkey" "1" .startKey = Parameter.read "start_key" " 1" .startKey :=
    rfl
  exact hne (Except.ok.inj (hv.symm.trans (same.trans hw)))

/-- Both spellings of the first key, for two values, among names that mean nothing. -/
def clashing : Texts where
  entries := [("att_encoding_info", ""), ("attachments", ""), ("conflicts", ""), ("feed", ""),
    ("heartbeat", ""), ("inclusive_end", ""), ("partition", ""), ("rev", ""), ("seq_interval", ""),
    ("since", ""), ("sorted", ""), ("stable", ""), ("start_key", "\"b\""), ("startkey", "\"a\"")]
  distinct := by decide

/-- Two orders of the same texts give two first keys. -/
theorem first_key_by_order : ∃ first second : clashing.Order,
    (parse clashing first).toOption.map Params.startKey = some (some (.string "a")) ∧
      (parse clashing second).toOption.map Params.startKey = some (some (.string "b")) ∧
      (parse clashing first).toOption ≠ (parse clashing second).toOption := by
  have hone : (parse clashing clashing.listed).toOption.map Params.startKey =
      some (some (.string "a")) := rfl
  have htwo : (parse clashing ⟨clashing.entries.reverse, List.reverse_perm _⟩).toOption.map
      Params.startKey = some (some (.string "b")) := rfl
  refine ⟨_, _, hone, htwo, fun heq => ?_⟩
  have hkeys := hone.symm.trans ((congrArg (Option.map Params.startKey) heq).trans htwo)
  simp at hkeys

end Params

end Viewbase
