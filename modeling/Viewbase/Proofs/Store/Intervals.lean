import Viewbase.Proofs.Store.Rollup

/-!
Ranges as intervals of the row order.

A bound without a document id is no position: all rows of its key are level with it.  Still a row
that a scan meets later is no earlier relative to any bound (`side_eq_lt_of_isLE_met`,
`isLE_side_of_isLE_met`), so what has reached the start stays behind it, and what is past the end
stays there.  Main statement: a range holds every position between two that it holds, and a further
condition on a range lets no row in (`ranges_are_intervals`).  So the rows that a range selects
stand side by side in the scan (`select_range_infix`).
-/

namespace Viewbase

namespace KeyRange

variable {range narrower : KeyRange} {descending : Bool} {p q : Position}

/-! ## Positions relative to a bound -/

/-- Where a position lies relative to a bound, as a scan in the given direction meets both. -/
def side (descending : Bool) (p : Position) (bound : Key) (boundDoc : Option String) : Ordering :=
  directed descending (orderBound p.key p.docId bound boundDoc)

theorem side_none (descending : Bool) (p : Position) (bound : Key) :
    side descending p bound none = Key.met descending p.key bound := by
  have horder : orderBound p.key p.docId bound none = p.key.order bound := Ordering.then_eq
  rw [side, horder, Key.met]

theorem side_some (descending : Bool) (p : Position) (bound : Key) (boundDoc : String) :
    side descending p bound (some boundDoc) = Position.met descending p ⟨bound, boundDoc⟩ :=
  rfl

/-- A document id beside a bound tells apart only the rows of its key. -/
theorem side_eq_side_none {bound : Key} (h : side descending p bound none ≠ .eq)
    (boundDoc : Option String) :
    side descending p bound boundDoc = side descending p bound none := by
  rw [side_none, Key.met] at h ⊢
  simp only [side, orderBound]
  cases hkey : p.key.order bound with
  | lt => rfl
  | gt => rfl
  | eq =>
    rw [hkey] at h
    cases descending <;> exact absurd rfl h

/-- What a scan meets before a position that is before a bound is before the bound too. -/
theorem side_eq_lt_of_isLE_met (h : (Position.met descending p q).isLE) {bound : Key}
    {boundDoc : Option String} (hq : side descending q bound boundDoc = .lt) :
    side descending p bound boundDoc = .lt := by
  cases boundDoc with
  | none =>
    rw [side_none] at hq ⊢
    exact Std.TransCmp.lt_of_isLE_of_lt (Position.isLE_met_key h) hq
  | some boundDoc =>
    rw [side_some] at hq ⊢
    exact Std.TransCmp.lt_of_isLE_of_lt h hq

/-- What a scan meets before a position that is not past a bound is not past the bound either. -/
theorem isLE_side_of_isLE_met (h : (Position.met descending p q).isLE) {bound : Key}
    {boundDoc : Option String} (hq : (side descending q bound boundDoc).isLE) :
    (side descending p bound boundDoc).isLE := by
  cases boundDoc with
  | none =>
    rw [side_none] at hq ⊢
    exact Std.TransCmp.isLE_trans (Position.isLE_met_key h) hq
  | some boundDoc =>
    rw [side_some] at hq ⊢
    exact Std.TransCmp.isLE_trans h hq

/-! ## The two ends -/

/-- The range holds a position. -/
def Holds (range : KeyRange) (descending : Bool) (p : Position) : Prop :=
  range.contains descending p.key p.docId = true

theorem reachesStart_iff : range.reachesStart descending p.key p.docId = true ↔
    ∀ bound, range.startKey = some bound → side descending p bound range.startDoc ≠ .lt := by
  rw [reachesStart]
  cases range.startKey <;> simp [side]

theorem withinEnd_iff : range.withinEnd descending p.key p.docId = true ↔
    ∀ bound, range.endKey = some bound → side descending p bound range.endDoc = .lt ∨
      side descending p bound range.endDoc = .eq ∧ range.inclusiveEnd = true := by
  rw [withinEnd]
  cases range.endKey with
  | none => simp
  | some bound =>
    simp only [Option.some.injEq, forall_eq', side]
    cases directed descending (orderBound p.key p.docId bound range.endDoc) <;> simp

theorem holds_iff : range.Holds descending p ↔
    range.reachesStart descending p.key p.docId = true ∧
      range.withinEnd descending p.key p.docId = true := by
  rw [Holds, contains, Bool.and_eq_true]

/-- Behind a position that has reached the start, every position has. -/
theorem reachesStart_of_isLE_met (h : (Position.met descending p q).isLE)
    (hp : range.reachesStart descending p.key p.docId = true) :
    range.reachesStart descending q.key q.docId = true := by
  rw [reachesStart_iff] at hp ⊢
  intro bound hbound hlt
  exact hp bound hbound (side_eq_lt_of_isLE_met h hlt)

/-- Before a position that is not past the end, none is. -/
theorem withinEnd_of_isLE_met (h : (Position.met descending p q).isLE)
    (hq : range.withinEnd descending q.key q.docId = true) :
    range.withinEnd descending p.key p.docId = true := by
  rw [withinEnd_iff] at hq ⊢
  intro bound hbound
  rcases hq bound hbound with hlt | ⟨heq, hend⟩
  · exact .inl (side_eq_lt_of_isLE_met h hlt)
  · have hle : (side descending p bound range.endDoc).isLE :=
      isLE_side_of_isLE_met h (by rw [heq]; rfl)
    exact (Ordering.isLE_iff_eq_lt_or_eq_eq.1 hle).imp id fun hlevel => ⟨hlevel, hend⟩

/-- A range holds what a scan meets between two positions that it holds. -/
theorem holds_between {r : Position} (hpq : (Position.met descending p q).isLE)
    (hqr : (Position.met descending q r).isLE) (hp : range.Holds descending p)
    (hr : range.Holds descending r) : range.Holds descending q := by
  rw [holds_iff] at hp hr ⊢
  exact ⟨reachesStart_of_isLE_met hpq hp.1, withinEnd_of_isLE_met hqr hr.2⟩

/-! ## Narrower ranges -/

/-- The second range has one condition more than the first: a key as a bound where there was none, a
document id beside the start or beside an inclusive end where there was none, or an end that is
exclusive. -/
inductive Narrowing (range : KeyRange) : KeyRange → Prop
  | startKey (h : range.startKey = none) (key : Key) :
    Narrowing range { range with startKey := some key }
  | endKey (h : range.endKey = none) (key : Key) :
    Narrowing range { range with endKey := some key }
  | startDoc (h : range.startDoc = none) (docId : String) :
    Narrowing range { range with startDoc := some docId }
  | endDoc (hend : range.inclusiveEnd = true) (h : range.endDoc = none) (docId : String) :
    Narrowing range { range with endDoc := some docId }
  | exclusiveEnd : Narrowing range { range with inclusiveEnd := false }

theorem Narrowing.reachesStart (h : Narrowing range narrower)
    (hp : narrower.reachesStart descending p.key p.docId = true) :
    range.reachesStart descending p.key p.docId = true := by
  rw [reachesStart_iff] at hp ⊢
  intro bound hbound
  cases h with
  | startKey hnone key =>
    rw [hnone] at hbound
    cases hbound
  | startDoc hnone docId =>
    rw [hnone]
    intro hlt
    have hdiffer : side descending p bound none ≠ .eq := by
      rw [hlt]
      decide
    exact hp bound hbound ((side_eq_side_none hdiffer (some docId)).trans hlt)
  | endKey => exact hp bound hbound
  | endDoc => exact hp bound hbound
  | exclusiveEnd => exact hp bound hbound

theorem Narrowing.withinEnd (h : Narrowing range narrower)
    (hp : narrower.withinEnd descending p.key p.docId = true) :
    range.withinEnd descending p.key p.docId = true := by
  rw [withinEnd_iff] at hp ⊢
  intro bound hbound
  cases h with
  | startKey => exact hp bound hbound
  | startDoc => exact hp bound hbound
  | endKey hnone key =>
    rw [hnone] at hbound
    cases hbound
  | endDoc hend hnone docId =>
    rw [hnone]
    by_cases hlevel : side descending p bound none = .eq
    · -- The rows of the last key all belong.
      exact .inr ⟨hlevel, hend⟩
    · rw [← side_eq_side_none hlevel (some docId)]
      exact hp bound hbound
  | exclusiveEnd =>
    rcases hp bound hbound with hlt | ⟨-, hfalse⟩
    · exact .inl hlt
    · cases hfalse

/-- A narrower range lets no position in. -/
theorem Narrowing.holds (h : Narrowing range narrower) (hp : narrower.Holds descending p) :
    range.Holds descending p := by
  rw [holds_iff] at hp ⊢
  exact ⟨h.reachesStart hp.1, h.withinEnd hp.2⟩

/-- Ranges are intervals of the row order: in either direction, a range that holds two positions
holds every position between them.  And a further condition on a range lets no row in. -/
theorem ranges_are_intervals (range : KeyRange) (descending : Bool) :
    (∀ p q r : Position, (p.order q).isLE → (q.order r).isLE →
      range.contains descending p.key p.docId = true →
      range.contains descending r.key r.docId = true →
      range.contains descending q.key q.docId = true) ∧
    (∀ narrower, Narrowing range narrower → ∀ key docId,
      narrower.contains descending key docId = true →
      range.contains descending key docId = true) := by
  refine ⟨fun p q r hpq hqr hp hr => ?_, fun narrower h key docId => ?_⟩
  · cases descending with
    | false => exact holds_between hpq hqr hp hr
    | true =>
      -- A descending scan meets the three the other way round.
      rw [← Position.met_true] at hpq hqr
      exact holds_between hqr hpq hr hp
  · exact h.holds (p := ⟨key, docId⟩)

/-- The rows from one document of an array on, up to a longer array. -/
def tied : KeyRange where
  startKey := some (.array [.string "a"])
  endKey := some (.array [.string "a", .null])
  startDoc := some "m"
  endDoc := none
  inclusiveEnd := true

/-- The same rows, up to a document of the longer array. -/
def tiedTwice : KeyRange :=
  { tied with endDoc := some "j" }

/-- The range holds a row of its first key between one at the start and one of the last key, and the
document id beside the end lets no row in. -/
theorem tied_is_interval :
    ((Position.mk (.array [.string "a"]) "m").order ⟨.array [.string "a"], "z"⟩).isLE ∧
      ((Position.mk (.array [.string "a"]) "z").order ⟨.array [.string "a", .null], "k"⟩).isLE ∧
      tied.contains false (.array [.string "a"]) "m" = true ∧
      tied.contains false (.array [.string "a", .null]) "k" = true ∧
      tied.contains false (.array [.string "a"]) "z" = true ∧
      Narrowing tied tiedTwice ∧
      tiedTwice.contains false (.array [.string "a", .null]) "j" = true ∧
      tied.contains false (.array [.string "a", .null]) "j" = true := by
  obtain ⟨hbetween, hnarrow⟩ := ranges_are_intervals tied false
  have hnarrower : Narrowing tied tiedTwice := .endDoc rfl rfl "j"
  have hq : tied.contains false (.array [.string "a"]) "z" = true :=
    hbetween ⟨.array [.string "a"], "m"⟩ ⟨.array [.string "a"], "z"⟩
      ⟨.array [.string "a", .null], "k"⟩ (by decide) (by decide) (by decide) (by decide)
  have hlast : tied.contains false (.array [.string "a", .null]) "j" = true :=
    hnarrow tiedTwice hnarrower (.array [.string "a", .null]) "j" (by decide)
  exact ⟨by decide, by decide, by decide, by decide, hq, hnarrower, by decide, hlast⟩

-- Beside an exclusive end a document id lets rows in: those of the last key that are before it.
example :
    (KeyRange.mk none (some (.string "b")) none none false).contains false
        (.string "b") "i" = false ∧
      (KeyRange.mk none (some (.string "b")) none (some "j") false).contains false
        (.string "b") "i" = true := by
  decide

end KeyRange

/-! ## Scans of ranges -/

namespace View

/-- The rows that a range selects stand side by side among those that a scan meets. -/
theorem select_range_infix (view : View) (range : KeyRange) (descending : Bool) :
    view.select (.range range) descending <:+: View.directed descending view.tree.entries := by
  refine infix_filter_of_convex (fun {a b c} hab hbc ha hc => ?_) (view.pairwise_met descending)
  have hfirst : range.Holds descending a.position := ha
  have hlast : range.Holds descending c.position := hc
  exact KeyRange.holds_between hab hbc hfirst hlast

/-- A narrower range selects some of the rows, in the same order. -/
theorem select_sublist_of_narrowing (view : View) {range narrower : KeyRange}
    (h : range.Narrowing narrower) (descending : Bool) :
    (view.select (.range narrower) descending).Sublist (view.select (.range range) descending) :=
  List.monotone_filter_right _ fun entry hentry => h.holds (p := entry.position) hentry

end View

end Viewbase
