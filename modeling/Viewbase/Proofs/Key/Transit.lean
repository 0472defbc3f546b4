import Viewbase.Proofs.Key.Collation
import Viewbase.Proofs.Number.Whole

/-!
Keys on their way through JSON.

A key that was made from a JSON value is written as JSON and read back as itself
(`viaJson_ofJson`).  The JSON that is written need not be the value that the key was made from: an
integer that no float stands for comes back rounded, and of the others the lowest integer of 64 bits
comes back as a float (`toJson_ofJson_iff`).
-/

namespace Viewbase

namespace Numeral

/-- The numeral is one that a JSON number can be: an integer of 64 bits, or a finite float. -/
def Held : Numeral → Prop
  | integer i => minInteger ≤ i ∧ i ≤ maxInteger
  | float x => x.isFinite = true

/-- The lowest integer of 64 bits with a sign. -/
def lowest : Int := -0x8000000000000000

/-- An integer of 64 bits with a sign, and some float stands for it. -/
def Exact : Numeral → Prop
  | integer i => lowest ≤ i ∧ i ≤ 0x7FFFFFFFFFFFFFFF ∧
      ∃ x : Binary64, x.reading? = some ((i : ℚ) : ExtendedRat)
  | float _ => False

theorem isFinite_toFloat {n : Numeral} (h : n.Held) : n.toFloat.isFinite = true := by
  cases n with
  | integer i =>
    obtain ⟨hlow, hhigh⟩ := h
    simp only [minInteger, maxInteger] at hlow hhigh
    exact Binary64.isFinite_ofInt (by omega)
  | float x => exact h

end Numeral

namespace Json

/-- The members of an object are in order, each name once. -/
def Sorted {α : Type} (members : List (String × α)) : Prop :=
  members.Pairwise fun a b => Text.order a.1 b.1 = .lt

/-- The members of every object are in order, and every number is allowed. -/
inductive Over (allowed : Numeral → Prop) : Json → Prop
  | null : Over allowed .null
  | bool (b : Bool) : Over allowed (.bool b)
  | number {n : Numeral} (h : allowed n) : Over allowed (.number n)
  | string (s : String) : Over allowed (.string s)
  | array {items : List Json} (h : ∀ item ∈ items, Over allowed item) : Over allowed (.array items)
  | object {members : List (String × Json)} (sorted : Sorted members)
      (h : ∀ member ∈ members, Over allowed member.2) : Over allowed (.object members)

section Over

variable {allowed : Numeral → Prop}

@[simp]
theorem over_number_iff {n : Numeral} : Over allowed (.number n) ↔ allowed n :=
  ⟨fun | .number h => h, fun h => .number h⟩

@[simp]
theorem over_array_iff {items : List Json} :
    Over allowed (.array items) ↔ ∀ item ∈ items, Over allowed item :=
  ⟨fun | .array h => h, fun h => .array h⟩

@[simp]
theorem over_object_iff {members : List (String × Json)} :
    Over allowed (.object members) ↔
      Sorted members ∧ ∀ member ∈ members, Over allowed member.2 :=
  ⟨fun | .object hsorted h => ⟨hsorted, h⟩, fun ⟨hsorted, h⟩ => .object hsorted h⟩

end Over

/-- The value is one that a JSON document can hold. -/
abbrev Proper (value : Json) : Prop :=
  value.Over Numeral.Held

/-! ## Objects -/

/-- A member whose name is behind all others is put at the end. -/
theorem insertMember_append {name : String} {value : Json} {members : List (String × Json)}
    (h : ∀ member ∈ members, Text.order member.1 name = .lt) :
    insertMember name value members = members ++ [(name, value)] := by
  induction members with
  | nil => rfl
  | cons member rest ih =>
    obtain ⟨hmember, hrest⟩ := List.forall_mem_cons.1 h
    have hbehind : Text.order name member.1 = .gt := by
      rw [← Text.order_swap, hmember]
      rfl
    rw [insertMember, hbehind, ih hrest]
    rfl

theorem foldl_insertMember {before members : List (String × Json)}
    (h : Sorted (before ++ members)) :
    members.foldl (fun sorted member => insertMember member.1 member.2 sorted) before =
      before ++ members := by
  induction members generalizing before with
  | nil => exact (List.append_nil before).symm
  | cons member rest ih =>
    have hlast : ∀ other ∈ before, Text.order other.1 member.1 = .lt := fun other hother =>
      (List.pairwise_append.1 h).2.2 other hother member List.mem_cons_self
    rw [List.append_cons] at h
    rw [List.foldl_cons, insertMember_append hlast, ih h, ← List.append_cons]

/-- Members that are in order make their object as they are. -/
theorem ofMembers_of_sorted {members : List (String × Json)} (h : Sorted members) :
    ofMembers members = .object members :=
  congrArg Json.object (@foldl_insertMember [] members h)

end Json

namespace Key

/-! ## Lists of keys -/

theorem ofItems_eq_map (items : List Json) : ofItems items = items.map ofJson := by
  induction items with
  | nil => rfl
  | cons item rest ih => rw [ofItems, ih, List.map_cons]

theorem toItems_eq_map (items : List Key) : toItems items = items.map toJson := by
  induction items with
  | nil => rfl
  | cons item rest ih => rw [toItems, ih, List.map_cons]

theorem ofMembers_eq_map (members : List (String × Json)) :
    ofMembers members = members.map (Prod.map id ofJson) := by
  induction members with
  | nil => rfl
  | cons member rest ih =>
    rw [ofMembers, ih, List.map_cons]
    rfl

theorem toMembers_eq_map (members : List (String × Key)) :
    toMembers members = members.map (Prod.map id toJson) := by
  induction members with
  | nil => rfl
  | cons member rest ih =>
    rw [toMembers, ih, List.map_cons]
    rfl

theorem toJson_ofJson_array (items : List Json) :
    (ofJson (.array items)).toJson = .array (items.map fun item => (ofJson item).toJson) := by
  rw [ofJson, toJson, ofItems_eq_map, toItems_eq_map, List.map_map]
  rfl

/-- The names of members stay, and so does their order. -/
theorem toJson_ofJson_object {members : List (String × Json)} (h : Json.Sorted members) :
    (ofJson (.object members)).toJson =
      .object (members.map (Prod.map id fun value => (ofJson value).toJson)) := by
  rw [ofJson, toJson, ofMembers_eq_map, toMembers_eq_map, List.map_map]
  exact Json.ofMembers_of_sorted (List.pairwise_map.2 h)

/-! ## Numbers -/

theorem toJson_ofNumber (x : Binary64) : (ofNumber x).toJson = numberToJson x.unsigned := by
  rw [ofNumber_eq, toJson, Binary64.ofRank_rank]

theorem ofNumber_unsigned (x : Binary64) : ofNumber x.unsigned = ofNumber x := by
  rw [ofNumber_eq_iff, Binary64.ordinal_unsigned]

/-- The number of a key is read back from its JSON form, be that an integer or a float. -/
theorem ofJson_numberToJson {x : Binary64} (h : x.isFinite = true) :
    ofJson (numberToJson x) = ofNumber x := by
  rw [numberToJson]
  split
  next hwhole =>
    have hround := Binary64.ofInt_of_value h (Binary64.value_of_isIntegral hwhole.1)
    rw [Json.integer, ofJson, Numeral.toFloat, hround, ofNumber_unsigned]
  next =>
    rw [Json.float, if_pos h, ofJson, Numeral.toFloat]

/-! ## There and back -/

/-- The key as it is read from its JSON form. -/
def viaJson (key : Key) : Key :=
  ofJson key.toJson

/-- A key that was made from a JSON value survives the way through JSON. -/
theorem viaJson_ofJson {value : Json} (h : value.Proper) : (ofJson value).viaJson = ofJson value := by
  rw [viaJson]
  induction h with
  | null => rfl
  | bool b => rfl
  | string s => rfl
  | @number n hn =>
    have hfinite : n.toFloat.unsigned.isFinite = true := by
      rw [Binary64.isFinite_unsigned]
      exact Numeral.isFinite_toFloat hn
    rw [ofJson, toJson_ofNumber, ofJson_numberToJson hfinite, ofNumber_unsigned]
  | array _ ih =>
    rw [toJson_ofJson_array, ofJson, ofJson, ofItems_eq_map, ofItems_eq_map, List.map_map]
    exact congrArg Key.array (List.map_congr_left ih)
  | object hsorted _ ih =>
    rw [toJson_ofJson_object hsorted, ofJson, ofJson, ofMembers_eq_map, ofMembers_eq_map,
      List.map_map]
    refine congrArg Key.object (List.map_congr_left fun member hmember => ?_)
    exact Prod.ext rfl (ih member hmember)

/-- Different keys that were made from JSON values have different JSON forms. -/
theorem ofJson_inj_of_toJson {value value' : Json} (h : value.Proper) (h' : value'.Proper)
    (hsame : (ofJson value).toJson = (ofJson value').toJson) : ofJson value = ofJson value' := by
  rw [← viaJson_ofJson h, ← viaJson_ofJson h', viaJson, viaJson, hsame]

/-! ## Integers -/

/-- An integer that some float stands for comes back as it is, or as that float if it is of the size
of the lowest integer or larger. -/
theorem toJson_ofJson_integer {i : Int} {x : Binary64}
    (h : x.reading? = some ((i : ℚ) : ExtendedRat)) :
    (ofJson (.number (.integer i))).toJson =
      .number (if i.natAbs < Binary64.signBit then .integer i else .float x.unsigned) := by
  obtain ⟨hfinite, hvalue⟩ := Binary64.value_of_reading?_intCast h
  have hround := Binary64.ofInt_of_value hfinite hvalue
  rw [← Binary64.isFinite_unsigned] at hfinite
  rw [← Binary64.value_unsigned] at hvalue
  rw [ofJson, Numeral.toFloat, hround, ofNumber_unsigned, toJson_ofNumber, numberToJson,
    Binary64.isIntegral_of_value hfinite hvalue, Binary64.truncate_of_value hvalue]
  by_cases hsmall : i.natAbs < Binary64.signBit
  · rw [if_pos ⟨rfl, hsmall⟩, if_pos hsmall, Json.integer]
  · rw [if_neg fun hboth => hsmall hboth.2, if_neg hsmall, Json.float, if_pos hfinite]

theorem toJson_ofJson_exact_iff {n : Numeral} (h : n.Exact) :
    (ofJson (.number n)).toJson = .number n ↔ n ≠ .integer Numeral.lowest := by
  cases n with
  | float x => exact h.elim
  | integer i =>
    obtain ⟨hlow, hhigh, x, hx⟩ := h
    rw [toJson_ofJson_integer hx, Json.number.injEq, ne_eq, Numeral.integer.injEq]
    have hbit : Binary64.signBit = 0x8000000000000000 := rfl
    simp only [Numeral.lowest] at *
    by_cases hsmall : i.natAbs < Binary64.signBit
    · rw [if_pos hsmall]
      exact iff_of_true rfl (by omega)
    · rw [if_neg hsmall]
      exact iff_of_false nofun (by omega)

theorem map_eq_self_iff {α : Type} {f : α → α} {items : List α} :
    items.map f = items ↔ ∀ item ∈ items, f item = item := by
  have hself := List.map_inj_left (f := f) (g := id) (l := items)
  rwa [List.map_id] at hself

/-- Of the values of any nesting whose numbers are integers of 64 bits with a sign that some float
stands for, exactly those come back as they were that do not hold the lowest integer. -/
theorem toJson_ofJson_iff {value : Json} (h : value.Over Numeral.Exact) :
    (ofJson value).toJson = value ↔ value.Over (· ≠ .integer Numeral.lowest) := by
  induction h with
  | null => exact iff_of_true rfl .null
  | bool b => exact iff_of_true rfl (.bool b)
  | string s => exact iff_of_true rfl (.string s)
  | number hn => rw [toJson_ofJson_exact_iff hn, Json.over_number_iff]
  | array _ ih =>
    rw [toJson_ofJson_array, Json.array.injEq, map_eq_self_iff, Json.over_array_iff]
    exact forall₂_congr ih
  | object hsorted _ ih =>
    rw [toJson_ofJson_object hsorted, Json.object.injEq, map_eq_self_iff, Json.over_object_iff,
      and_iff_right hsorted]
    refine forall₂_congr fun member hmember => ?_
    rw [← ih member hmember, Prod.ext_iff]
    exact and_iff_right rfl

/-- The integers of largest size that come back, in an array in an object. -/
theorem extremes_come_back :
    (ofJson (.object [("a", .array [.integer 0x7FFFFFFFFFFFFC00]),
      ("b", .integer (-0x7FFFFFFFFFFFFC00))])).toJson =
    .object [("a", .array [.integer 0x7FFFFFFFFFFFFC00]), ("b", .integer (-0x7FFFFFFFFFFFFC00))] := by
  refine (toJson_ofJson_iff ?_).2 ?_
  · refine .object (by simp [Json.Sorted]; decide) (List.forall_mem_cons.2 ⟨?_, ?_⟩)
    · refine .array (List.forall_mem_singleton.2 (.number ⟨by decide, by decide, ?_⟩))
      exact ⟨⟨0x43DFFFFFFFFFFFFF⟩, by decide +kernel⟩
    · refine List.forall_mem_singleton.2 (.number ⟨by decide, by decide, ?_⟩)
      exact ⟨⟨0xC3DFFFFFFFFFFFFF⟩, by decide +kernel⟩
  · simp [Json.Sorted, Json.integer, Numeral.lowest]
    decide

/-- The lowest integer is one that a float stands for, but its key is written as that float. -/
theorem lowest_comes_back_as_float :
    (Json.number (.integer Numeral.lowest)).Over Numeral.Exact ∧
      (ofJson (.number (.integer Numeral.lowest))).toJson =
        .number (.float ⟨0xC3E0000000000000⟩) ∧
      (ofJson (.number (.integer Numeral.lowest))).toJson ≠ .number (.integer Numeral.lowest) := by
  have hread : (Binary64.mk 0xC3E0000000000000).reading? =
      some (((Numeral.lowest : Int) : ℚ) : ExtendedRat) := by
    decide +kernel
  have hwritten := toJson_ofJson_integer hread
  refine ⟨.number ⟨by decide, by decide, _, hread⟩, hwritten, fun hsame => ?_⟩
  cases hwritten.symm.trans hsame

end Key

end Viewbase
