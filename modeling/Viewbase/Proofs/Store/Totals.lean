import Mathlib.Algebra.Order.AbsoluteValue.Basic
import Viewbase.Document
import Viewbase.Proofs.Number.Whole

/-!
The totals of groups.

A total without fractional part is answered as an integer of 64 bits with a sign.  Main statement: a
finite total is answered as it is up to a size of `2 ^ 63`, and as the nearer end of that range
beyond (`sum_reads_clamped`).
-/

namespace Viewbase.ReduceFunction

/-- The largest size of a total that is answered as it is. -/
def limit : ℚ := 2 ^ 63

/-- A total brought into the range of integers of 64 bits with a sign, both ends included. -/
def clamped (t : ℚ) : ℚ :=
  max (-limit) (min t limit)

theorem limit_pos : 0 < limit := by
  decide +kernel

theorem clamped_eq_self_iff {t : ℚ} : clamped t = t ↔ |t| ≤ limit := by
  rw [clamped, abs_le]
  constructor
  · intro h
    rw [← h]
    exact ⟨le_max_left _ _, max_le ((neg_lt_self limit_pos).le) (min_le_right _ _)⟩
  · rintro ⟨hlow, hhigh⟩
    rw [min_eq_left hhigh, max_eq_right hlow]

theorem clamped_of_le_neg_limit {t : ℚ} (h : t ≤ -limit) : clamped t = -limit := by
  rw [clamped, min_eq_left (h.trans (neg_lt_self limit_pos).le), max_eq_left h]

theorem clamped_of_limit_le {t : ℚ} (h : limit ≤ t) : clamped t = limit := by
  rw [clamped, min_eq_right h, max_eq_right (neg_lt_self limit_pos).le]

open Binary64

/-- A total without fractional part is read as it is, or as the nearer end of the range. -/
theorem reading?_ofInt_clamp {x : Binary64} (h : x.isIntegral = true) :
    (ofInt (clamp x.truncate)).reading? = some (clamped x.truncate : ExtendedRat) := by
  have hlimit : limit = ((0x8000000000000000 : Int) : ℚ) := by
    decide +kernel
  rw [clamp]
  split
  next hlow =>
    have hle : (x.truncate : ℚ) ≤ -limit := by
      rw [hlimit, ← Int.cast_neg, Int.cast_le]
      omega
    rw [clamped_of_le_neg_limit hle]
    decide +kernel
  split
  next hhigh =>
    have hle : limit ≤ (x.truncate : ℚ) := by
      rw [hlimit, Int.cast_le]
      omega
    rw [clamped_of_limit_le hle]
    decide +kernel
  next hlow hhigh =>
    have hsize : |(x.truncate : ℚ)| ≤ limit := by
      rw [hlimit, ← Int.cast_abs, Int.cast_le, abs_le]
      omega
    have hround := ofInt_of_value (isFinite_of_isIntegral h) (value_of_isIntegral h)
    rw [hround, reading?_unsigned, reading?_of_isIntegral h, clamped_eq_self_iff.2 hsize]

/-- A number with a fractional part is far below the limit. -/
theorem abs_le_limit {x : Binary64} (hx : x.isFinite = true) (h : x.isIntegral = false) :
    |(x.value : ℚ) / unitsPerOne| ≤ limit := by
  have hpos : (0 : ℚ) < unitsPerOne := Nat.cast_pos.2 unitsPerOne_pos
  have hsmall : x.units < 2 ^ 53 * unitsPerOne := by
    refine Nat.lt_of_not_le fun hlarge => ?_
    rw [isIntegral_of_le hx hlarge] at h
    cases h
  have hsize : |(x.value : ℚ)| = x.units := by
    rw [value]
    split <;> simp
  have hlimit : ((2 ^ 53 : Nat) : ℚ) ≤ limit := by
    decide +kernel
  rw [abs_div, hsize, abs_of_pos hpos, div_le_iff₀ hpos]
  calc (x.units : ℚ) ≤ ((2 ^ 53 * unitsPerOne : Nat) : ℚ) := Nat.cast_le.2 hsmall.le
    _ = ((2 ^ 53 : Nat) : ℚ) * unitsPerOne := Nat.cast_mul _ _
    _ ≤ limit * unitsPerOne := mul_le_mul_of_nonneg_right hlimit hpos.le

/-- What is answered for a finite total is read as the total in the range. -/
theorem exists_sum_reads (keys : List Key) {values : List Json} {t : ℚ}
    (h : (total values).reading? = some (t : ExtendedRat)) :
    ∃ result y, sum keys values = some result ∧ result.number? = some y ∧
      y.reading? = some (clamped t : ExtendedRat) := by
  have hfinite := (value_of_reading? h).1
  rw [sum]
  cases hwhole : (total values).isIntegral with
  | true =>
    rw [reading?_of_isIntegral hwhole, Option.some.injEq, ExtendedRat.coe_inj] at h
    refine ⟨_, _, rfl, rfl, ?_⟩
    rw [Numeral.toFloat, reading?_ofInt_clamp hwhole, h]
  | false =>
    refine ⟨_, total values, rfl, ?_, ?_⟩
    · rw [if_neg (by decide), Json.float, if_pos hfinite]
      rfl
    · rw [reading?_of_isFinite hfinite, Option.some.injEq, ExtendedRat.coe_inj] at h
      rw [reading?_of_isFinite hfinite, ← h, clamped_eq_self_iff.2 (abs_le_limit hfinite hwhole)]

/-- Whatever the values are, if their total is finite a number is answered.  It is the total, brought
into the range from `-2 ^ 63` to `2 ^ 63`; so it is the total itself exactly if the total is not
larger than `2 ^ 63` in size. -/
theorem sum_reads_clamped (keys : List Key) {values : List Json}
    (h : (total values).isFinite = true) :
    ∃ (t : ℚ) (result : Json) (y : Binary64), (total values).reading? = some (t : ExtendedRat) ∧
      sum keys values = some result ∧ result.number? = some y ∧
      y.reading? = some (clamped t : ExtendedRat) ∧
      (y.reading? = (total values).reading? ↔ |t| ≤ limit) := by
  have hread := reading?_of_isFinite h
  obtain ⟨result, y, hsum, hnumber, hy⟩ := exists_sum_reads keys hread
  refine ⟨_, result, y, hread, hsum, hnumber, hy, ?_⟩
  rw [hy, hread, Option.some.injEq, ExtendedRat.coe_inj, clamped_eq_self_iff]

/-- Two values of `2 ^ 62`, with a text between them. -/
def halves : List Json :=
  [.integer 0x4000000000000000, .string "x", .float ⟨0x43D0000000000000⟩]

/-- Their total is as large as one may be that is answered as it is. -/
theorem sum_at_limit : ∃ result y, (total halves).reading? = some (limit : ExtendedRat) ∧
    sum [] halves = some result ∧ result.number? = some y ∧
      y.reading? = (total halves).reading? := by
  have hlimit : (total halves).reading? = some (limit : ExtendedRat) := by
    decide +kernel
  have hfinite := (value_of_reading? hlimit).1
  obtain ⟨t, result, y, ht, hsum, hnumber, -, hsame⟩ := sum_reads_clamped [] hfinite
  rw [hlimit, Option.some.injEq, ExtendedRat.coe_inj] at ht
  refine ⟨result, y, hlimit, hsum, hnumber, hsame.2 ?_⟩
  rw [← ht, abs_of_pos limit_pos]

/-- The total of one number above the limit is answered as the largest integer of the range, which is
read as the limit. -/
theorem total_cut_to_limit :
    (total [.float ⟨0x43E158E460913D00⟩]).reading? = some ((10 ^ 19 : ℚ) : ExtendedRat) ∧
      sum [] [.float ⟨0x43E158E460913D00⟩] = some (.integer 0x7FFFFFFFFFFFFFFF) ∧
      (Json.integer 0x7FFFFFFFFFFFFFFF).number? = some (ofInt 0x7FFFFFFFFFFFFFFF) ∧
      (ofInt 0x7FFFFFFFFFFFFFFF).reading? = some ((2 ^ 63 : ℚ) : ExtendedRat) ∧
      (ofInt 0x7FFFFFFFFFFFFFFF).reading? ≠ (total [.float ⟨0x43E158E460913D00⟩]).reading? := by
  have hwhole : (total [.float ⟨0x43E158E460913D00⟩]).isIntegral = true := by
    decide +kernel
  have hcut : clamp (total [.float ⟨0x43E158E460913D00⟩]).truncate = 0x7FFFFFFFFFFFFFFF := by
    decide +kernel
  refine ⟨by decide +kernel, ?_, rfl, by decide +kernel, by decide +kernel⟩
  rw [sum, hwhole, if_pos rfl, hcut]

end Viewbase.ReduceFunction
