import Viewbase.Key.Order
import Viewbase.Proofs.Number.Reading

/-!
The collation of number keys.

A number key holds the rank of a pattern, and the ranks follow each other as the patterns are
numbered (`toNat_rank_unsigned`).  Main statement: number keys collate as the numbers that they were
made from, equal numbers have one key, and the number is read back from its key
(`numbers_collate`).
-/

namespace Viewbase

namespace Binary64

/-- Ranks follow each other as the patterns are numbered, the negative ones below the half of all
words. -/
theorem toNat_rank_unsigned (x : Binary64) :
    (x.unsigned.rank.toNat : Int) = signBit + x.ordinal - if x.ordinal < 0 then 1 else 0 := by
  have hbits := x.unsigned.toNat_bits
  have hmagnitude := x.unsigned.magnitude_lt
  rw [toNat_rank, ← ordinal_unsigned, ordinal]
  cases hneg : x.unsigned.negative with
  | false =>
    rw [hneg, if_neg (by decide), Nat.zero_add] at hbits
    rw [if_neg (by decide), if_neg (by decide), if_neg (by omega), hbits]
    omega
  | true =>
    -- A negative pattern that is its own positive zero is no zero.
    have hne : x.unsigned.magnitude ≠ 0 := by
      intro hzero
      rw [unsigned] at hneg hzero
      split at hneg
      · cases hneg
      next hnonzero =>
        rw [if_neg hnonzero] at hzero
        exact hnonzero (decide_eq_true hzero)
    rw [hneg, if_pos rfl] at hbits
    rw [if_pos rfl, if_pos rfl, if_pos (by omega), hbits]
    simp only [signBit, lastWord] at *
    omega

end Binary64

namespace Key

open Binary64 (unsigned)

theorem ofNumber_eq (x : Binary64) : ofNumber x = .number x.unsigned.rank := by
  rw [ofNumber, unsigned]
  split <;> rfl

theorem number?_ofNumber (x : Binary64) : (ofNumber x).number? = some x.unsigned := by
  rw [ofNumber_eq, number?, Binary64.ofRank_rank]

theorem order_ofNumber {x y : Binary64} :
    (ofNumber x).order (ofNumber y) = .lt ↔ x.ordinal < y.ordinal := by
  have hx := x.toNat_rank_unsigned
  have hy := y.toNat_rank_unsigned
  rw [ofNumber_eq, ofNumber_eq, order, orderNat_eq_lt]
  split at hx <;> split at hy <;> omega

theorem ofNumber_eq_iff {x y : Binary64} : ofNumber x = ofNumber y ↔ x.ordinal = y.ordinal := by
  have hx := x.toNat_rank_unsigned
  have hy := y.toNat_rank_unsigned
  rw [ofNumber_eq, ofNumber_eq, number.injEq, ← UInt64.toNat_inj]
  split at hx <;> split at hy <;> omega

/-- Every two patterns that stand for a number, be it zero, subnormal or infinite, are read as
numbers.  The key of one is before that of the other exactly if its number is less, the keys are
equal exactly if the numbers are, and the pattern that is read off the key stands for the same
number. -/
theorem numbers_collate {x y : Binary64} (hx : x.isNaN = false) (hy : y.isNaN = false) :
    ∃ a b, x.reading? = some a ∧ y.reading? = some b ∧
      ((ofNumber x).order (ofNumber y) = .lt ↔ a < b) ∧
      (ofNumber x = ofNumber y ↔ a = b) ∧
      ∃ z, (ofNumber x).number? = some z ∧ z.reading? = some a := by
  have hread : ∀ {z : Binary64}, z.isNaN = false →
      z.reading? = some (Binary64.reading z.ordinal) := by
    intro z hz
    rw [Binary64.reading?_eq, hz]
    rfl
  have ha := hread hx
  have hb := hread hy
  refine ⟨_, _, ha, hb, ?_, ?_, x.unsigned, number?_ofNumber x, ?_⟩
  · rw [order_ofNumber, Binary64.reading_lt_iff ha hb]
  · rw [ofNumber_eq_iff, Binary64.reading_eq_iff ha hb]
  · rw [Binary64.reading?_unsigned, ha]

/-- The negative number nearest to zero, and the zero of negative sign: the last key of a negative
number is before that of both zeros. -/
theorem least_subnormal_collates : ∃ a b,
    (Binary64.mk 0x8000000000000001).reading? = some a ∧
      (Binary64.mk 0x8000000000000000).reading? = some b ∧
      ((ofNumber ⟨0x8000000000000001⟩).order (ofNumber ⟨0x8000000000000000⟩) = .lt ↔ a < b) ∧
      (ofNumber ⟨0x8000000000000001⟩ = ofNumber ⟨0x8000000000000000⟩ ↔ a = b) ∧
      ∃ z, (ofNumber ⟨0x8000000000000001⟩).number? = some z ∧ z.reading? = some a :=
  numbers_collate (by decide) (by decide)

end Key

end Viewbase
