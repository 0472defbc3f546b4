import Viewbase.Proofs.Number.Reading

/-!
Whole numbers and rounding.

A finite pattern is its own nearest pattern (`nearestPattern_patternUnits`), so an integer that some
pattern stands for is rounded to that pattern (`ofInt_of_value`).  Integers of 64 bits are rounded to
finite patterns (`isFinite_ofInt`), and every finite pattern of magnitude `2 ^ 53` or more stands for
an integer (`isIntegral_of_le`).
-/

namespace Viewbase.Binary64

/-! ## Rounding -/

theorem roundQuotient_mul (n : Nat) {den : Nat} (h : 0 < den) :
    roundQuotient (n * den) den = n := by
  have hquotient : n * den / den = n := Nat.mul_div_cancel n h
  have hremainder : n * den % den = 0 := Nat.mul_mod_left n den
  simp only [roundQuotient, hquotient, hremainder, Nat.mul_zero, h, if_true]

theorem roundQuotient_le (num den : Nat) : roundQuotient num den ≤ num / den + 1 := by
  simp only [roundQuotient]
  split
  · omega
  split
  · omega
  split <;> omega

/-- The exponent step of a normal pattern. -/
theorem log2_significand (e : Nat) {f : Nat} (hf : f < fractions) :
    Nat.log2 ((fractions + f) * 2 ^ e) = e + 52 := by
  have hpos : 0 < (fractions + f) * 2 ^ e := Nat.mul_pos (by simp [fractions]) (Nat.two_pow_pos e)
  rw [Nat.log2_eq_iff (Nat.ne_of_gt hpos)]
  constructor
  · rw [Nat.pow_add, Nat.mul_comm]
    exact Nat.mul_le_mul_right _ (Nat.le_add_right fractions f)
  · rw [Nat.add_assoc, Nat.pow_add, Nat.mul_comm (2 ^ e)]
    refine Nat.mul_lt_mul_of_pos_right ?_ (Nat.two_pow_pos e)
    simp only [fractions] at *
    omega

/-- A finite pattern is nearest to what it stands for. -/
theorem nearestPattern_patternUnits {m : Nat} (h : m < infinityPattern) :
    nearestPattern (patternUnits m) 1 = m := by
  obtain ⟨e, f, hf, rfl⟩ := exists_exponent_fraction m
  rw [patternUnits_eq e hf, nearestPattern, Nat.div_one]
  cases e with
  | zero =>
    have hstep : Nat.log2 f - 52 = 0 := by
      rcases Nat.eq_zero_or_pos f with rfl | hpos
      · rfl
      · have hlog := (Nat.log2_lt (Nat.ne_of_gt hpos)).2 (show f < 2 ^ 52 from hf)
        omega
    have hround : roundQuotient f (1 * twoTo 0) = f := by
      simpa [twoTo] using roundQuotient_mul f Nat.one_pos
    simp only [if_true, hstep, hround, Nat.zero_mul, Nat.zero_add] at h ⊢
    exact if_pos h
  | succ e =>
    have hround : roundQuotient ((fractions + f) * 2 ^ e) (1 * twoTo e) = fractions + f := by
      rw [Nat.one_mul, twoTo_eq, roundQuotient_mul _ (Nat.two_pow_pos e)]
    have hpattern : e * fractions + (fractions + f) = (e + 1) * fractions + f := by
      rw [Nat.succ_mul, Nat.add_assoc]
    simp only [Nat.succ_ne_zero, if_false, Nat.add_sub_cancel, log2_significand e hf, hround,
      hpattern]
    exact if_pos h

/-- A number of few enough bits is rounded to a finite pattern. -/
theorem nearestPattern_lt {num bits : Nat} (h : num < 2 ^ 53 * twoTo bits) (hbits : bits < 2045) :
    nearestPattern num 1 < infinityPattern := by
  have hpattern : (Nat.log2 num - 52) * fractions +
      roundQuotient num (1 * twoTo (Nat.log2 num - 52)) < infinityPattern := by
    generalize hstep : Nat.log2 num - 52 = step
    have hle : step ≤ bits := by
      rcases Nat.eq_zero_or_pos num with rfl | hpos
      · rw [← hstep, Nat.log2_zero]
        exact Nat.zero_le bits
      · rw [twoTo_eq, ← Nat.pow_add] at h
        have hlog := (Nat.log2_lt (Nat.ne_of_gt hpos)).2 h
        omega
    have hfew : num < 2 ^ 53 * 2 ^ step := by
      rw [← Nat.pow_add]
      exact Nat.lt_of_lt_of_le Nat.lt_log2_self (Nat.pow_le_pow_right (by decide) (by omega))
    have hquotient := Nat.div_lt_of_lt_mul (Nat.mul_comm (2 ^ 53) _ ▸ hfew)
    have hround := roundQuotient_le num (2 ^ step)
    rw [Nat.one_mul, twoTo_eq]
    simp only [fractions, infinityPattern]
    omega
  rw [nearestPattern, Nat.div_one, if_pos hpattern]
  exact hpattern

/-! ## Integers -/

theorem isFinite_iff {x : Binary64} : x.isFinite = true ↔ x.magnitude < infinityPattern :=
  decide_eq_true_iff

/-- An integer of 64 bits is rounded to a finite pattern. -/
theorem isFinite_ofInt {i : Int} (h : i.natAbs ≤ 2 ^ 64) : (ofInt i).isFinite = true := by
  have hfew : i.natAbs * unitsPerOne < 2 ^ 53 * twoTo (12 + 1074) := by
    rw [twoTo_add, ← Nat.mul_assoc, unitsPerOne]
    refine Nat.mul_lt_mul_of_pos_right ?_ (twoTo_pos 1074)
    rw [twoTo_eq]
    omega
  have hpattern := nearestPattern_lt hfew (by decide)
  have hlt : infinityPattern < signBit := by decide
  rw [isFinite_iff, ofInt, ofRatio, magnitude_ofMagnitude _ (by omega)]
  exact hpattern

theorem units_of_value {x : Binary64} {i : Int} (h : x.value = i * unitsPerOne) :
    x.units = i.natAbs * unitsPerOne := by
  have hsize := congrArg Int.natAbs h
  rw [Int.natAbs_mul, Int.natAbs_natCast, value] at hsize
  rw [← hsize]
  split <;> omega

theorem negative_of_value {x : Binary64} {i : Int} (h : x.value = i * unitsPerOne) (hi : i ≠ 0) :
    x.negative = decide (i < 0) := by
  have hpos : (0 : Int) < unitsPerOne := Int.natCast_pos.2 unitsPerOne_pos
  rw [value] at h
  cases hneg : x.negative with
  | false =>
    rw [hneg, if_neg (by decide)] at h
    refine (decide_eq_false fun hlt => ?_).symm
    have hproduct := Int.mul_neg_of_neg_of_pos hlt hpos
    omega
  | true =>
    rw [hneg, if_pos rfl] at h
    refine (decide_eq_true (Int.lt_of_not_ge fun hge => ?_)).symm
    have hproduct := Int.mul_pos (show 0 < i by omega) hpos
    omega

/-- An integer that a pattern stands for is rounded to that pattern. -/
theorem ofInt_of_value {x : Binary64} (hx : x.isFinite = true) {i : Int}
    (h : x.value = i * unitsPerOne) : ofInt i = x.unsigned := by
  have hunits := units_of_value h
  rcases eq_or_ne i 0 with rfl | hne
  · have hzero : x.isZero = true := by
      rw [Int.natAbs_zero, Nat.zero_mul] at hunits
      exact decide_eq_true (patternUnits_eq_zero.1 hunits)
    rw [unsigned, if_pos hzero, ofInt, ofRatio, Int.natAbs_zero, Nat.zero_mul]
    rfl
  · have hnonzero : ¬x.isZero = true := by
      intro hzero
      have hnone : x.units = 0 := patternUnits_eq_zero.2 (of_decide_eq_true hzero)
      rw [hnone, eq_comm, Nat.mul_eq_zero] at hunits
      have hpos := unitsPerOne_pos
      omega
    rw [unsigned, if_neg hnonzero, ofInt, ofRatio, ← negative_of_value h hne, ← hunits, units,
      nearestPattern_patternUnits (isFinite_iff.1 hx), ofMagnitude_magnitude]

/-- A pattern that stands for an integer is cut to that integer. -/
theorem truncate_of_value {x : Binary64} {i : Int} (h : x.value = i * unitsPerOne) :
    x.truncate = i := by
  have hcut : x.units / unitsPerOne = i.natAbs := by
    rw [units_of_value h, Nat.mul_div_cancel _ unitsPerOne_pos]
  rw [truncate, hcut]
  rcases eq_or_ne i 0 with rfl | hne
  · simp
  · rw [negative_of_value h hne]
    simp only [decide_eq_true_eq]
    split <;> omega

theorem isIntegral_of_value {x : Binary64} (hx : x.isFinite = true) {i : Int}
    (h : x.value = i * unitsPerOne) : x.isIntegral = true := by
  rw [isIntegral, hx, units_of_value h, Nat.mul_mod_left]
  rfl

/-- A pattern that is read as an integer stands for it. -/
theorem value_of_reading?_intCast {x : Binary64} {i : Int}
    (h : x.reading? = some ((i : ℚ) : ExtendedRat)) :
    x.isFinite = true ∧ x.value = i * unitsPerOne := by
  obtain ⟨hfinite, hvalue⟩ := value_of_reading? h
  exact ⟨hfinite, mod_cast hvalue⟩

theorem isFinite_of_isIntegral {x : Binary64} (h : x.isIntegral = true) : x.isFinite = true :=
  (Bool.and_eq_true_iff.1 h).1

/-- A pattern without fractional part stands for the integer that it is cut to. -/
theorem value_of_isIntegral {x : Binary64} (h : x.isIntegral = true) :
    x.value = x.truncate * unitsPerOne := by
  have hmultiple : unitsPerOne ∣ x.units :=
    Nat.dvd_of_mod_eq_zero (eq_of_beq (Bool.and_eq_true_iff.1 h).2)
  have hunits : ((x.units / unitsPerOne : Nat) : Int) * unitsPerOne = x.units := by
    rw [← Int.natCast_mul, Nat.div_mul_cancel hmultiple]
  rw [value, truncate]
  split
  · rw [Int.neg_mul, hunits]
  · rw [hunits]

/-- A pattern without fractional part is read as that integer. -/
theorem reading?_of_isIntegral {x : Binary64} (h : x.isIntegral = true) :
    x.reading? = some (((x.truncate : Int) : ℚ) : ExtendedRat) := by
  have hunits : (unitsPerOne : ℚ) ≠ 0 := Nat.cast_ne_zero.2 (Nat.ne_of_gt unitsPerOne_pos)
  rw [reading?_of_isFinite (isFinite_of_isIntegral h), value_of_isIntegral h, Int.cast_mul,
    Int.cast_natCast, mul_div_cancel_right₀ _ hunits]

/-- A finite pattern of magnitude `2 ^ 53` or more has no fractional part. -/
theorem isIntegral_of_le {x : Binary64} (hx : x.isFinite = true)
    (h : 2 ^ 53 * unitsPerOne ≤ x.units) : x.isIntegral = true := by
  have hmultiple : unitsPerOne ∣ x.units := by
    rw [units] at h ⊢
    obtain ⟨e, f, hf, hm⟩ := exists_exponent_fraction x.magnitude
    rw [hm, patternUnits_eq e hf, ← twoTo_eq (e - 1)] at h ⊢
    have hsignificand : fractions + f < 2 ^ 53 := by
      simp only [fractions] at *
      omega
    split at h
    · have hpos := unitsPerOne_pos
      omega
    next hne =>
      have hlarge : 1074 ≤ e - 1 := by
        refine Nat.le_of_not_lt fun hsmall => ?_
        have hless := Nat.mul_lt_mul'' hsignificand (twoTo_lt hsmall)
        rw [unitsPerOne] at h
        omega
      rw [if_neg hne, unitsPerOne]
      exact Dvd.dvd.mul_left (twoTo_dvd hlarge) _
  rw [isIntegral, hx, Nat.mod_eq_zero_of_dvd hmultiple]
  rfl

end Viewbase.Binary64
