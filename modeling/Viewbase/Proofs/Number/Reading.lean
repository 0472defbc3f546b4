import Mathlib.Algebra.Order.Field.Power
import Mathlib.Algebra.Order.Field.Rat
import Mathlib.Data.Int.ConditionallyCompleteOrder
import Mathlib.Order.Interval.Set.Basic
import Mathlib.Order.WithBotTop
import Mathlib.Tactic.FieldSimp
import Mathlib.Tactic.Positivity
import Mathlib.Tactic.Ring
import Viewbase.Number.Binary64

/-!
Patterns read as numbers.

A pattern is read as IEEE 754 says, from its sign, its exponent and its trailing significand
(`reading?`).  The patterns that stand for a number are numbered from the lower infinity to the
upper one (`ordinal`); the two zeros have one number.  Main statement: patterns are read in the order
in which they are numbered, and those of one number alike (`reading_lt_iff`, `reading_eq_iff`).
-/

namespace Viewbase

/-- The rational numbers and the two infinities. -/
abbrev ExtendedRat := WithBotTop ℚ

theorem ExtendedRat.coe_inj {p q : ℚ} : (p : ExtendedRat) = (q : ExtendedRat) ↔ p = q :=
  WithBotTop.coe_injective.eq_iff

namespace Binary64

/-- The 11 bits behind the sign. -/
def biasedExponent (x : Binary64) : Nat :=
  x.bits.toNat / 2 ^ 52 % 2 ^ 11

/-- The 52 lowest bits. -/
def trailing (x : Binary64) : Nat :=
  x.bits.toNat % 2 ^ 52

/-- What a pattern stands for.  The leading bit of a significand is left out, and it is 0 if the
exponent is the least one. -/
def reading? (x : Binary64) : Option ExtendedRat :=
  let sign : ℚ := if x.negative then -1 else 1
  if x.biasedExponent = 0x7FF then
    if x.trailing = 0 then some (if x.negative then ⊥ else ⊤) else none
  else if x.biasedExponent = 0 then
    some ((sign * x.trailing * 2 ^ (-1074 : ℤ) : ℚ) : ExtendedRat)
  else
    some ((sign * (2 ^ 52 + x.trailing) * 2 ^ ((x.biasedExponent : ℤ) - 1075) : ℚ) : ExtendedRat)

/-! ## Parts of a pattern -/

theorem twoTo_eq (exponent : Nat) : twoTo exponent = 2 ^ exponent :=
  rfl

theorem twoTo_add (m n : Nat) : twoTo (m + n) = twoTo m * twoTo n :=
  Nat.pow_add 2 m n

theorem twoTo_lt {m n : Nat} (h : m < n) : twoTo m < twoTo n :=
  Nat.pow_lt_pow_right (by decide) h

theorem twoTo_dvd {m n : Nat} (h : m ≤ n) : twoTo m ∣ twoTo n :=
  Nat.pow_dvd_pow 2 h

theorem twoTo_pos (exponent : Nat) : 0 < twoTo exponent :=
  Nat.two_pow_pos exponent

theorem unitsPerOne_pos : 0 < unitsPerOne :=
  twoTo_pos 1074

theorem biasedExponent_eq (x : Binary64) : x.biasedExponent = x.magnitude / fractions := by
  simp only [biasedExponent, magnitude, signBit, fractions]
  omega

theorem trailing_eq (x : Binary64) : x.trailing = x.magnitude % fractions := by
  simp only [trailing, magnitude, signBit, fractions]
  omega

theorem magnitude_lt (x : Binary64) : x.magnitude < signBit :=
  Nat.mod_lt _ (by decide)

theorem toNat_bits (x : Binary64) :
    x.bits.toNat = (if x.negative then signBit else 0) + x.magnitude := by
  have hx := x.bits.toNat_lt
  by_cases h : signBit ≤ x.bits.toNat
  · rw [negative, decide_eq_true h, if_pos rfl, magnitude]
    simp only [signBit] at *
    omega
  · rw [negative, decide_eq_false h, if_neg (by decide), magnitude, Nat.mod_eq_of_lt (by omega),
      Nat.zero_add]

/-- A pattern is its sign and its magnitude. -/
theorem ofMagnitude_magnitude (x : Binary64) : ofMagnitude x.negative x.magnitude = x := by
  have hbits := x.toNat_bits
  have hlt := x.bits.toNat_lt
  cases hneg : x.negative with
  | false =>
    rw [hneg, if_neg (by decide), Nat.zero_add] at hbits
    rw [ofMagnitude, if_neg (by decide), ← hbits, UInt64.ofNat_toNat]
  | true =>
    rw [hneg, if_pos rfl] at hbits
    rw [ofMagnitude, if_pos rfl, ← hbits, UInt64.ofNat_toNat]

theorem magnitude_ofMagnitude (sign : Bool) {m : Nat} (h : m < signBit) :
    (ofMagnitude sign m).magnitude = m := by
  cases sign <;> simp [magnitude, ofMagnitude, signBit] at h ⊢ <;> omega

/-! ## Units -/

theorem patternUnits_eq (e : Nat) {f : Nat} (hf : f < fractions) :
    patternUnits (e * fractions + f) = if e = 0 then f else (fractions + f) * 2 ^ (e - 1) := by
  have hpos : 0 < fractions := by decide
  have hdiv : (e * fractions + f) / fractions = e := by
    rw [Nat.mul_comm, Nat.mul_add_div hpos, Nat.div_eq_of_lt hf, Nat.add_zero]
  have hmod : (e * fractions + f) % fractions = f := by
    rw [Nat.mul_comm, Nat.mul_add_mod, Nat.mod_eq_of_lt hf]
  rw [patternUnits, hdiv, hmod, twoTo_eq]

/-- A magnitude pattern is an exponent and a fraction. -/
theorem exists_exponent_fraction (m : Nat) :
    ∃ e f, f < fractions ∧ m = e * fractions + f :=
  ⟨m / fractions, m % fractions, Nat.mod_lt _ (by decide), by rw [Nat.mul_comm, Nat.div_add_mod]⟩

/-- Each magnitude pattern stands for more than the one before it, also where the exponent changes
in between. -/
theorem patternUnits_lt_succ (m : Nat) : patternUnits m < patternUnits (m + 1) := by
  obtain ⟨e, f, hf, rfl⟩ := exists_exponent_fraction m
  rw [patternUnits_eq e hf]
  by_cases hlast : f + 1 < fractions
  · rw [Nat.add_assoc, patternUnits_eq e hlast]
    split
    · exact Nat.lt_succ_self f
    · exact Nat.mul_lt_mul_of_pos_right (by omega) (Nat.two_pow_pos _)
  · have hnext : e * fractions + f + 1 = (e + 1) * fractions + 0 := by
      rw [Nat.succ_mul]
      omega
    rw [hnext, patternUnits_eq (e + 1) (by decide), if_neg (Nat.succ_ne_zero e), Nat.add_zero,
      Nat.add_sub_cancel]
    cases e with
    | zero => simpa using hf
    | succ e =>
      rw [if_neg (Nat.succ_ne_zero e), Nat.add_sub_cancel, Nat.pow_succ, Nat.mul_comm (2 ^ e),
        ← Nat.mul_assoc]
      exact Nat.mul_lt_mul_of_pos_right (by omega) (Nat.two_pow_pos e)

theorem patternUnits_strictMono : StrictMono patternUnits :=
  strictMono_nat_of_lt_succ patternUnits_lt_succ

theorem patternUnits_zero : patternUnits 0 = 0 :=
  rfl

theorem patternUnits_eq_zero {m : Nat} : patternUnits m = 0 ↔ m = 0 :=
  ⟨fun h => patternUnits_strictMono.injective (h.trans patternUnits_zero.symm),
    fun h => h ▸ patternUnits_zero⟩

/-! ## The numbering of patterns -/

/-- The number of a pattern, counted from the zeros. -/
def ordinal (x : Binary64) : Int :=
  if x.negative then -(x.magnitude : Int) else x.magnitude

/-- What the finite patterns of a number stand for, in units. -/
def signedUnits (ordinal : Int) : Int :=
  ordinal.sign * patternUnits ordinal.natAbs

theorem natAbs_ordinal (x : Binary64) : x.ordinal.natAbs = x.magnitude := by
  rw [ordinal]
  split <;> omega

theorem value_eq_signedUnits (x : Binary64) : x.value = signedUnits x.ordinal := by
  rw [signedUnits, natAbs_ordinal, value, units, ordinal]
  rcases Nat.eq_zero_or_pos x.magnitude with h | h
  · simp [h, patternUnits_zero]
  · split
    · rw [Int.sign_eq_neg_one_of_neg (by omega)]
      omega
    · rw [Int.sign_eq_one_of_pos (by omega)]
      omega

theorem signedUnits_strictMono : StrictMono signedUnits := by
  intro a b hab
  have hgrows : ∀ {m n : Nat}, m < n → (patternUnits m : Int) < patternUnits n := fun h =>
    Int.ofNat_lt.2 (patternUnits_strictMono h)
  have hpos : ∀ {m : Nat}, m ≠ 0 → (0 : Int) < patternUnits m := fun {m} h => by
    have hne := mt patternUnits_eq_zero.1 h
    omega
  rw [signedUnits, signedUnits]
  rcases Int.lt_trichotomy a 0 with ha | rfl | ha
  · have hleft := hpos (Int.natAbs_ne_zero.2 (Int.ne_of_lt ha))
    rw [Int.sign_eq_neg_one_of_neg ha]
    rcases Int.lt_trichotomy b 0 with hb | rfl | hb
    · have hfarther : b.natAbs < a.natAbs := by omega
      have hlt := hgrows hfarther
      rw [Int.sign_eq_neg_one_of_neg hb]
      omega
    · rw [Int.sign_zero]
      omega
    · rw [Int.sign_eq_one_of_pos hb]
      omega
  · rw [Int.sign_zero, Int.sign_eq_one_of_pos hab, Int.zero_mul, Int.one_mul]
    exact hpos (by omega)
  · have hlt : (patternUnits a.natAbs : Int) < patternUnits b.natAbs := hgrows (by omega)
    rw [Int.sign_eq_one_of_pos ha, Int.sign_eq_one_of_pos (by omega)]
    omega

/-- What the patterns of a number stand for. -/
def reading (ordinal : Int) : ExtendedRat :=
  if ordinal ≤ -infinityPattern then ⊥
  else if infinityPattern ≤ ordinal then ⊤
  else ((signedUnits ordinal / unitsPerOne : ℚ) : ExtendedRat)

theorem zpow_natCast_sub (m n : Nat) : (2 : ℚ) ^ ((m : ℤ) - n) = 2 ^ m / twoTo n := by
  rw [zpow_sub₀ two_ne_zero, zpow_natCast, zpow_natCast, twoTo_eq, Nat.cast_pow, Nat.cast_ofNat]

theorem reading?_of_isFinite {x : Binary64} (h : x.isFinite = true) :
    x.reading? = some ((x.value / unitsPerOne : ℚ) : ExtendedRat) := by
  have hexponent : x.biasedExponent ≠ 0x7FF := by
    have hmagnitude : x.magnitude < infinityPattern := of_decide_eq_true h
    rw [biasedExponent_eq]
    simp only [infinityPattern, fractions] at *
    omega
  have hunits : x.units = if x.biasedExponent = 0 then x.trailing
      else (2 ^ 52 + x.trailing) * 2 ^ (x.biasedExponent - 1) := by
    rw [biasedExponent_eq, trailing_eq]
    rfl
  have hsign : (x.value : ℚ) = (if x.negative then -1 else 1) * x.units := by
    rw [value]
    cases x.negative <;> simp
  rw [reading?, if_neg hexponent, hsign, hunits]
  split
  · have hscale : (2 : ℚ) ^ (-1074 : ℤ) = 1 / unitsPerOne := by
      rw [← pow_zero 2]
      exact zpow_natCast_sub 0 1074
    rw [hscale, mul_one_div]
  next hnormal =>
    obtain ⟨e, he⟩ := Nat.exists_eq_succ_of_ne_zero hnormal
    have hscale : (2 : ℚ) ^ ((e.succ : ℤ) - 1075) = 2 ^ e / unitsPerOne := by
      have hexponent : (e.succ : ℤ) - 1075 = (e : ℤ) - (1074 : ℕ) := by
        omega
      rw [hexponent]
      exact zpow_natCast_sub e 1074
    rw [he, hscale, Nat.succ_sub_one, Nat.cast_mul, Nat.cast_add, Nat.cast_pow, Nat.cast_pow,
      Nat.cast_ofNat, mul_div_assoc', mul_assoc]

/-- The patterns that stand for a number are read by their number. -/
theorem reading?_eq (x : Binary64) :
    x.reading? = if x.isNaN then none else some (reading x.ordinal) := by
  have hordinal := x.natAbs_ordinal
  rcases Nat.lt_trichotomy x.magnitude infinityPattern with hfinite | hinfinite | hnan
  · have hread := reading?_of_isFinite (x := x) (decide_eq_true hfinite)
    have hnumber : ¬infinityPattern < x.magnitude := by omega
    have hnan : x.isNaN = false := decide_eq_false hnumber
    rw [hread, hnan, if_neg (by decide), reading, if_neg (by omega), if_neg (by omega),
      value_eq_signedUnits]
  · have hexponent : x.biasedExponent = 0x7FF := by
      rw [biasedExponent_eq, hinfinite]
      rfl
    have htrailing : x.trailing = 0 := by
      rw [trailing_eq, hinfinite]
      rfl
    have hnumber : ¬infinityPattern < x.magnitude := by omega
    have hnan : x.isNaN = false := decide_eq_false hnumber
    rw [reading?, if_pos hexponent, if_pos htrailing, hnan, ordinal, hinfinite]
    cases x.negative with
    | false => rfl
    | true => rfl
  · have hlt := x.magnitude_lt
    have hexponent : x.biasedExponent = 0x7FF := by
      rw [biasedExponent_eq]
      simp only [infinityPattern, fractions, signBit] at *
      omega
    have htrailing : x.trailing ≠ 0 := by
      rw [trailing_eq]
      simp only [infinityPattern, fractions, signBit] at *
      omega
    have hnan : x.isNaN = true := decide_eq_true hnan
    rw [reading?, if_pos hexponent, if_neg htrailing, hnan, if_pos rfl]

/-! ## The order of readings -/

/-- From infinity to infinity, later patterns stand for more. -/
theorem reading_strictMonoOn :
    StrictMonoOn reading (Set.Icc (-infinityPattern : Int) infinityPattern) := by
  intro a ha b hb hab
  have hunits : (0 : ℚ) < unitsPerOne := Nat.cast_pos.2 unitsPerOne_pos
  obtain ⟨halow, -⟩ := ha
  obtain ⟨-, hbhigh⟩ := hb
  by_cases hlow : a ≤ -infinityPattern
  · have hbpast : ¬b ≤ -infinityPattern := by omega
    rw [reading, if_pos hlow, reading, if_neg hbpast]
    refine bot_lt_iff_ne_bot.2 ?_
    split
    · exact WithBotTop.top_ne_bot
    · exact WithBotTop.coe_ne_bot _
  · have hahigh : ¬(infinityPattern : Int) ≤ a := by omega
    have hblow : ¬b ≤ -infinityPattern := by omega
    rw [reading, if_neg hlow, if_neg hahigh, reading, if_neg hblow]
    split
    · exact lt_top_iff_ne_top.2 (WithBotTop.coe_ne_top _)
    · refine WithBotTop.coe_lt_coe.2 ?_
      exact div_lt_div_of_pos_right (Int.cast_lt.2 (signedUnits_strictMono hab)) hunits

theorem ordinal_mem_Icc {x : Binary64} (h : x.isNaN = false) :
    x.ordinal ∈ Set.Icc (-infinityPattern : Int) infinityPattern := by
  have hordinal := x.natAbs_ordinal
  have hmagnitude : ¬infinityPattern < x.magnitude := of_decide_eq_false h
  constructor <;> omega

variable {x y : Binary64} {a b : ExtendedRat}

theorem isNaN_of_reading? (h : x.reading? = some a) :
    x.isNaN = false ∧ a = reading x.ordinal := by
  rw [reading?_eq] at h
  cases hnan : x.isNaN with
  | true => simp [hnan] at h
  | false =>
    rw [hnan, if_neg (by decide)] at h
    exact ⟨rfl, (Option.some.inj h).symm⟩

/-- A pattern that stands for a rational number is finite. -/
theorem value_of_reading? {q : ℚ} (h : x.reading? = some (q : ExtendedRat)) :
    x.isFinite = true ∧ (x.value : ℚ) = q * unitsPerOne := by
  obtain ⟨-, hq⟩ := isNaN_of_reading? h
  have hordinal := x.natAbs_ordinal
  rw [reading] at hq
  split at hq
  · exact absurd hq (WithBotTop.coe_ne_bot q)
  split at hq
  · exact absurd hq (WithBotTop.coe_ne_top q)
  · have hunits : (unitsPerOne : ℚ) ≠ 0 := Nat.cast_ne_zero.2 (Nat.ne_of_gt unitsPerOne_pos)
    have hvalue : q = signedUnits x.ordinal / unitsPerOne := ExtendedRat.coe_inj.1 hq
    rw [hvalue, div_mul_cancel₀ _ hunits, value_eq_signedUnits]
    exact ⟨decide_eq_true (by omega), rfl⟩

theorem reading_lt_iff (hx : x.reading? = some a) (hy : y.reading? = some b) :
    a < b ↔ x.ordinal < y.ordinal := by
  obtain ⟨hxnumber, rfl⟩ := isNaN_of_reading? hx
  obtain ⟨hynumber, rfl⟩ := isNaN_of_reading? hy
  exact reading_strictMonoOn.lt_iff_lt (ordinal_mem_Icc hxnumber) (ordinal_mem_Icc hynumber)

theorem reading_eq_iff (hx : x.reading? = some a) (hy : y.reading? = some b) :
    a = b ↔ x.ordinal = y.ordinal := by
  obtain ⟨hxnumber, rfl⟩ := isNaN_of_reading? hx
  obtain ⟨hynumber, rfl⟩ := isNaN_of_reading? hy
  exact reading_strictMonoOn.injOn.eq_iff (ordinal_mem_Icc hxnumber) (ordinal_mem_Icc hynumber)

/-! ## The zeros -/

/-- The pattern, with a zero of either sign made positive. -/
def unsigned (x : Binary64) : Binary64 :=
  if x.isZero then zero else x

theorem isZero_iff {x : Binary64} : x.isZero = true ↔ x.ordinal = 0 := by
  rw [isZero, decide_eq_true_iff, ← natAbs_ordinal, Int.natAbs_eq_zero]

theorem ordinal_unsigned (x : Binary64) : x.unsigned.ordinal = x.ordinal := by
  rw [unsigned]
  split
  next hzero =>
    rw [isZero_iff.1 hzero]
    rfl
  next => rfl

theorem isNaN_unsigned (x : Binary64) : x.unsigned.isNaN = x.isNaN := by
  rw [isNaN, isNaN, ← natAbs_ordinal, ← natAbs_ordinal, ordinal_unsigned]

/-- A zero is read as zero whatever its sign is. -/
theorem reading?_unsigned (x : Binary64) : x.unsigned.reading? = x.reading? := by
  rw [reading?_eq, reading?_eq, isNaN_unsigned, ordinal_unsigned]

theorem value_unsigned (x : Binary64) : x.unsigned.value = x.value := by
  rw [value_eq_signedUnits, value_eq_signedUnits, ordinal_unsigned]

theorem isFinite_unsigned (x : Binary64) : x.unsigned.isFinite = x.isFinite := by
  rw [isFinite, isFinite, ← natAbs_ordinal, ← natAbs_ordinal, ordinal_unsigned]

end Binary64

end Viewbase
