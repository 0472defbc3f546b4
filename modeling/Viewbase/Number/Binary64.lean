/-!
64-bit binary floating point numbers, held as their bit patterns.

A pattern is a sign bit above a 63-bit magnitude pattern.  The magnitude patterns are numbered in
the order of the values they stand for, and every finite value is a whole number of units of
`2 ^ -1074`; so order, rounding and arithmetic are all stated on natural numbers.
-/

namespace Viewbase

/-- A 64-bit binary floating point number. -/
structure Binary64 where
  bits : UInt64
  deriving DecidableEq, Repr

namespace Binary64

/-- A power of two. -/
def twoTo (exponent : Nat) : Nat := Nat.pow 2 exponent

/-- A power of ten. -/
def tenTo (exponent : Nat) : Nat := Nat.pow 10 exponent

/-- The sign bit. -/
def signBit : Nat := 0x8000000000000000

/-- The largest 64-bit word. -/
def lastWord : Nat := 0xFFFFFFFFFFFFFFFF

/-- How many magnitude patterns share an exponent. -/
def fractions : Nat := 0x10000000000000

/-- The first magnitude pattern that is not finite. -/
def infinityPattern : Nat := 0x7FF0000000000000

/-- How many units make one. -/
def unitsPerOne : Nat := twoTo 1074

/-- The number with a given sign and magnitude pattern. -/
def ofMagnitude (negative : Bool) (magnitude : Nat) : Binary64 :=
  ⟨UInt64.ofNat (if negative then signBit + magnitude else magnitude)⟩

def negative (x : Binary64) : Bool :=
  decide (signBit ≤ x.bits.toNat)

def magnitude (x : Binary64) : Nat :=
  x.bits.toNat % signBit

def isFinite (x : Binary64) : Bool :=
  decide (x.magnitude < infinityPattern)

def isInfinite (x : Binary64) : Bool :=
  decide (x.magnitude = infinityPattern)

def isNaN (x : Binary64) : Bool :=
  decide (infinityPattern < x.magnitude)

def isZero (x : Binary64) : Bool :=
  decide (x.magnitude = 0)

def zero : Binary64 := ⟨0⟩

/-- A pattern that stands for no number. -/
def notANumber : Binary64 := ofMagnitude false 0x7FF8000000000000

def negate (x : Binary64) : Binary64 :=
  ofMagnitude (!x.negative) x.magnitude

/-! ## Values -/

/-- The value of a finite magnitude pattern, in units. -/
def patternUnits (magnitude : Nat) : Nat :=
  let exponent := magnitude / fractions
  let fraction := magnitude % fractions
  if exponent = 0 then fraction else (fractions + fraction) * twoTo (exponent - 1)

/-- The magnitude of a finite number, in units. -/
def units (x : Binary64) : Nat :=
  patternUnits x.magnitude

/-- The value of a finite number, in units. -/
def value (x : Binary64) : Int :=
  if x.negative then -(x.units : Int) else x.units

/-- Both zeros are one number, and a pattern that stands for no number equals nothing. -/
def sameNumber (x y : Binary64) : Bool :=
  !x.isNaN && !y.isNaN && (x.bits == y.bits || (x.isZero && y.isZero))

/-! ## Rounding -/

/-- The quotient rounded to the nearest natural number, a half going to the even neighbour. -/
def roundQuotient (num den : Nat) : Nat :=
  let quotient := num / den
  let twice := 2 * (num % den)
  if twice < den then quotient
  else if den < twice then quotient + 1
  else if quotient % 2 = 0 then quotient
  else quotient + 1

/-- The pattern nearest to `num / den` units, a tie going to the even pattern.

A pattern with exponent step `s` is `s * fractions` above its significand, so a significand that
rounds up to twice `fractions` lands on the first pattern of the next step by itself. -/
def nearestPattern (num den : Nat) : Nat :=
  let step := Nat.log2 (num / den) - 52
  let pattern := step * fractions + roundQuotient num (den * twoTo step)
  if pattern < infinityPattern then pattern else infinityPattern

/-- The number nearest to `num / den`. -/
def ofRatio (negative : Bool) (num den : Nat) : Binary64 :=
  ofMagnitude negative (nearestPattern (num * unitsPerOne) den)

/-- The number nearest to an integer. -/
def ofInt (i : Int) : Binary64 :=
  ofRatio (decide (i < 0)) i.natAbs 1

/-! ## Integers -/

/-- The number is finite and has no fractional part. -/
def isIntegral (x : Binary64) : Bool :=
  x.isFinite && x.units % unitsPerOne == 0

/-- The integer part of a finite number. -/
def truncate (x : Binary64) : Int :=
  if x.negative then -((x.units / unitsPerOne : Nat) : Int) else ((x.units / unitsPerOne : Nat) : Int)

/-! ## Arithmetic -/

/-- The sum, rounded to nearest.  A sum that is exactly zero is positive unless both terms are
negative zeros. -/
def add (x y : Binary64) : Binary64 :=
  if x.isNaN || y.isNaN then notANumber
  else if x.isInfinite then
    if y.isInfinite && x.negative != y.negative then notANumber else x
  else if y.isInfinite then y
  else
    let sum := x.value + y.value
    if sum = 0 then ofMagnitude (x.negative && y.negative) 0
    else ofMagnitude (decide (sum < 0)) (nearestPattern sum.natAbs 1)

/-- The product of two finite numbers, rounded to nearest. -/
def mul (x y : Binary64) : Binary64 :=
  ofMagnitude (x.negative != y.negative) (nearestPattern (x.units * y.units) unitsPerOne)

/-- The quotient of two finite numbers, rounded to nearest; the divisor is not zero. -/
def div (x y : Binary64) : Binary64 :=
  ofMagnitude (x.negative != y.negative) (nearestPattern (x.units * unitsPerOne) y.units)

/-! ## Rank -/

/-- An unsigned word that orders numbers as their values are ordered: negative numbers below all
others and in reverse. -/
def rank (x : Binary64) : UInt64 :=
  if x.negative then UInt64.ofNat (lastWord - x.bits.toNat)
  else UInt64.ofNat (signBit + x.bits.toNat)

/-- The number of a given rank. -/
def ofRank (rank : UInt64) : Binary64 :=
  if signBit ≤ rank.toNat then ⟨UInt64.ofNat (rank.toNat - signBit)⟩
  else ⟨UInt64.ofNat (lastWord - rank.toNat)⟩

theorem toNat_rank (x : Binary64) : x.rank.toNat =
    if x.negative then lastWord - x.bits.toNat else signBit + x.bits.toNat := by
  have hx := x.bits.toNat_lt
  by_cases h : signBit ≤ x.bits.toNat
  · simp only [rank, negative, h, decide_true, if_true, UInt64.toNat_ofNat']
    simp only [signBit, lastWord] at *
    omega
  · simp only [rank, negative, h, decide_false, Bool.false_eq_true, if_false, UInt64.toNat_ofNat']
    simp only [signBit] at *
    omega

/-- A rank belongs to one pattern. -/
theorem ofRank_rank (x : Binary64) : ofRank x.rank = x := by
  have hx := x.bits.toNat_lt
  have hr := x.toNat_rank
  by_cases h : signBit ≤ x.bits.toNat
  · simp only [negative, h, decide_true, if_true] at hr
    have hsmall : ¬ signBit ≤ x.rank.toNat := by
      simp only [signBit, lastWord] at *
      omega
    have hback : lastWord - x.rank.toNat = x.bits.toNat := by
      simp only [lastWord] at *
      omega
    rw [ofRank, if_neg hsmall, hback, UInt64.ofNat_toNat]
  · simp only [negative, h, decide_false, Bool.false_eq_true, if_false] at hr
    have hlarge : signBit ≤ x.rank.toNat := by omega
    have hback : x.rank.toNat - signBit = x.bits.toNat := by omega
    rw [ofRank, if_pos hlarge, hback, UInt64.ofNat_toNat]

end Binary64

end Viewbase
