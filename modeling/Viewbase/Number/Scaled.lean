import Viewbase.Number.Binary64

/-!
Reading a decimal as a binary number.

The significand is rounded to a number once and then multiplied or divided by a power of ten, with
one more rounding for each such step.  A result beyond the finite numbers is refused, and one too
small for them becomes zero.
-/

namespace Viewbase.Binary64

/-- The largest power of ten that is a finite number, as an exponent. -/
def largestTen : Nat := 308

/-- The number nearest to a power of ten. -/
def powerOfTen (exponent : Nat) : Binary64 :=
  ofRatio false (tenTo exponent) 1

/-- Divide by the largest power of ten until what is left of the exponent is in range. -/
def scaleDown (x : Binary64) (exponent : Nat) : Binary64 :=
  if exponent ≤ largestTen then div x (powerOfTen exponent)
  else if x.isZero then x
  else scaleDown (div x (powerOfTen largestTen)) (exponent - largestTen)
termination_by exponent
decreasing_by simp [largestTen] at *; omega

/-- The number `significand * 10 ^ exponent`, or `none` if it is beyond the finite numbers. -/
def scaled? (significand : Nat) (exponent : Int) : Option Binary64 :=
  let x := ofInt significand
  if exponent < 0 then some (scaleDown x exponent.natAbs)
  else if exponent.natAbs ≤ largestTen then
    let product := mul x (powerOfTen exponent.natAbs)
    if product.isFinite then some product else none
  else if x.isZero then some x
  else none

end Viewbase.Binary64
