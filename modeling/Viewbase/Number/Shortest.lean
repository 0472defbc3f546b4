import Viewbase.Number.Binary64

/-!
The shortest decimal that reads back to a given number.

The reals that round to a finite pattern form an interval between two midpoints, ends included
exactly when the pattern is even.  On the decimal grids of 1, 2, ..., 17 digits the two neighbours
of the number are tried in turn: the first grid with a neighbour inside the interval wins, and of
two neighbours inside it the nearer one.
-/

namespace Viewbase

/-- The decimal number `digits * 10 ^ exponent`. -/
structure Decimal where
  digits : Nat
  exponent : Int
  deriving DecidableEq, Repr

namespace Decimal

/-- Decimal digits of a natural number, most significant first. -/
def digitChars (n : Nat) : List Char :=
  Nat.toDigits 10 n

/-- Move trailing zeros of the digits into the exponent, at most `fuel` of them. -/
def strip : Nat → Decimal → Decimal
  | 0, d => d
  | fuel + 1, d =>
    if d.digits = 0 then d
    else if d.digits % 10 = 0 then strip fuel ⟨d.digits / 10, d.exponent + 1⟩
    else d

/-- The exponent of the leading decimal digit of a positive number of units. -/
def leadingExponent (units : Nat) : Int :=
  ((digitChars (units * Binary64.tenTo 324 / Binary64.unitsPerOne)).length : Int) - 325

/-- The real numbers that round to one pattern, in half units. -/
structure Basin where
  low : Nat
  high : Nat
  closed : Bool

/-- The basin of a positive finite pattern. -/
def basin (magnitude : Nat) : Basin where
  low := Binary64.patternUnits (magnitude - 1) + Binary64.patternUnits magnitude
  high := Binary64.patternUnits magnitude + Binary64.patternUnits (magnitude + 1)
  closed := magnitude % 2 == 0

/-- Whether the number of half units `num / den` lies in the basin. -/
def Basin.holds (b : Basin) (num den : Nat) : Bool :=
  if b.closed then decide (b.low * den ≤ num) && decide (num ≤ b.high * den)
  else decide (b.low * den < num) && decide (num < b.high * den)

/-- The neighbour of a pattern on the grid `10 ^ exponent` that lies in its basin, the nearer of
two, and of two equally near ones the even one. -/
def onGrid? (magnitude : Nat) (exponent : Int) : Option Nat :=
  let up := Binary64.tenTo (-exponent).toNat
  let den := Binary64.unitsPerOne * Binary64.tenTo exponent.toNat
  let num := Binary64.patternUnits magnitude * up
  let below := num / den
  let inside := fun candidate => (basin magnitude).holds (2 * candidate * den) up
  match inside below, inside (below + 1) with
  | true, true => some (Binary64.roundQuotient num den)
  | true, false => some below
  | false, true => some (below + 1)
  | false, false => none

/-- The first grid, from `count` digits up, with a neighbour of the pattern in its basin. -/
def firstGrid (magnitude : Nat) (leading : Int) : Nat → Nat → Decimal
  | _, 0 => ⟨0, 0⟩
  | count, fuel + 1 =>
    let exponent := leading - count + 1
    match onGrid? magnitude exponent with
    | some digits => ⟨digits, exponent⟩
    | none => firstGrid magnitude leading (count + 1) fuel

/-- The shortest decimal that reads back to a finite magnitude pattern. -/
def shortest (magnitude : Nat) : Decimal :=
  if magnitude = 0 then ⟨0, 0⟩
  else strip 20 (firstGrid magnitude (leadingExponent (Binary64.patternUnits magnitude)) 1 17)

/-! ## Layout -/

/-- How a decimal is written: exponents of the leading digit from `lowest` up to, and not
including, `limit` are written with a point and no exponent. -/
structure Layout where
  lowest : Int
  limit : Int
  mark : List Char
  plus : List Char

/-- Digits with a point after the leading digit's place; at least one digit on either side. -/
def positional (digits : List Char) (leading : Int) : List Char :=
  if leading < 0 then
    '0' :: '.' :: List.replicate (-leading - 1).toNat '0' ++ digits
  else
    let whole := leading.toNat + 1
    if digits.length ≤ whole then
      digits ++ List.replicate (whole - digits.length) '0' ++ ['.', '0']
    else
      digits.take whole ++ '.' :: digits.drop whole

/-- One digit, a point and the rest if there are more, and the exponent. -/
def scientific (layout : Layout) (digits : List Char) (leading : Int) : List Char :=
  let fraction := match digits.drop 1 with
    | [] => []
    | rest => '.' :: rest
  let sign := if leading < 0 then ['-'] else layout.plus
  digits.take 1 ++ fraction ++ layout.mark ++ sign ++ digitChars leading.natAbs

def write (layout : Layout) (d : Decimal) : List Char :=
  let digits := digitChars d.digits
  let leading := d.exponent + digits.length - 1
  if layout.lowest ≤ leading ∧ leading < layout.limit then positional digits leading
  else scientific layout digits leading

end Decimal

end Viewbase
