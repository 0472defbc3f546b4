/-!
Hexadecimal digits: fixed-width writing in lower case, and reading in either case.
-/

namespace Viewbase.Text

/-- The lower-case hexadecimal digit of a number below sixteen. -/
def hexDigit (n : Nat) : Char :=
  if n < 10 then Char.ofNat (48 + n) else Char.ofNat (87 + n)

/-- The lowest `width` hexadecimal digits of a number. -/
def hexLow : Nat → Nat → List Char
  | 0, _ => []
  | width + 1, n => hexLow width (n / 16) ++ [hexDigit (n % 16)]

/-- The hexadecimal digits of a number, with leading zeros up to `width` places. -/
def hexPadded (width n : Nat) : List Char :=
  let digits := Nat.toDigits 16 n
  List.replicate (width - digits.length) '0' ++ digits

/-- The value of a hexadecimal digit of either case. -/
def hexValue? (c : Char) : Option Nat :=
  let n := c.toNat
  if 48 ≤ n ∧ n ≤ 57 then some (n - 48)
  else if 97 ≤ n ∧ n ≤ 102 then some (n - 87)
  else if 65 ≤ n ∧ n ≤ 70 then some (n - 55)
  else none

/-- The number written by a list of hexadecimal digits. -/
def hexNumber? : List Char → Option Nat :=
  List.foldl (fun total c => do some (16 * (← total) + (← hexValue? c))) (some 0)

end Viewbase.Text
