import Mathlib.Data.Nat.Digits.Defs
import Viewbase.Text.Hex

/-!
Hexadecimal digits that are written and read back.

Main statements: the number that digits were written for is read from them, whether they are of a
fixed width (`hexNumber?_hexLow`) or only filled up to it (`hexNumber?_hexPadded`).
-/

namespace Viewbase.Text

theorem hexValue?_hexDigit {n : Nat} (h : n < 16) : hexValue? (hexDigit n) = some n := by
  have hall : ∀ n : Fin 16, hexValue? (hexDigit n) = some n.val := by decide
  exact hall ⟨n, h⟩

theorem hexValue?_digitChar {n : Nat} (h : n < 16) : hexValue? n.digitChar = some n := by
  have hall : ∀ n : Fin 16, hexValue? n.val.digitChar = some n.val := by decide
  exact hall ⟨n, h⟩

/-- One more digit at the end. -/
theorem hexNumber?_concat {digits : List Char} {c : Char} {high low : Nat}
    (hdigits : hexNumber? digits = some high) (hc : hexValue? c = some low) :
    hexNumber? (digits ++ [c]) = some (16 * high + low) := by
  rw [hexNumber?] at hdigits ⊢
  rw [List.foldl_append, hdigits, List.foldl_cons, List.foldl_nil, hc]
  rfl

/-- A number that fits the width is read from its digits. -/
theorem hexNumber?_hexLow {width n : Nat} (h : n < 16 ^ width) :
    hexNumber? (hexLow width n) = some n := by
  induction width generalizing n with
  | zero =>
    rw [Nat.pow_zero, Nat.lt_one_iff] at h
    rw [h]
    rfl
  | succ width ih =>
    have hhigh : n / 16 < 16 ^ width := by
      rw [Nat.pow_succ] at h
      omega
    rw [hexLow, hexNumber?_concat (ih hhigh) (hexValue?_hexDigit (Nat.mod_lt n (by omega)))]
    congr 1
    omega

theorem mem_hexLow {width n : Nat} {c : Char} (h : c ∈ hexLow width n) :
    ∃ d < 16, c = hexDigit d := by
  induction width generalizing n with
  | zero => cases h
  | succ width ih =>
    rcases List.mem_append.1 h with hhigh | hlow
    · exact ih hhigh
    · exact ⟨n % 16, Nat.mod_lt n (by omega), List.mem_singleton.1 hlow⟩

theorem hexNumber?_toDigits (n : Nat) : hexNumber? (Nat.toDigits 16 n) = some n := by
  induction n using Nat.strong_induction_on with
  | _ n ih =>
    by_cases hn : n < 16
    · rw [Nat.toDigits_of_lt_base hn]
      have hnothing : hexNumber? [] = some 0 := rfl
      have hread := hexNumber?_concat hnothing (hexValue?_digitChar hn)
      rwa [List.nil_append, Nat.mul_zero, Nat.zero_add] at hread
    · have hlow : n % 16 < 16 := Nat.mod_lt n (by omega)
      have hsplit : Nat.toDigits 16 n = Nat.toDigits 16 (n / 16) ++ [(n % 16).digitChar] := by
        rw [← Nat.toDigits_of_lt_base hlow,
          Nat.toDigits_append_toDigits (by omega) (by omega) hlow, Nat.div_add_mod]
      rw [hsplit, hexNumber?_concat (ih (n / 16) (by omega)) (hexValue?_digitChar hlow),
        Nat.div_add_mod]

/-- Leading zeros count for nothing. -/
theorem hexNumber?_zeros (count : Nat) (digits : List Char) :
    hexNumber? (List.replicate count '0' ++ digits) = hexNumber? digits := by
  induction count with
  | zero => rfl
  | succ count ih =>
    rw [← ih]
    rfl

theorem hexNumber?_hexPadded (width n : Nat) : hexNumber? (hexPadded width n) = some n := by
  rw [hexPadded, hexNumber?_zeros, hexNumber?_toDigits]

end Viewbase.Text
