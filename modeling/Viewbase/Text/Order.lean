/-!
The order of texts: by code point, a proper initial part before every extension of it.

Main statements: texts that compare alike are equal, swapping two texts swaps their order, and the
order is transitive.
-/

namespace Viewbase

/-- The order of two natural numbers. -/
def orderNat (a b : Nat) : Ordering :=
  if a < b then .lt else if b < a then .gt else .eq

theorem orderNat_eq_eq {a b : Nat} : orderNat a b = .eq ↔ a = b := by
  unfold orderNat
  split
  · simp; omega
  · split <;> simp <;> omega

theorem orderNat_eq_lt {a b : Nat} : orderNat a b = .lt ↔ a < b := by
  unfold orderNat
  split
  · simp; omega
  · split <;> simp <;> omega

theorem orderNat_swap (a b : Nat) : (orderNat a b).swap = orderNat b a := by
  rcases Nat.lt_trichotomy a b with h | rfl | h
  · rw [orderNat_eq_lt.2 h]
    simp [orderNat, Nat.lt_asymm h, h]
  · rw [orderNat_eq_eq.2 rfl]
    rfl
  · rw [orderNat_eq_lt.2 h]
    simp [orderNat, Nat.lt_asymm h, h]

/-- A comparison under which only equal items compare alike, that swaps with its arguments and is
transitive, orders its items totally. -/
theorem transCmp_of_lt_trans {α : Type} {order : α → α → Ordering}
    (heq : ∀ {a b : α}, order a b = .eq ↔ a = b)
    (hswap : ∀ a b : α, (order a b).swap = order b a)
    (hlt : ∀ {a b c : α}, order a b = .lt → order b c = .lt → order a c = .lt) :
    Std.TransCmp order where
  eq_swap {a b} := (hswap b a).symm
  isLE_trans {a b c} hab hbc := by
    cases h : order a b with
    | gt => simp [h] at hab
    | eq => rwa [heq.1 h]
    | lt =>
      cases h' : order b c with
      | gt => simp [h'] at hbc
      | eq => rwa [← heq.1 h']
      | lt => simp [hlt h h']

namespace Text

/-- Compare two texts code point by code point. -/
def orderChars : List Char → List Char → Ordering
  | [], [] => .eq
  | [], _ :: _ => .lt
  | _ :: _, [] => .gt
  | a :: as, b :: bs => (orderNat a.toNat b.toNat).then (orderChars as bs)

/-- Compare two strings code point by code point. -/
def order (a b : String) : Ordering :=
  orderChars a.toList b.toList

theorem orderChars_eq_eq {as bs : List Char} : orderChars as bs = .eq ↔ as = bs := by
  induction as generalizing bs with
  | nil => cases bs <;> simp [orderChars]
  | cons a as ih =>
    cases bs with
    | nil => simp [orderChars]
    | cons b bs =>
      simp only [orderChars, Ordering.then_eq_eq, orderNat_eq_eq, ih, List.cons.injEq,
        Char.toNat_inj]

theorem orderChars_swap (as bs : List Char) : (orderChars as bs).swap = orderChars bs as := by
  induction as generalizing bs with
  | nil => cases bs <;> rfl
  | cons a as ih =>
    cases bs with
    | nil => rfl
    | cons b bs => rw [orderChars, Ordering.swap_then, orderNat_swap, ih, orderChars]

theorem orderChars_lt_trans {as bs cs : List Char} (hab : orderChars as bs = .lt)
    (hbc : orderChars bs cs = .lt) : orderChars as cs = .lt := by
  induction as generalizing bs cs with
  | nil =>
    cases bs with
    | nil => simp [orderChars] at hab
    | cons b bs =>
      cases cs with
      | nil => simp [orderChars] at hbc
      | cons c cs => rfl
  | cons a as ih =>
    cases bs with
    | nil => simp [orderChars] at hab
    | cons b bs =>
      cases cs with
      | nil => simp [orderChars] at hbc
      | cons c cs =>
        simp only [orderChars, Ordering.then_eq_lt, orderNat_eq_lt, orderNat_eq_eq] at hab hbc ⊢
        rcases hab with h | ⟨h, hab⟩ <;> rcases hbc with h' | ⟨h', hbc⟩
        · exact .inl (by omega)
        · exact .inl (by omega)
        · exact .inl (by omega)
        · exact .inr ⟨by omega, ih hab hbc⟩

theorem order_eq_eq {a b : String} : order a b = .eq ↔ a = b := by
  rw [order, orderChars_eq_eq, String.toList_inj]

theorem order_swap (a b : String) : (order a b).swap = order b a :=
  orderChars_swap _ _

theorem order_lt_trans {a b c : String} (hab : order a b = .lt) (hbc : order b c = .lt) :
    order a c = .lt :=
  orderChars_lt_trans hab hbc

instance : Std.TransCmp order :=
  transCmp_of_lt_trans order_eq_eq order_swap order_lt_trans

instance : Std.LawfulEqCmp order where
  compare_self := order_eq_eq.2 rfl
  eq_of_compare := order_eq_eq.1

end Text

end Viewbase
