import Viewbase.Key.Order
import Viewbase.Store.Scan

/-!
Keys cut to the keys of their groups, and keys and positions in the order in which a scan meets
them.

Main statements: two keys that are cut alike become equal or stay in their order (`order_truncate`),
so group keys follow each other as the keys do (`isLE_keyAt`); cutting further what is cut is
cutting once (`keyAt_keyAt`); and cutting deep enough changes no key (`keyAt_of_deep`).  Positions
met in order have keys met in order (`isLE_met_key`).
-/

namespace Viewbase

namespace Key

theorem same_iff {a b : Key} : a.same b = true ↔ a = b := by
  rw [same, beq_iff_eq, order_eq_eq]

theorem same_comm (a b : Key) : a.same b = b.same a := by
  rw [Bool.eq_iff_iff, same_iff, same_iff, eq_comm]

/-! ## Cutting -/

theorem orderItems_take (n : Nat) (as bs : List Key) :
    as.take n = bs.take n ∨ orderItems (as.take n) (bs.take n) = orderItems as bs := by
  induction as generalizing n bs with
  | nil => cases n <;> cases bs <;> simp [orderItems]
  | cons a as ih =>
    cases n with
    | zero => exact .inl rfl
    | succ n =>
      cases bs with
      | nil => exact .inr rfl
      | cons b bs =>
        by_cases hab : a = b
        · subst hab
          refine (ih n bs).imp (fun h => ?_) fun h => ?_
          · rw [List.take_succ_cons, List.take_succ_cons, h]
          · rw [List.take_succ_cons, List.take_succ_cons, orderItems, orderItems, h]
        · -- The first items differ and decide.
          refine .inr ?_
          have hne : order a b ≠ .eq := fun h => hab (order_eq_eq.1 h)
          rw [List.take_succ_cons, List.take_succ_cons, orderItems, orderItems]
          cases h : order a b <;> simp_all

/-- Two keys that are cut alike become equal or stay in their order. -/
theorem order_truncate (level : Nat) (a b : Key) :
    a.truncate level = b.truncate level ∨
      (a.truncate level).order (b.truncate level) = a.order b := by
  cases a with
  | array as =>
    cases b with
    | array bs =>
      simp only [truncate, array.injEq, order]
      exact orderItems_take level as bs
    | _ => exact .inr rfl
  | _ => cases b <;> exact .inr rfl

end Key

/-! ## The order of a scan -/

/-- A total order is one from either end. -/
theorem KeyRange.transCmp_directed {α : Type} {order : α → α → Ordering} [Std.TransCmp order]
    (descending : Bool) : Std.TransCmp fun a b => directed descending (order a b) := by
  cases descending with
  | false => exact inferInstanceAs (Std.TransCmp order)
  | true =>
    have hswap : (fun a b => directed true (order a b)) = fun a b => order b a := by
      funext a b
      exact Std.OrientedCmp.eq_swap.symm
    rw [hswap]
    exact .opposite

namespace Key

/-- The order in which a scan meets keys. -/
def met (descending : Bool) (a b : Key) : Ordering :=
  KeyRange.directed descending (a.order b)

theorem met_true (a b : Key) : met true a b = b.order a :=
  order_swap a b

theorem met_false (a b : Key) : met false a b = a.order b :=
  rfl

instance (descending : Bool) : Std.TransCmp (met descending) :=
  KeyRange.transCmp_directed descending

theorem met_eq_eq {descending : Bool} {a b : Key} : met descending a b = .eq ↔ a = b := by
  cases descending with
  | false => rw [met_false, order_eq_eq]
  | true => rw [met_true, order_eq_eq, eq_comm]

theorem met_eq_lt_of_isLE {descending : Bool} {a b : Key} (hle : (met descending a b).isLE)
    (hne : a ≠ b) : met descending a b = .lt := by
  have hdiffer : met descending a b ≠ .eq := fun h => hne (met_eq_eq.1 h)
  cases h : met descending a b <;> simp_all

theorem ne_of_met_eq_lt {descending : Bool} {a b : Key} (h : met descending a b = .lt) : a ≠ b := by
  rintro rfl
  rw [met_eq_eq.2 rfl] at h
  cases h

/-- Keys in order stay in order if they are cut alike. -/
theorem isLE_met_truncate {descending : Bool} {a b : Key} (level : Nat)
    (h : (met descending a b).isLE) :
    (met descending (a.truncate level) (b.truncate level)).isLE := by
  rcases order_truncate level a b with heq | heq
  · rw [heq, met_eq_eq.2 rfl]
    rfl
  · rwa [met, heq]

end Key

namespace Position

/-- The order in which a scan meets positions. -/
def met (descending : Bool) (p q : Position) : Ordering :=
  KeyRange.directed descending (p.order q)

theorem met_true (p q : Position) : met true p q = q.order p :=
  order_swap p q

instance (descending : Bool) : Std.TransCmp (met descending) :=
  KeyRange.transCmp_directed descending

/-- A scan that meets positions in order meets their keys in order. -/
theorem isLE_met_key {descending : Bool} {p q : Position} (h : (met descending p q).isLE) :
    (Key.met descending p.key q.key).isLE := by
  cases descending with
  | false => exact Ordering.isLE_left_of_isLE_then h
  | true =>
    rw [met_true] at h
    rw [Key.met_true]
    exact Ordering.isLE_left_of_isLE_then h

end Position

/-! ## The keys of groups -/

namespace Group

theorem keyAt_zero (key : Key) : keyAt 0 key = .null :=
  rfl

theorem keyAt_of_pos {level : Nat} (h : 1 ≤ level) (key : Key) :
    keyAt level key = key.truncate level :=
  if_neg (by omega)

/-- Cutting further what is cut is cutting once. -/
theorem keyAt_keyAt {m n : Nat} (h : m ≤ n) (key : Key) : keyAt m (keyAt n key) = keyAt m key := by
  by_cases hm : m = 0
  · subst hm
    rfl
  · rw [keyAt_of_pos (by omega), keyAt_of_pos (by omega), keyAt_of_pos (by omega),
      Key.truncate_truncate, Nat.min_eq_left h]

/-- A level that no array among the keys exceeds changes no key. -/
theorem keyAt_of_deep {level : Nat} (h : 1 ≤ level) {key : Key}
    (hdeep : ∀ items, key = .array items → items.length ≤ level) : keyAt level key = key := by
  rw [keyAt_of_pos h]
  cases key with
  | array items => rw [Key.truncate, List.take_of_length_le (hdeep items rfl)]
  | _ => rfl

/-- Group keys follow each other as the keys do. -/
theorem isLE_keyAt {descending : Bool} {a b : Key} (level : Nat)
    (h : (Key.met descending a b).isLE) :
    (Key.met descending (keyAt level a) (keyAt level b)).isLE := by
  by_cases hlevel : level = 0
  · subst hlevel
    rw [keyAt_zero, keyAt_zero, Key.met_eq_eq.2 rfl]
    rfl
  · rw [keyAt_of_pos (by omega), keyAt_of_pos (by omega)]
    exact Key.isLE_met_truncate level h

end Group

end Viewbase
