import Viewbase.Key.Basic

/-!
Laws of the collation of keys.

Main statements: keys that collate alike are equal (`order_eq_eq`), swapping two keys swaps their
order (`order_swap`), and the order is transitive (`order_lt_trans`).  So the collation is a total
order of keys.
-/

namespace Viewbase.Key

/-! ## Equality -/

mutual

theorem order_eq_eq : ∀ {a b : Key}, a.order b = .eq ↔ a = b
  | .null, b => by cases b <;> simp [order, orderNat, kind]
  | .bool a, b => by
    cases b with
    | bool b => cases a <;> cases b <;> simp [order, orderNat]
    | _ => simp [order, orderNat, kind]
  | .number a, b => by
    cases b with
    | number b => simp [order, orderNat_eq_eq, UInt64.toNat_inj]
    | _ => simp [order, orderNat, kind]
  | .string a, b => by
    cases b with
    | string b => simp [order]
    | _ => simp [order, orderNat, kind]
  | .array as, b => by
    cases b with
    | array bs => simpa [order] using orderItems_eq_eq
    | _ => simp [order, orderNat, kind]
  | .object as, b => by
    cases b with
    | object bs => simpa [order] using orderMembers_eq_eq
    | _ => simp [order, orderNat, kind]

theorem orderItems_eq_eq : ∀ {as bs : List Key}, orderItems as bs = .eq ↔ as = bs
  | [], bs => by cases bs <;> simp [orderItems]
  | a :: as, bs => by
    cases bs with
    | nil => simp [orderItems]
    | cons b bs =>
      simp [orderItems, Ordering.then_eq_eq, @order_eq_eq a b, @orderItems_eq_eq as bs]

theorem orderMembers_eq_eq : ∀ {as bs : List (String × Key)}, orderMembers as bs = .eq ↔ as = bs
  | [], bs => by cases bs <;> simp [orderMembers]
  | (m, a) :: as, bs => by
    cases bs with
    | nil => simp [orderMembers]
    | cons b bs =>
      simp [orderMembers, Ordering.then_eq_eq, @order_eq_eq a b.2, @orderMembers_eq_eq as bs,
        Prod.ext_iff]

end

/-! ## Swapping -/

mutual

theorem order_swap : ∀ a b : Key, (a.order b).swap = b.order a
  | .null, b => by cases b <;> rfl
  | .bool a, b => by
    cases b with
    | bool b => simp only [order, orderNat_swap]
    | _ => rfl
  | .number a, b => by
    cases b with
    | number b => simp only [order, orderNat_swap]
    | _ => rfl
  | .string a, b => by
    cases b with
    | string b => simp only [order, Text.order_swap]
    | _ => rfl
  | .array as, b => by
    cases b with
    | array bs => simpa [order] using orderItems_swap as bs
    | _ => rfl
  | .object as, b => by
    cases b with
    | object bs => simpa [order] using orderMembers_swap as bs
    | _ => rfl

theorem orderItems_swap : ∀ as bs : List Key, (orderItems as bs).swap = orderItems bs as
  | [], bs => by cases bs <;> rfl
  | a :: as, bs => by
    cases bs with
    | nil => rfl
    | cons b bs =>
      rw [orderItems, Ordering.swap_then, order_swap a, orderItems_swap as, orderItems]

theorem orderMembers_swap :
    ∀ as bs : List (String × Key), (orderMembers as bs).swap = orderMembers bs as
  | [], bs => by cases bs <;> rfl
  | (m, a) :: as, bs => by
    cases bs with
    | nil => rfl
    | cons b bs =>
      rw [orderMembers, Ordering.swap_then, Ordering.swap_then, Text.order_swap, order_swap a,
        orderMembers_swap as, orderMembers]

end

/-! ## Transitivity -/

/-- A key of an earlier kind comes first. -/
theorem order_eq_lt_of_kind_lt {a b : Key} (h : a.kind < b.kind) : a.order b = .lt := by
  cases a <;> cases b <;> first | exact absurd h (Nat.lt_irrefl _) | exact orderNat_eq_lt.2 h

theorem kind_le_of_order_eq_lt {a b : Key} (h : a.order b = .lt) : a.kind ≤ b.kind := by
  cases a <;> cases b <;> first | exact Nat.le_refl _ | exact Nat.le_of_lt (orderNat_eq_lt.1 h)

/-- Keys in ascending order are of one kind, or the outer two are of different kinds. -/
theorem kinds_of_ascending {a b c : Key} (hab : a.order b = .lt) (hbc : b.order c = .lt) :
    a.order c = .lt ∨ b.kind = a.kind ∧ c.kind = a.kind := by
  have hle := kind_le_of_order_eq_lt hab
  have hle' := kind_le_of_order_eq_lt hbc
  by_cases h : a.kind < c.kind
  · exact .inl (order_eq_lt_of_kind_lt h)
  · exact .inr (by omega)

mutual

theorem order_lt_trans :
    ∀ {a b c : Key}, a.order b = .lt → b.order c = .lt → a.order c = .lt
  | .null, b, c, hab, hbc => by
    rcases kinds_of_ascending hab hbc with h | ⟨hb, hc⟩
    · exact h
    · cases b <;> simp [kind] at hb
      simp [order, orderNat, kind] at hab
  | .bool a, b, c, hab, hbc => by
    rcases kinds_of_ascending hab hbc with h | ⟨hb, hc⟩
    · exact h
    · cases b <;> simp [kind] at hb
      cases c <;> simp [kind] at hc
      simp only [order, orderNat_eq_lt] at hab hbc ⊢
      omega
  | .number a, b, c, hab, hbc => by
    rcases kinds_of_ascending hab hbc with h | ⟨hb, hc⟩
    · exact h
    · cases b <;> simp [kind] at hb
      cases c <;> simp [kind] at hc
      simp only [order, orderNat_eq_lt] at hab hbc ⊢
      omega
  | .string a, b, c, hab, hbc => by
    rcases kinds_of_ascending hab hbc with h | ⟨hb, hc⟩
    · exact h
    · cases b <;> simp [kind] at hb
      cases c <;> simp [kind] at hc
      exact Text.order_lt_trans hab hbc
  | .array as, b, c, hab, hbc => by
    rcases kinds_of_ascending hab hbc with h | ⟨hb, hc⟩
    · exact h
    · cases b <;> simp [kind] at hb
      cases c <;> simp [kind] at hc
      simp only [order] at hab hbc ⊢
      exact orderItems_lt_trans hab hbc
  | .object as, b, c, hab, hbc => by
    rcases kinds_of_ascending hab hbc with h | ⟨hb, hc⟩
    · exact h
    · cases b <;> simp [kind] at hb
      cases c <;> simp [kind] at hc
      simp only [order] at hab hbc ⊢
      exact orderMembers_lt_trans hab hbc

theorem orderItems_lt_trans : ∀ {as bs cs : List Key}, orderItems as bs = .lt →
    orderItems bs cs = .lt → orderItems as cs = .lt
  | [], bs, cs, hab, hbc => by
    cases bs with
    | nil => simp [orderItems] at hab
    | cons b bs =>
      cases cs with
      | nil => simp [orderItems] at hbc
      | cons c cs => rfl
  | a :: as, bs, cs, hab, hbc => by
    cases bs with
    | nil => simp [orderItems] at hab
    | cons b bs =>
      cases cs with
      | nil => simp [orderItems] at hbc
      | cons c cs =>
        simp only [orderItems, Ordering.then_eq_lt, order_eq_eq] at hab hbc ⊢
        rcases hab with h | ⟨rfl, hab⟩ <;> rcases hbc with h' | ⟨rfl, hbc⟩
        · exact .inl (order_lt_trans h h')
        · exact .inl h
        · exact .inl h'
        · exact .inr ⟨rfl, orderItems_lt_trans hab hbc⟩

theorem orderMembers_lt_trans : ∀ {as bs cs : List (String × Key)}, orderMembers as bs = .lt →
    orderMembers bs cs = .lt → orderMembers as cs = .lt
  | [], bs, cs, hab, hbc => by
    cases bs with
    | nil => simp [orderMembers] at hab
    | cons b bs =>
      cases cs with
      | nil => simp [orderMembers] at hbc
      | cons c cs => rfl
  | (m, a) :: as, bs, cs, hab, hbc => by
    cases bs with
    | nil => simp [orderMembers] at hab
    | cons b bs =>
      cases cs with
      | nil => simp [orderMembers] at hbc
      | cons c cs =>
        obtain ⟨n, b⟩ := b
        obtain ⟨o, c⟩ := c
        simp only [orderMembers, Ordering.then_eq_lt, Ordering.then_eq_eq, order_eq_eq,
          Text.order_eq_eq] at hab hbc ⊢
        rcases hab with (h | ⟨rfl, h⟩) | ⟨⟨rfl, rfl⟩, hab⟩ <;>
          rcases hbc with (h' | ⟨rfl, h'⟩) | ⟨⟨rfl, rfl⟩, hbc⟩
        · exact .inl (.inl (Text.order_lt_trans h h'))
        · exact .inl (.inl h)
        · exact .inl (.inl h)
        · exact .inl (.inl h')
        · exact .inl (.inr ⟨rfl, order_lt_trans h h'⟩)
        · exact .inl (.inr ⟨rfl, h⟩)
        · exact .inl (.inl h')
        · exact .inl (.inr ⟨rfl, h'⟩)
        · exact .inr ⟨⟨rfl, rfl⟩, orderMembers_lt_trans hab hbc⟩

end

instance : Std.TransCmp order :=
  transCmp_of_lt_trans order_eq_eq order_swap order_lt_trans

instance : Std.LawfulEqCmp order where
  compare_self := order_eq_eq.2 rfl
  eq_of_compare := order_eq_eq.1

end Viewbase.Key
