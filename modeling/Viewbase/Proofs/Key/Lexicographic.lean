import Viewbase.Proofs.Key.Truncation

/-!
The collation of keys as a total order, and arrays that begin alike.

What two arrays begin with alike does not count (`orderItems_append_left`), so an array comes before
all its extensions (`order_array_append`).  Main statement: the collation orders all keys totally,
kind by kind, and goes with the initial parts of arrays (`keys_collate_totally`).
-/

namespace Viewbase.Key

/-- What arrays begin with alike does not count. -/
theorem orderItems_append_left (items as bs : List Key) :
    orderItems (items ++ as) (items ++ bs) = orderItems as bs := by
  induction items with
  | nil => rfl
  | cons item items ih =>
    have hitem : item.order item = .eq := order_eq_eq.2 rfl
    rw [List.cons_append, List.cons_append, orderItems, hitem, Ordering.eq_then, ih]

/-- An array comes before every extension of it. -/
theorem order_array_append (items : List Key) {rest : List Key} (h : rest ≠ []) :
    (array items).order (array (items ++ rest)) = .lt := by
  have hitems : orderItems items (items ++ rest) = orderItems [] rest := by
    simpa using orderItems_append_left items [] rest
  rw [order, hitems]
  cases rest with
  | nil => exact absurd rfl h
  | cons next rest => rfl

/-- Of two keys one does not come after the other. -/
theorem isLE_total (a b : Key) : (a.order b).isLE ∨ (b.order a).isLE := by
  rw [← order_swap a b, Ordering.isLE_swap]
  cases a.order b <;> decide

/-- One key of each kind, in order. -/
theorem pairwise_kinds (b : Bool) (rank : UInt64) (s : String) (items : List Key)
    (members : List (String × Key)) :
    [null, bool b, number rank, string s, array items, object members].Pairwise
      fun a b => a.order b = .lt := by
  have hkinds : [null, bool b, number rank, string s, array items, object members].Pairwise
      fun a b => a.kind < b.kind := by
    simp [kind]
  exact hkinds.imp order_eq_lt_of_kind_lt

/-- The collation orders all keys totally: only equal keys collate alike, swapping two keys swaps
their order, and of two keys one is not after the other.  Null comes first, then the booleans, the
numbers, the strings, the arrays and the objects, and an array before every extension of it.  Keys
in order stay in order if they are cut alike, and a key that is cut twice is cut to the smaller
level. -/
theorem keys_collate_totally (a b c : Key) (m n : Nat) :
    a.order a = .eq ∧
    (a.order b = .eq ↔ a = b) ∧
    (a.order b).swap = b.order a ∧
    ((a.order b).isLE → (b.order a).isLE → a = b) ∧
    ((a.order b).isLE → (b.order c).isLE → (a.order c).isLE) ∧
    ((a.order b).isLE ∨ (b.order a).isLE) ∧
    (∀ flag rank s items members,
      [null, bool flag, number rank, string s, array items, object members].Pairwise
        fun a b => a.order b = .lt) ∧
    (∀ items rest, rest ≠ [] → (array items).order (array (items ++ rest)) = .lt) ∧
    ((a.order b).isLE → ((a.truncate n).order (b.truncate n)).isLE) ∧
    (a.truncate n).truncate m = a.truncate (min m n) := by
  have hcut : (met false a b).isLE → (met false (a.truncate n) (b.truncate n)).isLE :=
    isLE_met_truncate n
  refine ⟨order_eq_eq.2 rfl, order_eq_eq, order_swap a b, fun hab hba => ?_,
    Std.TransCmp.isLE_trans, isLE_total a b, pairwise_kinds, fun items rest hrest => ?_, hcut,
    truncate_truncate n m a⟩
  · exact order_eq_eq.1 (Std.OrientedCmp.isLE_antisymm hab hba)
  · exact order_array_append items hrest

/-- An array with an array in it. -/
def nested : Key :=
  array [string "a", array []]

/-- An extension of it. -/
def nestedFurther : Key :=
  array [string "a", array [], null]

/-- The array comes before its extension, and both before an array that begins otherwise; cut to one
item they are one key. -/
theorem nested_collate :
    (nested.order nestedFurther).isLE ∧
      (nestedFurther.order (array [string "b"])).isLE ∧
      (nested.order (array [string "b"])).isLE ∧
      nested.order nestedFurther = .lt ∧
      ((nested.truncate 1).order (nestedFurther.truncate 1)).isLE ∧
      nested.truncate 1 = nestedFurther.truncate 1 := by
  obtain ⟨-, -, -, -, htrans, -, -, hextends, hcut, -⟩ :=
    keys_collate_totally nested nestedFurther (array [string "b"]) 1 1
  -- The cut keys are one because neither is after the other.
  obtain ⟨-, -, -, hequal, -⟩ :=
    keys_collate_totally (nested.truncate 1) (nestedFurther.truncate 1) (array [string "b"]) 1 1
  have hlater : (nested.order nestedFurther).isLE := by decide
  have hlast : (nestedFurther.order (array [string "b"])).isLE := by decide
  have hback : ((nestedFurther.truncate 1).order (nested.truncate 1)).isLE := by decide
  exact ⟨hlater, hlast, htrans hlater hlast, hextends [string "a", array []] [null] (by decide),
    hcut hlater, hequal (hcut hlater) hback⟩

end Viewbase.Key
