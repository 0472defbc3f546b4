import Viewbase.Store.Anew
import Viewbase.Tree.Sorted

/-!
Rows by position.

Ascending rows are determined by what stands at each position (`eq_of_rowsAt_eq`).  Sorting and
inserting are judged by that: sorting changes nothing at any position (`rowsAt_ascending`), and an
inserted row becomes the last of its position (`rowsAt_place`).
-/

namespace Viewbase.Entry

/-- The rows that stand at a position, in order. -/
def rowsAt (position : Position) (entries : List Entry) : List Entry :=
  entries.filter fun entry => entry.position.order position == .eq

theorem rowsAt_append (position : Position) (entries entries' : List Entry) :
    rowsAt position (entries ++ entries') = rowsAt position entries ++ rowsAt position entries' :=
  List.filter_append ..

theorem rowsAt_self (entry : Entry) (rest : List Entry) :
    rowsAt entry.position (entry :: rest) = entry :: rowsAt entry.position rest :=
  List.filter_cons_of_pos (by simp [Position.order_eq_eq])

theorem rowsAt_cons_of_ne {entry : Entry} {position : Position} (hne : entry.position ≠ position)
    (rest : List Entry) : rowsAt position (entry :: rest) = rowsAt position rest :=
  List.filter_cons_of_neg (by simpa [Position.order_eq_eq] using hne)

theorem mem_rowsAt {position : Position} {entry : Entry} {entries : List Entry} :
    entry ∈ rowsAt position entries ↔ entry ∈ entries ∧ entry.position = position := by
  simp [rowsAt, Position.order_eq_eq]

theorem rowsAt_eq_nil {position : Position} {entries : List Entry}
    (h : ∀ entry ∈ entries, entry.position ≠ position) : rowsAt position entries = [] := by
  rw [List.eq_nil_iff_forall_not_mem]
  intro entry hentry
  exact h entry (mem_rowsAt.1 hentry).1 (mem_rowsAt.1 hentry).2

/-- What stands at a position is kept or dropped by a choice that goes by position. -/
theorem rowsAt_filter (chosen : Position → Bool) (position : Position) (entries : List Entry) :
    rowsAt position (entries.filter fun entry => chosen entry.position) =
      if chosen position then rowsAt position entries else [] := by
  rw [rowsAt, List.filter_filter]
  have hchosen : ∀ entry ∈ entries,
      ((entry.position.order position == .eq) && chosen entry.position) =
        ((entry.position.order position == .eq) && chosen position) := by
    intro entry _
    by_cases h : entry.position = position
    · rw [h]
    · have hne : (entry.position.order position == .eq) = false := by
        simpa [Position.order_eq_eq] using h
      rw [hne, Bool.false_and, Bool.false_and]
  rw [List.filter_congr hchosen]
  cases chosen position with
  | true => simp [rowsAt]
  | false => simp

/-- Two ascending lists with the same rows at each position are equal. -/
theorem eq_of_rowsAt_eq {as bs : List Entry} (has : as.Pairwise Precedes)
    (hbs : bs.Pairwise Precedes) (h : ∀ position, rowsAt position as = rowsAt position bs) :
    as = bs := by
  have hmem : ∀ {xs ys : List Entry}, (∀ position, rowsAt position xs = rowsAt position ys) →
      ∀ {entry : Entry}, entry ∈ xs → entry ∈ ys := by
    intro xs ys hxy entry hentry
    have hrow := mem_rowsAt.2 ⟨hentry, rfl⟩
    rw [hxy entry.position] at hrow
    exact (mem_rowsAt.1 hrow).1
  induction as generalizing bs with
  | nil =>
    cases bs with
    | nil => rfl
    | cons b bs =>
      exact absurd (hmem (fun position => (h position).symm) List.mem_cons_self) (by simp)
  | cons a as ih =>
    cases bs with
    | nil => exact absurd (hmem h List.mem_cons_self) (by simp)
    | cons b bs =>
      obtain ⟨ha, has⟩ := List.pairwise_cons.1 has
      obtain ⟨hb, hbs⟩ := List.pairwise_cons.1 hbs
      -- Each of the two heads is no later than the other, so both stand at one position.
      have hab : a.Precedes b := by
        rcases List.mem_cons.1 (hmem (fun position => (h position).symm) List.mem_cons_self) with
          heq | hmem
        · exact heq ▸ .refl a
        · exact ha b hmem
      have hba : b.Precedes a := by
        rcases List.mem_cons.1 (hmem h List.mem_cons_self) with heq | hmem
        · exact heq ▸ .refl b
        · exact hb a hmem
      have hposition : a.position = b.position := by
        rw [← Position.order_eq_eq]
        rw [Precedes, ← order_swap] at hba
        change a.order b = .eq
        cases horder : a.order b with
        | lt => simp [horder] at hba
        | eq => rfl
        | gt => simp [Precedes, horder] at hab
      have hheads := h a.position
      rw [rowsAt_self, hposition, rowsAt_self, List.cons.injEq] at hheads
      have htails : ∀ position, rowsAt position as = rowsAt position bs := by
        intro position
        have hrows := h position
        by_cases heq : b.position = position
        · subst heq
          exact hheads.2
        · rwa [rowsAt_cons_of_ne (hposition ▸ heq), rowsAt_cons_of_ne heq] at hrows
      rw [hheads.1, ih has hbs htails]

/-! ## Sorting -/

theorem precedes_iff {a b : Entry} : a.Precedes b ↔ (a.order b != .gt) = true := by
  rw [Precedes]
  cases a.order b <;> simp

theorem pairwise_ascending (entries : List Entry) : (ascending entries).Pairwise Precedes := by
  have hsorted : (ascending entries).Pairwise fun a b => (a.order b != .gt) = true := by
    apply List.pairwise_mergeSort
    · intro a b c hab hbc
      rw [← precedes_iff] at hab hbc ⊢
      exact hab.trans hbc
    · intro a b
      rw [Bool.or_eq_true, ← precedes_iff, ← precedes_iff]
      exact precedes_total a b
  exact hsorted.imp precedes_iff.2

/-- Sorting changes nothing at any position. -/
theorem rowsAt_ascending (position : Position) (entries : List Entry) :
    rowsAt position (ascending entries) = rowsAt position entries := by
  -- The rows of one position are in order as they are, so sorting keeps them as a sublist.
  have hsublist : (rowsAt position entries).Sublist (ascending entries) := by
    apply List.sublist_mergeSort
    · intro a b c hab hbc
      rw [← precedes_iff] at hab hbc ⊢
      exact hab.trans hbc
    · intro a b
      rw [Bool.or_eq_true, ← precedes_iff, ← precedes_iff]
      exact precedes_total a b
    · apply List.pairwise_of_forall_mem_list
      intro a ha b hb
      rw [← precedes_iff, Precedes, order, (mem_rowsAt.1 ha).2, (mem_rowsAt.1 hb).2,
        Position.order_eq_eq.2 rfl]
      rfl
    · exact List.filter_sublist
  have hrows : (rowsAt position entries).Sublist (rowsAt position (ascending entries)) := by
    have hfiltered := hsublist.filter fun entry => entry.position.order position == .eq
    simpa only [rowsAt, List.filter_filter, Bool.and_self] using hfiltered
  have hperm : (rowsAt position (ascending entries)).Perm (rowsAt position entries) :=
    (List.mergeSort_perm entries _).filter _
  exact (hrows.eq_of_length hperm.length_eq.symm).symm

/-! ## Inserting -/

/-- An inserted row becomes the last of its position. -/
theorem rowsAt_place (position : Position) (entry : Entry) {entries : List Entry}
    (h : entries.Pairwise Precedes) :
    rowsAt position (place entry entries) = rowsAt position (entries ++ [entry]) := by
  induction entries with
  | nil => rfl
  | cons head rest ih =>
    obtain ⟨hhead, hrest⟩ := List.pairwise_cons.1 h
    rw [place]
    split
    next hlt =>
      -- All rows from the head on come after the new one, so none stands at its position.
      have hnone : rowsAt entry.position (head :: rest) = [] := by
        apply rowsAt_eq_nil
        intro other hother heq
        have hle : head.Precedes other := by
          rcases List.mem_cons.1 hother with rfl | hother
          · exact .refl other
          · exact hhead other hother
        have hlt : entry.order head = .lt := by simpa using hlt
        rw [Precedes, order, heq, ← Position.order_swap] at hle
        rw [order] at hlt
        simp [hlt] at hle
      by_cases heq : entry.position = position
      · subst heq
        rw [rowsAt_append, hnone, rowsAt_self, hnone, rowsAt_self]
        rfl
      · rw [rowsAt_append, rowsAt_cons_of_ne heq, rowsAt_cons_of_ne heq]
        exact (List.append_nil _).symm
    next hge =>
      rw [List.cons_append]
      by_cases heq : head.position = position
      · subst heq
        rw [rowsAt_self, rowsAt_self, ih hrest]
      · rw [rowsAt_cons_of_ne heq, rowsAt_cons_of_ne heq, ih hrest]

end Viewbase.Entry
