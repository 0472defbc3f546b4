import Viewbase.Store.History
import Mathlib.Data.List.Induction

/-!
Chronicles: what is noted of a run, command by command.

What a command comes to depends on the store that it is given to, so a chronicle is made along a run.
Main statement: what holds of a store with nothing noted, and is kept by every command with what is
noted of it, holds after every history (`chronicle_induct`).
-/

namespace Viewbase.Store

variable {α : Type}

/-- What is noted of the commands of a run, in turn. -/
def chronicle (note : Store → Command → Option α) (s : Store) : List Command → List α
  | [] => []
  | command :: rest => (note s command).toList ++ chronicle note (s.perform command) rest

theorem chronicle_append_singleton (note : Store → Command → Option α) (s : Store)
    (history : List Command) (command : Command) :
    chronicle note s (history ++ [command]) =
      chronicle note s history ++ (note (history.foldl perform s) command).toList := by
  induction history generalizing s with
  | nil =>
    rw [List.nil_append, chronicle, chronicle, chronicle, List.append_nil, List.nil_append]
    rfl
  | cons first rest ih =>
    rw [List.cons_append, chronicle, ih, chronicle, List.append_assoc]
    rfl

/-- What holds of a store and its chronicle at the start, and is kept by every command, holds after
every history. -/
theorem chronicle_induct {note : Store → Command → Option α} {holds : Store → List α → Prop}
    (start : ∀ numbered, holds (empty numbered) [])
    (step : ∀ s noted command, holds s noted →
      holds (s.perform command) (noted ++ (note s command).toList))
    (numbered : Nat) (history : List Command) :
    holds (after numbered history) (chronicle note (empty numbered) history) := by
  induction history using List.reverseRecOn with
  | nil => exact start numbered
  | append_singleton history command ih =>
    rw [chronicle_append_singleton, after, List.foldl_append]
    exact step _ _ command ih

end Viewbase.Store
