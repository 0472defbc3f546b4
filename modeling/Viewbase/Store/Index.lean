import Viewbase.Store.Basic

/-!
The indexes of the store and the subscriptions to them: definition, deletion, and who is told of a
change.
-/

namespace Viewbase.Store

/-- The identity of the next index. -/
def nextId (s : Store) : IndexId :=
  ⟨s.numbered + 1⟩

/-- Add an unbuilt view under the next identity. -/
def addView (s : Store) (descriptor : Descriptor) (map : MapFunction)
    (reduce : Option ReduceFunction) : Store :=
  { s with
    views := s.views ++ [View.unbuilt descriptor map reduce]
    numbered := s.numbered + 1 }

def removeView (s : Store) (id : IndexId) : Store :=
  { s with views := s.views.filter fun view => !decide (view.id = id) }

def forgetName (s : Store) (name : String) : Store :=
  { s with names := s.names.filter fun entry => entry.1 != name }

/-- Define a named view, in place of an earlier one of that name. -/
def defineView (s : Store) (name : String) (map : MapFunction) (reduce : Option ReduceFunction) :
    Descriptor × Store :=
  let descriptor := Descriptor.named s.nextId name reduce.isSome
  let cleared := match s.names.lookup name with
    | some old => (s.removeView old).forgetName name
    | none => s
  let named := { cleared with names := cleared.names ++ [(name, descriptor.id)] }
  (descriptor, named.addView descriptor map reduce)

/-- Make an index without a name. -/
def createEphemeral (s : Store) (map : MapFunction) : Descriptor × Store :=
  let descriptor := Descriptor.ephemeral s.nextId
  (descriptor, s.addView descriptor map none)

/-- Delete an index that exists and that nobody subscribes to. -/
def deleteIndex (s : Store) (index : Descriptor) : Except IndexError Store :=
  if !s.hasIndex index.id then .error (.alreadyDeleted index.id)
  else if s.subscriptions.any fun sub => decide (sub.index = index.id) then .error (.inUse index.id)
  else
    let removed := s.removeView index.id
    .ok <|
      match index.name with
      | some name => if s.names.lookup name = some index.id then removed.forgetName name else removed
      | none => removed

/-- An index that is deleted was there and had no subscribers.  Its view goes, and its name if the
name leads to it. -/
theorem deleteIndex_eq_ok {s s' : Store} {index : Descriptor} (h : s.deleteIndex index = .ok s') :
    s.hasIndex index.id = true ∧ (∀ sub ∈ s.subscriptions, sub.index ≠ index.id) ∧
      ((∃ name, index.name = some name ∧ s.names.lookup name = some index.id ∧
          s' = (s.removeView index.id).forgetName name) ∨
        (∀ name, index.name = some name → s.names.lookup name ≠ some index.id) ∧
          s' = s.removeView index.id) := by
  rw [deleteIndex] at h
  split at h
  · cases h
  next hthere =>
    split at h
    · cases h
    next hunused =>
      refine ⟨by simpa using hthere, by simpa using hunused, ?_⟩
      cases h
      cases hname : index.name with
      | none => exact .inr ⟨fun _ hother => (by cases hother), rfl⟩
      | some name =>
        by_cases hlookup : s.names.lookup name = some index.id
        · exact .inl ⟨name, rfl, hlookup, if_pos hlookup⟩
        · refine .inr ⟨fun other hother => ?_, if_neg hlookup⟩
          rwa [← Option.some.inj hother]

/-- Subscribe to the changes that may concern an index. -/
def subscribe (s : Store) (index : Descriptor) (observer : Observer) :
    Except IndexError (Token × Store) :=
  if !s.hasIndex index.id then .error (.unavailable (.described index))
  else
    let token : Token := ⟨s.tokens + 1⟩
    .ok (token, { s with
      subscriptions := s.subscriptions ++ [⟨token, index.id, observer⟩]
      tokens := s.tokens + 1 })

/-- Whoever subscribes to an index that is there is put behind the others under the next number. -/
theorem subscribe_eq_ok {s s' : Store} {index : Descriptor} {observer : Observer} {token : Token}
    (h : s.subscribe index observer = .ok (token, s')) :
    s.hasIndex index.id = true ∧ token = ⟨s.tokens + 1⟩ ∧
      s' = { s with
        subscriptions := s.subscriptions ++ [⟨⟨s.tokens + 1⟩, index.id, observer⟩]
        tokens := s.tokens + 1 } := by
  rw [subscribe] at h
  split at h
  · cases h
  next hthere =>
    cases h
    exact ⟨by simpa using hthere, rfl, rfl⟩

/-- End a subscription; a token that is not in use is ignored. -/
def unsubscribe (s : Store) (token : Token) : Store :=
  { s with subscriptions := s.subscriptions.filter fun sub => !decide (sub.token = token) }

/-- Who is told of a change: the subscribers to indexes that exist. -/
def audience (s : Store) : List Observer :=
  (s.subscriptions.filter fun sub => s.hasIndex sub.index).map Subscription.observer

end Viewbase.Store
