import Viewbase.Proofs.Store.Later

/-!
Indexes under other identities.

What a view answers, and what it becomes when it catches up, does not depend on its identity but for
the identity that its errors name: renaming a view commutes with everything a scan does to it.
-/

namespace Viewbase

/-- The description of the same index under another identity. -/
def Descriptor.relabel (label : IndexId → IndexId) (d : Descriptor) : Descriptor :=
  { d with id := label d.id }

def Missing.relabel (label : IndexId → IndexId) : Missing → Missing
  | index id => index (label id)
  | described d => described (d.relabel label)
  | document id => document id
  | temporary id => temporary (label id)
  | released => released
  | other text => other text

def ScanFault.relabel (label : IndexId → IndexId) : ScanFault → ScanFault
  | mapCrashed d docId => mapCrashed (d.relabel label) docId
  | reduceCrashed group => reduceCrashed group
  | noReduce d => noReduce (d.relabel label)
  | other text => other text

/-- The same error where indexes have other identities. -/
def IndexError.relabel (label : IndexId → IndexId) : IndexError → IndexError
  | unavailable cause => unavailable (cause.relabel label)
  | scan cause => scan (cause.relabel label)
  | alreadyDeleted id => alreadyDeleted (label id)
  | inUse id => inUse (label id)
  | internal cause => internal cause

/-- The same request for another target. -/
def Request.retarget (request : Request) (target : Target) : Request :=
  { request with target := target }

variable {label : IndexId → IndexId}

namespace Group

/-- A reduction that fails names no index. -/
theorem mapError_reduceAll (label : IndexId → IndexId) (reduce : ReduceFunction)
    (groups : List Group) :
    (reduceAll reduce groups).mapError (IndexError.relabel label) = reduceAll reduce groups := by
  induction groups with
  | nil => rfl
  | cons group rest ih =>
    rw [reduceAll]
    split
    · rfl
    · split
      next error heq =>
        rw [heq] at ih
        exact ih
      next => rfl

end Group

namespace View

/-- The same view under another identity. -/
def relabel (label : IndexId → IndexId) (view : View) : View :=
  { view with descriptor := view.descriptor.relabel label }

@[simp] theorem relabel_indexed (view : View) : (view.relabel label).indexed = view.indexed :=
  rfl

theorem relabel_congr {label' : IndexId → IndexId} {view : View}
    (h : label' view.id = label view.id) : view.relabel label' = view.relabel label := by
  rw [relabel, relabel, Descriptor.relabel, Descriptor.relabel, ← View.id, h]

theorem Alike.relabel {view view' : View} (h : view'.Alike view) :
    (view'.relabel label).Alike (view.relabel label) :=
  ⟨congrArg (Descriptor.relabel label) h.descriptor, h.map, h.reduce⟩

theorem withdraw_relabel (view : View) (changed : Option (List String)) :
    (view.relabel label).withdraw changed = (view.withdraw changed).relabel label := by
  cases changed <;> rfl

theorem absorb_relabel (view : View) (documents : List Document) :
    (view.relabel label).absorb documents =
      ((view.absorb documents).1.relabel label,
        (view.absorb documents).2.map (IndexError.relabel label)) := by
  induction documents generalizing view with
  | nil => rfl
  | cons doc rest ih =>
    have hmap : (view.relabel label).map doc = view.map doc := rfl
    rw [absorb, absorb, hmap]
    cases view.map doc with
    | none => rfl
    | some emitted => exact ih { view with tree := view.tree.insertAll doc.id emitted }

theorem select_relabel (label : IndexId → IndexId) (view : View) (selection : Selection)
    (descending : Bool) :
    (view.relabel label).select selection descending = view.select selection descending := by
  cases selection <;> rfl

end View

namespace Store

variable {s r : Store}

theorem answerRows_relabel (hdocuments : r.documents = s.documents) (view : View)
    (request : Request) (target : Target) (selected : List Entry) (generation : Nat) :
    r.answerRows (view.relabel label) (request.retarget target) selected generation =
      (s.answerRows view request selected generation).mapError (IndexError.relabel label) := by
  have hrow : r.mappedRow request.includeDocs = s.mappedRow request.includeDocs := by
    funext entry
    rw [mappedRow, mappedRow, document?, document?, hdocuments]
  have hreduce : (view.relabel label).reduce = view.reduce := rfl
  simp only [answerRows, hreduce, Request.retarget, hrow]
  split
  · split
    · rfl
    next reduce _ =>
      have hfailed := Group.mapError_reduceAll label reduce
        (Group.runs request.groupLevel selected)
      split
      next error heq =>
        rw [heq] at hfailed
        exact congrArg Except.error (Except.error.inj hfailed).symm
      next => rfl
  · rfl

theorem scanView_relabel (hdocuments : r.documents = s.documents) (view : View)
    (request : Request) (target : Target) :
    r.scanView (view.relabel label) (request.retarget target) =
      (s.scanView view request).mapError (IndexError.relabel label) := by
  have hselected := View.select_relabel label view request.selection request.descending
  have hindexed : (view.relabel label).indexed = view.indexed := rfl
  rw [scanView, scanView, hindexed, ← answerRows_relabel hdocuments view request target]
  exact congrArg (fun rows => r.answerRows _ _ rows _) hselected

end Store

end Viewbase
