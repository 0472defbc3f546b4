import Viewbase.Error

/-!
The lifetime of a temporary index.

Every query over it and every live query made from one holds a share, and every scan of it is
registered while it lasts.  The index is deleted when the last share is given up and no scan is
registered.  Deleting is up to a surrounding world, which may refuse.
-/

namespace Viewbase

/-- The record of a temporary index. -/
structure Temporary where
  index : Descriptor
  /-- Shares that are held. -/
  owners : Nat
  /-- Scans that are registered. -/
  inFlight : Nat
  deleted : Bool
  /-- The last share was given up under a scan; the last scan to end deletes the index. -/
  deleteWhenIdle : Bool

namespace Temporary

/-- The record of a new index, whose first share its maker holds. -/
def new (index : Descriptor) : Temporary :=
  ⟨index, 1, 0, false, false⟩

/-- What is to be told of a temporary index. -/
inductive Note where
  | created
  | deleted
  /-- The last share was given up without being asked for. -/
  | released
  | violation (error : QueryError)

/-- What an operation leaves: the record, the world, what is to be told, and the reply. -/
structure Step (σ : Type) where
  record : Temporary
  world : σ
  notes : List Note
  reply : Except QueryError Unit

/-- How the world deletes an index. -/
abbrev Delete (σ : Type) := Descriptor → σ → σ × Except IndexError Unit

variable {σ : Type}

/-- There is nothing left to take or give up. -/
def isGone (t : Temporary) : Bool :=
  t.deleted || t.owners == 0

/-- Leave all as it is and tell of a misuse. -/
def refuse (t : Temporary) (world : σ) (cause : Violation) : Step σ :=
  ⟨t, world, [.violation (.lifecycle cause)], .error (.lifecycle cause)⟩

/-- Have the index deleted.  Only a refusal that is a misuse is told of. -/
def deleteNow (delete : Delete σ) (t : Temporary) (world : σ) : Step σ :=
  match delete t.index world with
  | (world, .ok ()) => ⟨{ t with deleted := true }, world, [.deleted], .ok ()⟩
  | (world, .error error) =>
    let error := QueryError.ofIndexError error
    ⟨t, world, if error.isFatal then [.violation error] else [], .error error⟩

/-- Have the index deleted on nobody's request: a refusal is told of in any case, and dropped. -/
def deleteQuietly (delete : Delete σ) (t : Temporary) (world : σ) : Step σ :=
  let step := deleteNow delete t world
  match step.reply with
  | .ok () => step
  | .error error => { step with notes := step.notes ++ [.violation error], reply := .ok () }

/-- Take another share. -/
def acquireOwner (t : Temporary) (world : σ) : Step σ :=
  if t.isGone then t.refuse world (.alreadyDeleted t.index.id)
  else ⟨{ t with owners := t.owners + 1 }, world, [], .ok ()⟩

/-- Give up a share.  The last one deletes the index, and is kept if that is refused. -/
def releaseOwner (delete : Delete σ) (t : Temporary) (world : σ) : Step σ :=
  if t.isGone then t.refuse world (.alreadyDeleted t.index.id)
  else if t.owners = 1 ∧ 0 < t.inFlight then t.refuse world (.inUse t.index.id)
  else if t.owners = 1 then
    let step := deleteNow delete { t with owners := 0 } world
    match step.reply with
    | .ok () => step
    | .error _ => { step with record := { step.record with owners := 1 } }
  else ⟨{ t with owners := t.owners - 1 }, world, [], .ok ()⟩

/-- Give up a share without failing.  If it is the last, the index is deleted as soon as no scan of
it is registered. -/
def releaseDeferred (delete : Delete σ) (t : Temporary) (world : σ) : Step σ :=
  if t.owners = 0 then ⟨t, world, [], .ok ()⟩
  else
    let t := { t with owners := t.owners - 1 }
    if 0 < t.owners ∨ t.deleted then ⟨t, world, [], .ok ()⟩
    else if 0 < t.inFlight then ⟨{ t with deleteWhenIdle := true }, world, [.released], .ok ()⟩
    else
      let step := deleteQuietly delete t world
      { step with notes := .released :: step.notes }

/-- Delete the index whatever shares are held; no share is left. -/
def deleteIndex (delete : Delete σ) (t : Temporary) (world : σ) : Step σ :=
  if t.deleted then t.refuse world (.alreadyDeleted t.index.id)
  else if 0 < t.inFlight then t.refuse world (.inUse t.index.id)
  else
    let step := deleteNow delete t world
    match step.reply with
    | .ok () => { step with record := { step.record with owners := 0 } }
    | .error _ => step

/-- Register a scan. -/
def beginScan (t : Temporary) (world : σ) : Step σ :=
  if t.isGone then ⟨t, world, [], .error (.unavailable (.temporary t.index.id))⟩
  else ⟨{ t with inFlight := t.inFlight + 1 }, world, [], .ok ()⟩

/-- End the registration of a scan. -/
def endScan (delete : Delete σ) (t : Temporary) (world : σ) : Step σ :=
  let t := { t with inFlight := t.inFlight - 1 }
  if t.inFlight = 0 ∧ t.deleteWhenIdle ∧ ¬t.deleted then
    deleteQuietly delete { t with deleteWhenIdle := false } world
  else ⟨t, world, [], .ok ()⟩

end Temporary

end Viewbase
