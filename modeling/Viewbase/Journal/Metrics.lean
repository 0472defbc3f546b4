/-!
Counters over the life of a database.
-/

namespace Viewbase

/-- What is counted over the life of a database. -/
structure Metrics where
  executed : Nat := 0
  failed : Nat := 0
  submitted : Nat := 0
  cancelled : Nat := 0
  liveRefreshes : Nat := 0
  /-- Changes that fell into a refresh that was already due. -/
  liveCoalesced : Nat := 0
  temporariesCreated : Nat := 0
  temporariesDeleted : Nat := 0
  deriving DecidableEq, Repr

namespace Metrics

/-- Temporary indexes created and not yet deleted. -/
def outstanding (m : Metrics) : Nat :=
  m.temporariesCreated - m.temporariesDeleted

end Metrics

end Viewbase
