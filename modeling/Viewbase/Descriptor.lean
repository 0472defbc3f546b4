import Viewbase.Identity

/-!
What a query needs to know of an index: its identity, its name, and whether it can reduce.
-/

namespace Viewbase

/-- The description of an index.  One without a name was made for one ad-hoc family of queries. -/
structure Descriptor where
  id : IndexId
  name : Option String
  hasReduce : Bool
  deriving DecidableEq, Repr

namespace Descriptor

def named (id : IndexId) (name : String) (hasReduce : Bool) : Descriptor :=
  ⟨id, some name, hasReduce⟩

def ephemeral (id : IndexId) : Descriptor :=
  ⟨id, none, false⟩

def isEphemeral (d : Descriptor) : Bool :=
  d.name.isNone

/-- The name of an index, or its identity if it has none. -/
def label (d : Descriptor) : String :=
  match d.name with
  | some name => name
  | none => s!"<ephemeral {d.id.text}>"

end Descriptor

end Viewbase
