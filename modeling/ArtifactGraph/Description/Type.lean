import ArtifactGraph.Ledger

set_option autoImplicit false

namespace ArtifactGraph

structure TypeId where
  position : Nat
deriving DecidableEq

namespace TypeId

def invalid : TypeId := ⟨nullPosition⟩

def isValid (id : TypeId) : Bool := id.position != nullPosition

def text (id : TypeId) : String :=
  if id.isValid then s!"TypeDesc({id.position})" else "TypeDesc::INVALID"

end TypeId

-- Dots separate the segments of a space; the empty space is the global one. A
-- vector has one dimension and starts at zero, an array has `rank` dimensions.
inductive TypeForm where
  | named (space name : String) (arguments : List TypeId)
  | vector (element : TypeId)
  | array (element : TypeId) (rank : Nat)
  | pointer (element : TypeId)
  | byRef (element : TypeId)
  | typeParameter (position : Nat)
  | methodParameter (position : Nat)
deriving DecidableEq

def TypeForm.parts : TypeForm → List TypeId
  | .named _ _ arguments => arguments
  | .vector element | .array element _ | .pointer element | .byRef element => [element]
  | .typeParameter _ | .methodParameter _ => []

end ArtifactGraph
