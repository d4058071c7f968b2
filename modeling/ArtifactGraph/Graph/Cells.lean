import ArtifactGraph.Graph.Registry
import ArtifactGraph.Symbol.Naming

set_option autoImplicit false

namespace ArtifactGraph

structure Cells (Value : Type) where
  filled : List (Node × Value) := []
deriving DecidableEq

namespace Cells

variable {Value : Type}

def get? (cells : Cells Value) (node : Node) : Option Value := cells.filled.lookup node

def fill (cells : Cells Value) (node : Node) (value : Value) : Cells Value :=
  if (cells.get? node).isSome then cells else ⟨cells.filled ++ [(node, value)]⟩

theorem fill_appends (cells : Cells Value) (node : Node) (value : Value)
    (empty : cells.get? node = none) :
    (cells.fill node value).filled = cells.filled ++ [(node, value)] := by
  simp [fill, empty]

theorem fill_here (cells : Cells Value) (node : Node) (value : Value) :
    (cells.fill node value).get? node = some ((cells.get? node).getD value) := by
  cases known : cells.get? node with
  | some old => simp [fill, known]
  | none =>
      have absent : cells.filled.lookup node = none := known
      simp [get?, fill_appends cells node value known, List.lookup_append, absent]

theorem fill_elsewhere (cells : Cells Value) (node other : Node) (value : Value)
    (different : other ≠ node) : (cells.fill node value).get? other = cells.get? other := by
  cases known : cells.get? node with
  | some old => simp [fill, known]
  | none =>
      have miss : (other == node) = false := beq_false_of_ne different
      simp [get?, fill_appends cells node value known, List.lookup_append, List.lookup_cons, miss]

-- A node that was named keeps its name, whichever catalog names it now.
def name (cells : Cells String) (catalog : Catalog) (node : Node) :
    Except Fault String × Cells String :=
  match cells.get? node with
  | some name => (.ok name, cells)
  | none =>
    match catalog.symbol node.key with
    | .error fault => (.error fault, cells)
    | .ok name => (.ok name, cells.fill node name)

end Cells

def Node.text (node : Node) (names : Cells String) : String :=
  let name := match names.get? node with
    | none => "None"
    | some name => "Some(\x22" ++ name ++ "\x22)"
  "Node \x7b key: " ++ node.key.text ++ ", name: " ++ name ++ ", .. \x7d"

end ArtifactGraph
