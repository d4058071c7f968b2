import ArtifactGraph.Graph.Cells

set_option autoImplicit false

namespace ArtifactGraph

-- What compiled bodies need. An answer may depend on the bodies that were read
-- before, the oldest first.
structure Bodies where
  needs : List MethodId → MethodId → List Edge

namespace Bodies

def empty : Bodies := ⟨fun _ _ => []⟩

def ofList (bodies : List (MethodId × List Edge)) : Bodies :=
  ⟨fun _ method => (bodies.lookup method).getD []⟩

end Bodies

structure Compilation where
  catalog : Catalog
  bodies : Bodies

def slotReason : String := "ReadyToRun Virtual Method Call"
def targetReason : String := "Delegate target method"
def implementationReason : String := "Virtual method implementation"

def Compilation.needs (compilation : Compilation) (history : List MethodId) :
    Key → Except Fault (List Edge)
  | .stub .virtualCall (.method method) => .ok [⟨.virtualUse method, slotReason⟩]
  | .stub .delegate (.delegate record) => .ok [⟨.body record.target, targetReason⟩]
  | .stub made payload => do
      (Key.stub made payload).checkFit
      return []
  | .virtualUse method =>
      match compilation.catalog.traits? method with
      | none => .error (.undescribed (.method method))
      | some traits =>
          .ok (if traits.isAbstract then [] else [⟨.body method, implementationReason⟩])
  | .body method => .ok (compilation.bodies.needs history method)

-- The cells may hold nodes of other registries too. Read bodies are listed, the
-- oldest first.
structure Workspace where
  registry : Registry
  names : Cells String := {}
  edges : Cells (List Edge) := {}
  read : List MethodId := []

namespace Workspace

def request (workspace : Workspace) (catalog : Catalog) (key : Key) :
    Except Fault Instance × Workspace :=
  match workspace.registry.request catalog key with
  | (answer, registry) => (answer, { workspace with registry })

def register (workspace : Workspace) (catalog : Catalog) (key : Key) :
    Except Fault Node × Workspace :=
  match workspace.registry.register catalog key with
  | (answer, registry) => (answer, { workspace with registry })

def name (workspace : Workspace) (catalog : Catalog) (node : Node) :
    Except Fault String × Workspace :=
  match workspace.names.name catalog node with
  | (answer, names) => (answer, { workspace with names })

-- After a fault the cell is still empty, but a body that was read counts as read,
-- and what was registered stays registered.
def needs (workspace : Workspace) (compilation : Compilation) (node : Node) :
    Except Fault (List Edge) × Workspace :=
  match workspace.edges.get? node with
  | some edges => (.ok edges, workspace)
  | none =>
    let read := workspace.read ++ node.key.bodyOf?.toList
    match compilation.needs workspace.read node.key with
    | .error fault => (.error fault, { workspace with read })
    | .ok edges =>
      match workspace.registry.registerAll compilation.catalog (edges.map (·.target)) with
      | (.error fault, registry) => (.error fault, { workspace with registry, read })
      | (.ok _, registry) =>
        (.ok edges, { workspace with registry, read, edges := workspace.edges.fill node edges })

end Workspace

end ArtifactGraph
