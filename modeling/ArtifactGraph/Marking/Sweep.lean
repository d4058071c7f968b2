import ArtifactGraph.Graph.Workspace
import ArtifactGraph.Marking.Marks
import ArtifactGraph.Marking.Schedule
import ArtifactGraph.Report

set_option autoImplicit false

namespace ArtifactGraph

structure Visit where
  node : Node
  edges : List Edge
deriving DecidableEq

def Visit.links (visit : Visit) : List Link := visit.edges.map (·.leaving visit.node.key)

structure Sweep where
  workspace : Workspace
  marks : Marks
  pending : List Node
  visits : List Visit := []

structure Halt where
  fault : Fault
  node : Node
  workspace : Workspace

namespace Sweep

def start (workspace : Workspace) (roots : List Node) : Sweep :=
  { workspace, marks := .ofRoots roots, pending := (Marks.ofRoots roots).nodes }

def follow (compilation : Compilation) (source : Node) (sweep : Sweep) (edge : Edge) :
    Except Halt Sweep :=
  if sweep.marks.contains edge.target then .ok sweep
  else
    match sweep.workspace.register compilation.catalog edge.target with
    | (.error fault, workspace) => .error ⟨fault, source, workspace⟩
    | (.ok target, workspace) =>
      .ok { sweep with
        workspace
        marks := sweep.marks.insert target (some ⟨source.key, edge.reason⟩)
        pending := sweep.pending ++ [target] }

def visit (compilation : Compilation) (sweep : Sweep) (node : Node) : Except Halt Sweep :=
  match sweep.workspace.needs compilation node with
  | (.error fault, workspace) => .error ⟨fault, node, workspace⟩
  | (.ok edges, workspace) =>
    edges.foldlM (follow compilation node)
      { sweep with workspace, visits := sweep.visits ++ [⟨node, edges⟩] }

def drain (compilation : Compilation) (schedule : Schedule) :
    Nat → Nat → Sweep → Except Halt Sweep
  | 0, _, sweep => .ok sweep
  | budget + 1, round, sweep =>
    if sweep.pending.isEmpty then .ok sweep
    else do
      let (now, later) := schedule.batch round sweep.pending
      let sweep ← now.foldlM (visit compilation) { sweep with pending := later }
      drain compilation schedule budget (round + 1) sweep

-- Every round visits a node for the first time. The node is a root, or it was
-- registered before, or its key is one of the seven that each type and each
-- method allows.
def budget (compilation : Compilation) (workspace : Workspace) (roots : List Node) : Nat :=
  roots.length + workspace.registry.keys.length +
    7 * (compilation.catalog.types.size + compilation.catalog.methods.size)

def run (compilation : Compilation) (schedule : Schedule) (workspace : Workspace)
    (roots : List Node) : Except Halt Sweep :=
  drain compilation schedule (budget compilation workspace roots) 0 (start workspace roots)

def report (sweep : Sweep) : Report := ⟨sweep.visits.flatMap Visit.links⟩

end Sweep

structure Marking where
  marks : Marks
  report? : Option Report
deriving DecidableEq

namespace Workspace

def markBy (workspace : Workspace) (compilation : Compilation) (schedule : Schedule) (record : Bool)
    (roots : List Node) : Except Fault Marking × Workspace :=
  match Sweep.run compilation schedule workspace roots with
  | .error halt => (.error halt.fault, halt.workspace)
  | .ok sweep =>
    (.ok ⟨sweep.marks, if record then some sweep.report else none⟩, sweep.workspace)

def mark (workspace : Workspace) (compilation : Compilation) (settings : Settings)
    (processors : Nat) (roots : List Node) : Except Fault Marking × Workspace :=
  workspace.markBy compilation (settings.schedule processors) settings.record roots

end Workspace

end ArtifactGraph
