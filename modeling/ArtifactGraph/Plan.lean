import ArtifactGraph.Marking.Sweep
import ArtifactGraph.SymbolTable

set_option autoImplicit false

namespace ArtifactGraph

structure Plan where
  marks : Marks
  table : SymbolTable
  report? : Option Report
deriving DecidableEq

namespace Workspace

def planBy (workspace : Workspace) (compilation : Compilation) (schedule : Schedule) (record : Bool)
    (roots : List Node) : Except Fault Plan × Workspace :=
  match workspace.markBy compilation schedule record roots with
  | (.error fault, workspace) => (.error fault, workspace)
  | (.ok marking, workspace) =>
    match SymbolTable.ofNodes workspace.names compilation.catalog marking.marks.nodes with
    | (.error fault, names) => (.error fault, { workspace with names })
    | (.ok table, names) =>
      (.ok ⟨marking.marks, table, marking.report?⟩, { workspace with names })

def plan (workspace : Workspace) (compilation : Compilation) (settings : Settings)
    (processors : Nat) (roots : List Node) : Except Fault Plan × Workspace :=
  workspace.planBy compilation (settings.schedule processors) settings.record roots

end Workspace

end ArtifactGraph
