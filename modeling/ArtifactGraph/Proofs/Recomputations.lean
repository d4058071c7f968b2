import ArtifactGraph.Proofs.Determinism

set_option autoImplicit false

namespace ArtifactGraph

namespace Workspace

def rework (workspace : Workspace) (compilation : Compilation) (node : Node) :
    Except Fault (List Edge) × Workspace :=
  Workspace.needs { workspace with edges := {} } compilation node

theorem rework_filled (workspace : Workspace) (compilation : Compilation)
    (steady : compilation.bodies.Steady) (closed : workspace.Closed compilation.catalog)
    (faithful : workspace.Faithful compilation) (node : Node) (edges : List Edge)
    (filled : workspace.edges.get? node = some edges) :
    (workspace.rework compilation node).1 = .ok edges ∧
      (workspace.rework compilation node).2.registry = workspace.registry := by
  have ruled : compilation.needs workspace.read node.key = .ok edges := by
    rw [compilation.needs_steady steady]
    exact faithful node edges filled
  have held : ∀ key ∈ edges.map (·.target), workspace.registry.contains key = true := by
    intro key member
    obtain ⟨edge, edgeMember, rfl⟩ := List.mem_map.mp member
    exact closed.registered node edges filled edge edgeMember
  have asked := workspace.registry.register_all_held compilation.catalog _ held
  have empty : ({} : Cells (List Edge)).get? node = none := rfl
  simp only [rework, needs, empty, ruled, asked, and_self]

end Workspace

namespace Session

structure Current (session : Session) (bodies : Bodies) (node : Node) : Prop where
  named : ∀ name, session.workspace.names.get? node = some name → session.catalog.symbol node.key = .ok name
  worked : ∀ edges, session.workspace.edges.get? node = some edges →
    (session.workspace.rework (session.compilation bodies) node).1 = .ok edges
  registered : ∀ edges, session.workspace.edges.get? node = some edges →
    ∀ edge ∈ edges, session.workspace.registry.contains edge.target = true
  idle : ∀ edges, session.workspace.edges.get? node = some edges →
    (session.workspace.rework (session.compilation bodies) node).2.registry = session.workspace.registry

theorem cells_current (bodies : Bodies) (steady : bodies.Steady) (site : Site) (history : List Command)
    (node : Node) : (after bodies site history).Current bodies node := by
  have closed := after_closed bodies site history
  have faithful := after_faithful bodies steady site history
  have reworked := fun edges => (after bodies site history).workspace.rework_filled
    ((after bodies site history).compilation bodies) steady closed faithful node edges
  refine ⟨?_, ?_, ?_, ?_⟩
  · exact after_coherent bodies site history node
  · exact fun edges filled => (reworked edges filled).1
  · exact closed.registered node
  · exact fun edges filled => (reworked edges filled).2

theorem grown_cells_current :
    let session := after selfCalling (.sample 0) (selfCallingHistory ++
      [.needs ⟨0, .body ⟨0⟩⟩, .name ⟨0, .body ⟨0⟩⟩, .describe (.type (.named "App" "Later" [])),
        .register (.stub .newArray (.type ⟨1⟩))])
    selfCalling.Steady ∧ (session.workspace.names.get? ⟨0, .body ⟨0⟩⟩).isSome = true ∧
      session.workspace.edges.get? ⟨0, .body ⟨0⟩⟩ =
        some [⟨.stub .newObject (.type ⟨0⟩), "new"⟩, ⟨.stub .virtualCall (.method ⟨0⟩), "call"⟩] ∧
      session.Current selfCalling ⟨0, .body ⟨0⟩⟩ := by
  intro session
  have steady : selfCalling.Steady := Bodies.of_list_steady _
  exact ⟨steady, rfl, rfl, cells_current selfCalling steady (.sample 0) _ _⟩

end Session

end ArtifactGraph
