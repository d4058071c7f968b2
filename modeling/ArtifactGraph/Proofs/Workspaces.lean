import ArtifactGraph.Graph.Workspace
import ArtifactGraph.Proofs.Registries

set_option autoImplicit false

namespace ArtifactGraph

-- The needs of a body do not depend on what was read before it.
def Bodies.Steady (bodies : Bodies) : Prop :=
  ∀ history method, bodies.needs history method = bodies.needs [] method

theorem Bodies.of_list_steady (bodies : List (MethodId × List Edge)) : (Bodies.ofList bodies).Steady :=
  fun _ _ => rfl

namespace Compilation

theorem needs_steady (compilation : Compilation) (steady : compilation.bodies.Steady)
    (history : List MethodId) (key : Key) :
    compilation.needs history key = compilation.needs [] key := by
  cases key with
  | stub made payload => cases made <;> cases payload <;> rfl
  | virtualUse method => rfl
  | body method => exact congrArg Except.ok (steady history method)

theorem needs_total (compilation : Compilation) (history : List MethodId) (key : Key)
    (admitted : compilation.catalog.Admits key) : ∃ edges, compilation.needs history key = .ok edges := by
  obtain ⟨fits, held⟩ := admitted
  cases key with
  | stub made payload =>
      cases made <;> cases payload <;> first | exact ⟨_, rfl⟩ | exact nomatch fits
  | virtualUse method =>
      have bound : method.position < compilation.catalog.methods.size := by
        simp only [Key.payload, Catalog.hasPayload, Catalog.hasMethod, Bool.and_eq_true,
          decide_eq_true_eq] at held
        exact held.2
      obtain ⟨form, stored⟩ := compilation.catalog.methods.get_of_size method.position bound
      have known : compilation.catalog.traits? method = some form.traits := by
        simp [Catalog.traits?, Catalog.method?, stored]
      exact ⟨_, by simp only [needs, known]; rfl⟩
  | body method => exact ⟨_, rfl⟩

theorem needs_extends (compilation : Compilation) (catalog : Catalog)
    (grown : compilation.catalog.Extends catalog) (history : List MethodId) (key : Key)
    (edges : List Edge) (found : compilation.needs history key = .ok edges) :
    Compilation.needs { compilation with catalog } history key = .ok edges := by
  cases key with
  | stub made payload => cases made <;> cases payload <;> exact found
  | virtualUse method =>
      cases stored : compilation.catalog.method? method with
      | none => simp [needs, Catalog.traits?, stored] at found
      | some form =>
          have same := Catalog.extends_method _ _ grown method form stored
          simpa [needs, Catalog.traits?, stored, same] using found
  | body method => exact found

end Compilation

theorem Cells.fill_get_cases {Value : Type} (cells : Cells Value) (node other : Node) (value found : Value)
    (filled : (cells.fill node value).get? other = some found) :
    cells.get? other = some found ∨ (other = node ∧ found = value) := by
  by_cases same : other = node
  · rw [same, Cells.fill_here, Option.some.injEq] at filled
    cases known : cells.get? node with
    | none => exact .inr ⟨same, by simpa [known] using filled.symm⟩
    | some old => exact .inl (by simpa [same, known] using filled)
  · rw [Cells.fill_elsewhere cells node other value same] at filled
    exact .inl filled

namespace Workspace

theorem needs_cases (workspace : Workspace) (compilation : Compilation) (node : Node) :
    (∃ edges, workspace.edges.get? node = some edges ∧
      workspace.needs compilation node = (.ok edges, workspace)) ∨
    (workspace.edges.get? node = none ∧
      ∃ fault, compilation.needs workspace.read node.key = .error fault ∧
        workspace.needs compilation node =
          (.error fault, { workspace with read := workspace.read ++ node.key.bodyOf?.toList })) ∨
    (workspace.edges.get? node = none ∧
      ∃ edges, compilation.needs workspace.read node.key = .ok edges ∧
      ∃ fault, (workspace.registry.registerAll compilation.catalog (edges.map (·.target))).1 = .error fault ∧
        workspace.needs compilation node =
          (.error fault, { workspace with
            registry := (workspace.registry.registerAll compilation.catalog (edges.map (·.target))).2
            read := workspace.read ++ node.key.bodyOf?.toList })) ∨
    (workspace.edges.get? node = none ∧
      ∃ edges, compilation.needs workspace.read node.key = .ok edges ∧
        (workspace.registry.registerAll compilation.catalog (edges.map (·.target))).1 = .ok () ∧
        workspace.needs compilation node =
          (.ok edges, { workspace with
            registry := (workspace.registry.registerAll compilation.catalog (edges.map (·.target))).2
            read := workspace.read ++ node.key.bodyOf?.toList
            edges := workspace.edges.fill node edges })) := by
  cases known : workspace.edges.get? node with
  | some edges => exact .inl ⟨edges, rfl, by simp only [needs, known]⟩
  | none =>
      cases ruled : compilation.needs workspace.read node.key with
      | error fault => exact .inr (.inl ⟨rfl, fault, rfl, by simp only [needs, known, ruled]⟩)
      | ok edges =>
          cases asked : workspace.registry.registerAll compilation.catalog (edges.map (·.target)) with
          | mk answer registry =>
              cases answer with
              | error fault =>
                  exact .inr (.inr (.inl ⟨rfl, edges, rfl, fault, by rw [asked],
                    by simp only [needs, known, ruled, asked]⟩))
              | ok done =>
                  exact .inr (.inr (.inr ⟨rfl, edges, rfl, by rw [asked],
                    by simp only [needs, known, ruled, asked]⟩))

structure Closed (catalog : Catalog) (workspace : Workspace) : Prop where
  admitted : ∀ key, workspace.registry.contains key = true → catalog.Admits key
  registered : ∀ node edges, workspace.edges.get? node = some edges →
    ∀ edge ∈ edges, workspace.registry.contains edge.target = true

def Faithful (compilation : Compilation) (workspace : Workspace) : Prop :=
  ∀ node edges, workspace.edges.get? node = some edges → compilation.needs [] node.key = .ok edges

theorem closed_extends (workspace : Workspace) (a b : Catalog) (grown : a.Extends b)
    (closed : workspace.Closed a) : workspace.Closed b :=
  ⟨fun key held => Catalog.extends_admits a b grown key (closed.admitted key held), closed.registered⟩

theorem faithful_extends (workspace : Workspace) (compilation : Compilation) (catalog : Catalog)
    (grown : compilation.catalog.Extends catalog) (faithful : workspace.Faithful compilation) :
    workspace.Faithful { compilation with catalog } :=
  fun node edges filled =>
    compilation.needs_extends catalog grown [] node.key edges (faithful node edges filled)

theorem register_edges (workspace : Workspace) (catalog : Catalog) (key : Key) :
    (workspace.register catalog key).2 =
      { workspace with registry := (workspace.registry.register catalog key).2 } :=
  rfl

theorem register_closed (workspace : Workspace) (catalog : Catalog) (key : Key)
    (closed : workspace.Closed catalog) : (workspace.register catalog key).2.Closed catalog := by
  rw [register_edges]
  refine ⟨?_, ?_⟩
  · intro query held
    rcases workspace.registry.register_adds catalog key query held with old | ⟨same, admitted⟩
    · exact closed.admitted query old
    · exact same ▸ admitted
  · intro node edges filled edge member
    exact workspace.registry.register_keeps catalog key edge.target
      (closed.registered node edges filled edge member)

theorem needs_closed (workspace : Workspace) (compilation : Compilation) (node : Node)
    (closed : workspace.Closed compilation.catalog) :
    (workspace.needs compilation node).2.Closed compilation.catalog := by
  have admitted : ∀ keys query,
      (workspace.registry.registerAll compilation.catalog keys).2.contains query = true →
      compilation.catalog.Admits query := by
    intro keys query held
    rcases workspace.registry.register_all_adds compilation.catalog keys query held with old | ⟨_, new⟩
    · exact closed.admitted query old
    · exact new
  have registered : ∀ keys other edges, workspace.edges.get? other = some edges → ∀ edge ∈ edges,
      (workspace.registry.registerAll compilation.catalog keys).2.contains edge.target = true :=
    fun keys other edges filled edge member =>
      workspace.registry.register_all_keeps _ keys _ (closed.registered other edges filled edge member)
  rcases workspace.needs_cases compilation node with
    ⟨edges, _, result⟩ | ⟨_, _, _, result⟩ | ⟨_, edges, _, _, _, result⟩ |
    ⟨_, edges, _, accepted, result⟩ <;> rw [result]
  · exact closed
  · exact ⟨closed.admitted, closed.registered⟩
  · exact ⟨admitted _, registered _⟩
  · refine ⟨admitted _, ?_⟩
    intro other found filled edge member
    rcases Cells.fill_get_cases workspace.edges node other edges found filled with old | ⟨_, same⟩
    · exact registered _ other found old edge member
    · rw [same] at member
      exact workspace.registry.register_all_ok compilation.catalog _ accepted edge.target
        (List.mem_map_of_mem member)

theorem needs_faithful (workspace : Workspace) (compilation : Compilation)
    (steady : compilation.bodies.Steady) (node : Node) (faithful : workspace.Faithful compilation) :
    (workspace.needs compilation node).2.Faithful compilation := by
  rcases workspace.needs_cases compilation node with
    ⟨edges, _, result⟩ | ⟨_, _, _, result⟩ | ⟨_, edges, _, _, _, result⟩ |
    ⟨_, edges, ruled, _, result⟩ <;> rw [result]
  · exact faithful
  · exact faithful
  · exact faithful
  · intro other found filled
    rcases Cells.fill_get_cases workspace.edges node other edges found filled with old | ⟨here, same⟩
    · exact faithful other found old
    · rw [here, same, ← compilation.needs_steady steady workspace.read node.key, ruled]

theorem needs_ok (workspace : Workspace) (compilation : Compilation) (node : Node) (edges : List Edge)
    (closed : workspace.Closed compilation.catalog)
    (found : (workspace.needs compilation node).1 = .ok edges) :
    ∀ edge ∈ edges, (workspace.needs compilation node).2.registry.contains edge.target = true := by
  have after := workspace.needs_closed compilation node closed
  rcases workspace.needs_cases compilation node with
    ⟨old, filled, result⟩ | ⟨_, _, _, result⟩ | ⟨_, _, _, _, _, result⟩ | ⟨empty, old, _, _, result⟩ <;>
    rw [result] at found after ⊢
  · rw [← Except.ok.inj found]
    exact closed.registered node old filled
  · exact nomatch found
  · exact nomatch found
  · rw [← Except.ok.inj found]
    refine after.registered node old ?_
    rw [Cells.fill_here, empty]
    rfl

theorem needs_registry (compilation : Compilation) (keeps : Registry → Prop)
    (step : ∀ registry key, keeps registry → keeps (registry.register compilation.catalog key).2)
    (workspace : Workspace) (node : Node) (now : keeps workspace.registry) :
    keeps (workspace.needs compilation node).2.registry := by
  have all := fun keys => Registry.register_all_induction compilation.catalog keeps step workspace.registry keys now
  rcases workspace.needs_cases compilation node with
    ⟨_, _, result⟩ | ⟨_, _, _, result⟩ | ⟨_, _, _, _, _, result⟩ | ⟨_, _, _, _, result⟩ <;> rw [result]
  · exact now
  · exact now
  · exact all _
  · exact all _

theorem needs_number (workspace : Workspace) (compilation : Compilation) (node : Node) :
    (workspace.needs compilation node).2.registry.number = workspace.registry.number := by
  refine needs_registry compilation (fun after => after.number = workspace.registry.number) ?_ workspace node rfl
  intro after key same
  rw [Registry.register_number, same]

theorem needs_keeps_held (workspace : Workspace) (compilation : Compilation) (node : Node) (key : Key)
    (held : workspace.registry.contains key = true) :
    (workspace.needs compilation node).2.registry.contains key = true := by
  refine needs_registry compilation (fun after => after.contains key = true) ?_ workspace node held
  exact fun after other stays => after.register_keeps compilation.catalog other key stays

theorem needs_keeps_filled (workspace : Workspace) (compilation : Compilation) (node other : Node)
    (edges : List Edge) (filled : workspace.edges.get? other = some edges) :
    (workspace.needs compilation node).2.edges.get? other = some edges := by
  rcases workspace.needs_cases compilation node with
    ⟨_, _, result⟩ | ⟨_, _, _, result⟩ | ⟨_, _, _, _, _, result⟩ | ⟨empty, found, _, _, result⟩ <;> rw [result]
  · exact filled
  · exact filled
  · exact filled
  · have different : other ≠ node := fun same => nomatch (same ▸ filled).symm.trans empty
    rw [Cells.fill_elsewhere _ node other found different]
    exact filled

theorem needs_refused (workspace : Workspace) (compilation : Compilation) (node : Node) (fault : Fault)
    (admitted : compilation.catalog.Admits node.key)
    (refused : (workspace.needs compilation node).1 = .error fault) :
    ∃ edges, compilation.needs workspace.read node.key = .ok edges ∧
      ∃ edge ∈ edges, ¬ compilation.catalog.Admits edge.target := by
  rcases workspace.needs_cases compilation node with
    ⟨_, _, result⟩ | ⟨_, _, ruled, _⟩ | ⟨_, edges, ruled, other, asked, _⟩ | ⟨_, _, _, _, result⟩
  · exact nomatch result ▸ refused
  · obtain ⟨edges, total⟩ := compilation.needs_total workspace.read node.key admitted
    exact nomatch total.symm.trans ruled
  · refine ⟨edges, ruled, ?_⟩
    apply Classical.byContradiction
    intro none
    have accepted := (workspace.registry.register_all_accepts compilation.catalog
      (edges.map (·.target))).mpr (by
        intro key member
        obtain ⟨edge, found, rfl⟩ := List.mem_map.mp member
        exact .inr (Classical.byContradiction fun bad => none ⟨edge, found, bad⟩))
    exact nomatch accepted.symm.trans asked
  · exact nomatch result ▸ refused

theorem needs_filled (workspace : Workspace) (compilation : Compilation) (node : Node) (edges : List Edge)
    (filled : workspace.edges.get? node = some edges) :
    workspace.needs compilation node = (.ok edges, workspace) := by
  simp only [needs, filled]

theorem needs_accepted (workspace : Workspace) (compilation : Compilation) (node : Node) (edges : List Edge)
    (empty : workspace.edges.get? node = none)
    (ruled : compilation.needs workspace.read node.key = .ok edges)
    (welcome : ∀ edge ∈ edges, compilation.catalog.Admits edge.target) :
    (workspace.needs compilation node).1 = .ok edges := by
  have accepted := (workspace.registry.register_all_accepts compilation.catalog
    (edges.map (·.target))).mpr (by
      intro key member
      obtain ⟨edge, found, rfl⟩ := List.mem_map.mp member
      exact .inr (welcome edge found))
  rcases workspace.needs_cases compilation node with
    ⟨_, filled, _⟩ | ⟨_, _, refused, _⟩ | ⟨_, other, again, _, refused, _⟩ | ⟨_, other, again, _, result⟩
  · exact nomatch empty.symm.trans filled
  · exact nomatch ruled.symm.trans refused
  · obtain rfl := Except.ok.inj (ruled.symm.trans again)
    exact nomatch accepted.symm.trans refused
  · rw [result, Except.ok.inj (ruled.symm.trans again)]

theorem needs_ruled (workspace : Workspace) (compilation : Compilation)
    (steady : compilation.bodies.Steady) (faithful : workspace.Faithful compilation) (node : Node)
    (edges : List Edge) (found : (workspace.needs compilation node).1 = .ok edges) :
    compilation.needs [] node.key = .ok edges := by
  rcases workspace.needs_cases compilation node with
    ⟨old, filled, result⟩ | ⟨_, _, _, result⟩ | ⟨_, _, _, _, _, result⟩ | ⟨_, old, ruled, _, result⟩ <;>
    rw [result] at found
  · exact Except.ok.inj found ▸ faithful node old filled
  · exact nomatch found
  · exact nomatch found
  · rw [← Except.ok.inj found, ← ruled, compilation.needs_steady steady workspace.read]

theorem needs_adds (workspace : Workspace) (compilation : Compilation) (node : Node) (edges : List Edge)
    (found : (workspace.needs compilation node).1 = .ok edges) (key : Key)
    (held : (workspace.needs compilation node).2.registry.contains key = true) :
    workspace.registry.contains key = true ∨ ∃ edge ∈ edges, edge.target = key := by
  rcases workspace.needs_cases compilation node with
    ⟨_, _, result⟩ | ⟨_, _, _, result⟩ | ⟨_, _, _, _, _, result⟩ | ⟨_, old, _, _, result⟩ <;>
    rw [result] at held found
  · exact .inl held
  · exact nomatch found
  · exact nomatch found
  · rcases workspace.registry.register_all_adds _ _ key held with before | ⟨member, _⟩
    · exact .inl before
    · exact .inr (Except.ok.inj found ▸ List.mem_map.mp member)

theorem needs_contains (workspace : Workspace) (compilation : Compilation) (node : Node)
    (edges : List Edge) (closed : workspace.Closed compilation.catalog)
    (found : (workspace.needs compilation node).1 = .ok edges) (key : Key) :
    (workspace.needs compilation node).2.registry.contains key = true ↔
      workspace.registry.contains key = true ∨ ∃ edge ∈ edges, edge.target = key := by
  constructor
  · exact workspace.needs_adds compilation node edges found key
  · rintro (held | ⟨edge, member, rfl⟩)
    · exact workspace.needs_keeps_held compilation node key held
    · exact workspace.needs_ok compilation node edges closed found edge member

def reads (workspace : Workspace) (node : Node) : List MethodId :=
  if (workspace.edges.get? node).isNone then node.key.bodyOf?.toList else []

theorem mem_reads_iff (workspace : Workspace) (node : Node) (method : MethodId) :
    method ∈ workspace.reads node ↔ node.key = .body method ∧ workspace.edges.get? node = none := by
  cases filled : workspace.edges.get? node with
  | some edges => simp [reads, filled]
  | none => cases shape : node.key <;> simp [reads, filled, shape, Key.bodyOf?, eq_comm]

theorem reads_once (workspace : Workspace) (node : Node) : (workspace.reads node).Nodup := by
  unfold reads
  split
  · cases node.key.bodyOf? <;> simp
  · exact .nil

theorem needs_fills (workspace : Workspace) (compilation : Compilation) (node : Node)
    (edges : List Edge) (found : (workspace.needs compilation node).1 = .ok edges) :
    (workspace.needs compilation node).2.edges.get? node = some edges ∧
    (∀ other, other ≠ node →
      (workspace.needs compilation node).2.edges.get? other = workspace.edges.get? other) ∧
    (workspace.needs compilation node).2.read = workspace.read ++ workspace.reads node := by
  rcases workspace.needs_cases compilation node with
    ⟨old, filled, result⟩ | ⟨_, _, _, result⟩ | ⟨_, _, _, _, _, result⟩ | ⟨empty, old, _, _, result⟩ <;>
    rw [result] at found ⊢
  · refine ⟨Except.ok.inj found ▸ filled, fun _ _ => rfl, ?_⟩
    simp [reads, filled]
  · exact nomatch found
  · exact nomatch found
  · refine ⟨?_, fun other different => Cells.fill_elsewhere _ node other old different, ?_⟩
    · rw [Cells.fill_here, empty, Option.getD_none, Except.ok.inj found]
    · simp [reads, empty]

end Workspace

end ArtifactGraph
