import ArtifactGraph.Proofs.Sweeps
import ArtifactGraph.Proofs.Trails

set_option autoImplicit false

namespace ArtifactGraph

namespace Sweep

theorem follow_all_ok (compilation : Compilation) (source : Node) (edges : List Edge) (sweep after : Sweep)
    (done : edges.foldlM (follow compilation source) sweep = .ok after) :
    ∃ registry, registry.number = sweep.workspace.registry.number ∧
      after = { sweep with
        workspace := { sweep.workspace with registry }
        marks := ⟨sweep.marks.made ++
          sweep.marks.discover sweep.workspace.registry.number source.key edges⟩
        pending := sweep.pending ++
          (sweep.marks.discover sweep.workspace.registry.number source.key edges).map (·.node) } := by
  induction edges generalizing sweep with
  | nil =>
      refine ⟨sweep.workspace.registry, rfl, ?_⟩
      rw [← Except.ok.inj done]
      simp [Marks.discover]
  | cons edge rest ih =>
      rw [List.foldlM_cons] at done
      obtain ⟨next, followed, remaining⟩ := bind_ok _ _ after done
      obtain ⟨registry, number, rfl⟩ := ih next remaining
      rcases follow_cases compilation source sweep edge with
        ⟨held, result⟩ | ⟨fresh, ⟨_, _, result⟩ | ⟨target, accepted, result⟩⟩
      · obtain rfl := Except.ok.inj (result.symm.trans followed)
        exact ⟨registry, number, by rw [Marks.discover_held _ _ _ edge rest held]⟩
      · cases result.symm.trans followed
      · obtain rfl := Except.ok.inj (result.symm.trans followed)
        obtain ⟨rfl, _⟩ := Registry.register_ok _ _ _ _ accepted
        have same : (sweep.workspace.register compilation.catalog edge.target).2.registry.number =
            sweep.workspace.registry.number :=
          sweep.workspace.registry.register_number compilation.catalog edge.target
        have appended := sweep.marks.insert_appends ⟨sweep.workspace.registry.number, edge.target⟩
          (some ⟨source.key, edge.reason⟩) fresh
        refine ⟨registry, number.trans same, ?_⟩
        simp only [Registry.register_number, appended, Marks.discover_fresh _ _ _ edge rest fresh, List.append_assoc,
          List.map_cons, List.singleton_append, Workspace.register_edges]

theorem visit_ok (compilation : Compilation) (sweep after : Sweep) (node : Node)
    (done : sweep.visit compilation node = .ok after) :
    ∃ edges found registry, (sweep.workspace.needs compilation node).1 = .ok edges ∧
      found = sweep.marks.discover sweep.workspace.registry.number node.key edges ∧
      registry.number = sweep.workspace.registry.number ∧
      after =
        { workspace := { (sweep.workspace.needs compilation node).2 with registry }
          marks := ⟨sweep.marks.made ++ found⟩
          pending := sweep.pending ++ found.map (·.node)
          visits := sweep.visits ++ [⟨node, edges⟩] } := by
  rcases visit_cases compilation sweep node with ⟨_, _, result⟩ | ⟨edges, answered, result⟩
  · exact nomatch result.symm.trans done
  · obtain ⟨registry, number, rfl⟩ := follow_all_ok compilation node edges _ after (result.symm.trans done)
    have same := sweep.workspace.needs_number compilation node
    refine ⟨edges, _, registry, answered, rfl, number.trans same, ?_⟩
    simp only [same]

def Stores (sweep : Sweep) : Prop :=
  ∀ visit ∈ sweep.visits, sweep.workspace.edges.get? visit.node = some visit.edges

theorem visit_stores (compilation : Compilation) (sweep after : Sweep) (node : Node) (stores : sweep.Stores)
    (done : sweep.visit compilation node = .ok after) : after.Stores := by
  obtain ⟨edges, found, registry, answered, _, _, rfl⟩ := visit_ok compilation sweep after node done
  obtain ⟨filled, _⟩ := sweep.workspace.needs_fills compilation node edges answered
  intro visit member
  rcases List.mem_append.mp member with old | new
  · exact sweep.workspace.needs_keeps_filled compilation node _ _ (stores visit old)
  · rw [List.mem_singleton.mp new]
    exact filled

structure Sourced (home : Nat) (roots : List Node) (sweep : Sweep) : Prop where
  number : sweep.workspace.registry.number = home
  homes : ∀ node ∈ sweep.marks.nodes, node.home = home
  rooted : ∀ key, sweep.marks.isRoot key = true ↔ key ∈ roots.map (·.key)
  visited : ∀ visit ∈ sweep.visits, visit.node ∈ sweep.marks.nodes
  covered : ∀ visit ∈ sweep.visits, ∀ edge ∈ visit.edges, edge.target ∈ sweep.marks.keys
  stored : ∀ visit ∈ sweep.visits, sweep.workspace.edges.get? visit.node = some visit.edges
  led : ∀ key origin, sweep.marks.origin? key = some origin → ∃ visit ∈ sweep.visits,
    visit.node.key = origin.source ∧
      visit.edges.find? (fun edge => edge.target == key) = some ⟨key, origin.reason⟩

theorem sourced_founded (home : Nat) (roots : List Node) (sweep : Sweep)
    (sourced : Sourced home roots sweep) : sweep.marks.Founded := by
  intro key origin found
  obtain ⟨visit, member, source, _⟩ := sourced.led key origin found
  exact source ▸ (sweep.marks.mem_keys_iff _).mpr ⟨visit.node, sourced.visited visit member, rfl⟩

theorem sourced_start (workspace : Workspace) (roots : List Node)
    (homes : ∀ root ∈ roots, root.home = workspace.registry.number) :
    Sourced workspace.registry.number roots (start workspace roots) where
  number := rfl
  homes node member := homes node (Marks.of_roots_nodes roots node member)
  rooted := Marks.is_root_of_roots roots
  visited _ member := nomatch member
  covered _ member := nomatch member
  stored _ member := nomatch member
  led key origin found := by
    have marked := (Marks.ofRoots roots).origin_marked key origin found
    have root := (Marks.is_root_of_roots roots key).mpr ((Marks.of_roots_keys roots key).mp marked)
    exact nomatch (((Marks.ofRoots roots).is_root_iff key).mp root).2.symm.trans found

theorem sourced_take (home : Nat) (roots : List Node) (sweep : Sweep) (later : List Node)
    (sourced : Sourced home roots sweep) : Sourced home roots { sweep with pending := later } where
  number := sourced.number
  homes := sourced.homes
  rooted := sourced.rooted
  visited := sourced.visited
  covered := sourced.covered
  stored := sourced.stored
  led := sourced.led

theorem sourced_visit (compilation : Compilation) (home : Nat) (roots : List Node) (node : Node)
    (sweep after : Sweep) (marked : node ∈ sweep.marks.nodes) (sourced : Sourced home roots sweep)
    (done : sweep.visit compilation node = .ok after) : Sourced home roots after := by
  obtain ⟨edges, found, registry, answered, here, number, rfl⟩ := visit_ok compilation sweep after node done
  refine ⟨number.trans sourced.number, ?_, ?_, ?_, ?_, ?_, ?_⟩
  · intro other member
    rw [here] at member
    rcases Marks.discover_nodes _ _ _ edges other member with old | ⟨edge, _, rfl⟩
    · exact sourced.homes other old
    · exact sourced.number
  · intro key
    rw [here, Marks.discover_roots]
    exact sourced.rooted key
  · intro visit member
    rw [Marks.nodes, List.map_append]
    apply List.mem_append_left
    rcases List.mem_append.mp member with old | new
    · exact sourced.visited visit old
    · exact List.mem_singleton.mp new ▸ marked
  · intro visit member edge edgeMember
    rw [here]
    apply (Marks.discover_keys _ _ _ edges _).mpr
    rcases List.mem_append.mp member with old | new
    · exact .inl (sourced.covered visit old edge edgeMember)
    · rw [List.mem_singleton.mp new] at edgeMember
      exact .inr ⟨edge, edgeMember, rfl⟩
  · exact visit_stores compilation sweep _ node sourced.stored done
  · intro key origin given
    by_cases old : key ∈ sweep.marks.keys
    · rw [sweep.marks.origin_kept found key old] at given
      obtain ⟨visit, member, led⟩ := sourced.led key origin given
      exact ⟨visit, List.mem_append_left _ member, led⟩
    · have new := Marks.origin_marked _ key origin given
      rw [here] at given new
      obtain ⟨edge, first, origins⟩ := sweep.marks.discover_origin _ _ edges key old new
      obtain rfl := Option.some.inj (origins.symm.trans given)
      refine ⟨⟨node, edges⟩, by simp, rfl, ?_⟩
      have target : edge.target = key := by simpa using List.find?_some first
      rw [first, ← target]

end Sweep

end ArtifactGraph
