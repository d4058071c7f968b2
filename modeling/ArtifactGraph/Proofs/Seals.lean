import ArtifactGraph.Proofs.Explanations

set_option autoImplicit false

namespace ArtifactGraph

namespace Cells

theorem steps_kept (before after : Cells (List Edge)) (home : Nat) (roots : List Key)
    (kept : ∀ node edges, before.get? node = some edges → after.get? node = some edges) (count : Nat) (key : Key)
    (steps : before.Steps home roots count key) : after.Steps home roots count key := by
  induction steps with
  | root key member => exact .root key member
  | next count source list edge _ filled member ih => exact .next count source list edge ih (kept _ _ filled) member

def Agree {Value : Type} (one another : Cells Value) : Prop :=
  ∀ node first second, one.get? node = some first → another.get? node = some second → first = second

end Cells

structure Workspace.Sealed (workspace : Workspace) (keys : List Key) : Prop where
  held : ∀ key ∈ keys, workspace.registry.contains key = true
  filled : ∀ key ∈ keys, ∃ edges, workspace.edges.get? ⟨workspace.registry.number, key⟩ = some edges ∧
    ∀ edge ∈ edges, edge.target ∈ keys

theorem Workspace.sealed_steps (workspace : Workspace) (cells : Cells (List Edge))
    (agree : cells.Agree workspace.edges) (keys roots : List Key) (whole : workspace.Sealed keys)
    (rooted : ∀ key ∈ roots, key ∈ keys) (count : Nat) (key : Key)
    (steps : cells.Steps workspace.registry.number roots count key) : key ∈ keys := by
  induction steps with
  | root key member => exact rooted key member
  | next count source list edge _ filled member ih =>
      obtain ⟨edges, here, within⟩ := whole.filled source ih
      obtain rfl := agree _ list edges filled here
      exact within edge member

namespace Sweep

-- A target that is passed over is marked, and what is marked is held.
theorem follow_all_registers (compilation : Compilation) (source : Node) (edges : List Edge) (sweep after : Sweep)
    (held : ∀ key ∈ sweep.marks.keys, sweep.workspace.registry.contains key = true)
    (done : edges.foldlM (follow compilation source) sweep = .ok after) (key : Key) :
    after.workspace.registry.contains key = true ↔
      sweep.workspace.registry.contains key = true ∨ ∃ edge ∈ edges, edge.target = key := by
  induction edges generalizing sweep with
  | nil =>
      rw [← Except.ok.inj done]
      simp
  | cons edge rest ih =>
      rw [List.foldlM_cons] at done
      obtain ⟨next, followed, remaining⟩ := bind_ok _ _ after done
      rcases follow_cases compilation source sweep edge with
        ⟨marked, result⟩ | ⟨_, ⟨_, _, result⟩ | ⟨target, accepted, result⟩⟩ <;> rw [result] at followed
      · obtain rfl := Except.ok.inj followed
        have known := held edge.target ((sweep.marks.contains_iff_mem _).mp marked)
        rw [ih sweep held remaining, List.exists_mem_cons_iff]
        constructor
        · exact fun either => either.imp_right .inr
        · rintro (old | rfl | later)
          · exact .inl old
          · exact .inl known
          · exact .inr later
      · cases followed
      · obtain rfl := Except.ok.inj followed
        have grown := fun query => sweep.workspace.registry.register_contains compilation.catalog edge.target query
          target accepted
        rw [ih _ ?_ remaining, Workspace.register_edges, grown, List.exists_mem_cons_iff, or_assoc]
        intro query member
        rw [← Marks.contains_iff_mem, Marks.contains_insert, Bool.or_eq_true, beq_iff_eq, Marks.contains_iff_mem,
          (Registry.register_ok _ _ _ _ accepted).1] at member
        rw [Workspace.register_edges, grown]
        exact member.imp_left (held query)

theorem visit_registers (compilation : Compilation) (sweep after : Sweep) (node : Node) (edges : List Edge)
    (held : ∀ key ∈ sweep.marks.keys, sweep.workspace.registry.contains key = true)
    (answered : (sweep.workspace.needs compilation node).1 = .ok edges)
    (done : sweep.visit compilation node = .ok after) (key : Key) :
    after.workspace.registry.contains key = true ↔
      sweep.workspace.registry.contains key = true ∨ ∃ edge ∈ edges, edge.target = key := by
  have keeps := sweep.workspace.needs_keeps_held compilation node
  rcases visit_cases compilation sweep node with ⟨_, refused, _⟩ | ⟨others, again, result⟩
  · cases answered.symm.trans refused
  · obtain rfl := Except.ok.inj (answered.symm.trans again)
    rw [follow_all_registers compilation node edges { sweep with
        workspace := (sweep.workspace.needs compilation node).2
        visits := sweep.visits ++ [⟨node, edges⟩] } after
      (fun query member => keeps query (held query member)) (result.symm.trans done) key]
    constructor
    · exact fun either => either.elim (sweep.workspace.needs_adds compilation node edges answered key) .inr
    · exact fun either => either.imp_left (keeps key)

structure Stocked (initial : Workspace) (roots : List Node) (sweep : Sweep) : Prop where
  held : ∀ key, sweep.workspace.registry.contains key = true ↔
    initial.registry.contains key = true ∨ key ∈ sweep.marks.keys
  led : ∀ key ∈ sweep.marks.keys,
    ∃ count, sweep.workspace.edges.Steps initial.registry.number (roots.map (·.key)) count key

theorem stocked_start (workspace : Workspace) (roots : List Node)
    (known : ∀ root ∈ roots, workspace.registry.lookup root.key = some root) :
    Stocked workspace roots (start workspace roots) where
  held key := by
    refine ⟨.inl, ?_⟩
    rintro (held | marked)
    · exact held
    · obtain ⟨root, member, rfl⟩ := List.mem_map.mp ((Marks.of_roots_keys roots key).mp marked)
      exact ((Registry.lookup_self_iff _ _).mp (known root member)).1
  led key member := ⟨0, .root key ((Marks.of_roots_keys roots key).mp member)⟩

theorem stocked_visit (compilation : Compilation) (initial : Workspace) (roots : List Node) (node : Node)
    (sweep after : Sweep) (marked : node ∈ sweep.marks.nodes)
    (sourced : Sourced initial.registry.number roots sweep) (stocked : Stocked initial roots sweep)
    (done : sweep.visit compilation node = .ok after) : Stocked initial roots after := by
  have held : ∀ key ∈ sweep.marks.keys, sweep.workspace.registry.contains key = true :=
    fun key member => (stocked.held key).mpr (.inr member)
  obtain ⟨edges, found, registry, answered, here, _, shape⟩ := visit_ok compilation sweep after node done
  have registered := visit_registers compilation sweep after node edges held answered done
  obtain ⟨filled, _⟩ := sweep.workspace.needs_fills compilation node edges answered
  rw [shape] at registered ⊢
  refine ⟨?_, ?_⟩
  · intro key
    rw [registered, stocked.held, here, Marks.discover_keys, or_assoc]
  · intro key member
    have lift := fun count query => Cells.steps_kept sweep.workspace.edges _ initial.registry.number
      (roots.map (·.key)) (sweep.workspace.needs_keeps_filled compilation node) count query
    rw [here] at member
    rcases (Marks.discover_keys _ _ _ edges key).mp member with old | ⟨edge, edgeMember, rfl⟩
    · obtain ⟨count, steps⟩ := stocked.led key old
      exact ⟨count, lift count key steps⟩
    · obtain ⟨count, steps⟩ := stocked.led node.key ((sweep.marks.mem_keys_iff _).mpr ⟨node, marked, rfl⟩)
      rw [← sourced.homes node marked]
      have lifted := sourced.homes node marked ▸ lift count _ steps
      exact ⟨count + 1, .next count node.key edges edge lifted filled edgeMember⟩

structure Settled (initial : Workspace) (roots : List Node) (final : Sweep) : Prop where
  number : final.workspace.registry.number = initial.registry.number
  homes : ∀ node ∈ final.marks.nodes, node.home = initial.registry.number
  rooted : ∀ root ∈ roots, root.key ∈ final.marks.keys
  stocked : Stocked initial roots final
  whole : final.workspace.Sealed final.marks.keys
  visited : ∀ visit ∈ final.visits, final.workspace.edges.get? visit.node = some visit.edges ∧
    ∀ edge ∈ visit.edges, edge.target ∈ final.marks.keys

theorem run_settled (compilation : Compilation) (schedule : Schedule) (workspace : Workspace) (roots : List Node)
    (known : ∀ root ∈ roots, workspace.registry.lookup root.key = some root) :
    Settles (Settled workspace roots) (fun _ => True) (run compilation schedule workspace roots) := by
  have homes : ∀ root ∈ roots, root.home = workspace.registry.number := fun root member =>
    ((Registry.lookup_self_iff _ root).mp (known root member)).2
  have settled := run_settles_marked compilation schedule workspace roots
    (fun sweep => Sourced workspace.registry.number roots sweep ∧ Stocked workspace roots sweep) (fun _ => True)
    ⟨sourced_start workspace roots homes, stocked_start workspace roots known⟩
    (fun sweep later ⟨sourced, stocked⟩ =>
      ⟨sourced_take _ roots sweep later sourced, stocked.held, stocked.led⟩)
    (fun node sweep marked ⟨sourced, stocked⟩ => by
      cases done : sweep.visit compilation node with
      | error halt => trivial
      | ok after =>
          exact ⟨sourced_visit compilation _ roots node sweep after marked sourced done,
            stocked_visit compilation workspace roots node sweep after marked sourced stocked done⟩)
  refine settles_imp _ _ _ _ settled fun final ⟨⟨sourced, stocked⟩, tally, drained⟩ => ?_
  refine ⟨sourced.number, sourced.homes, ?_, stocked, ⟨fun key member => (stocked.held key).mpr (.inr member), ?_⟩, ?_⟩
  · intro root member
    have rooted := (sourced.rooted root.key).mpr (List.mem_map_of_mem member)
    exact ((final.marks.is_root_iff root.key).mp rooted).1
  · intro key member
    obtain ⟨node, marked, rfl⟩ := (final.marks.mem_keys_iff key).mp member
    have order := tally_visited compilation workspace roots final tally drained
    obtain ⟨visit, visited, rfl⟩ := List.mem_map.mp (order.mem_iff.mpr marked)
    rw [sourced.number, ← sourced.homes visit.node marked]
    exact ⟨visit.edges, sourced.stored visit visited, sourced.covered visit visited⟩
  · intro visit visited
    exact ⟨sourced.stored visit visited, sourced.covered visit visited⟩

end Sweep

namespace Workspace

theorem mark_by_settled (workspace : Workspace) (compilation : Compilation) (schedule : Schedule) (record : Bool)
    (roots : List Node) (known : ∀ root ∈ roots, workspace.registry.lookup root.key = some root)
    (marking : Marking) (done : (workspace.markBy compilation schedule record roots).1 = .ok marking) :
    ∃ final, Sweep.run compilation schedule workspace roots = .ok final ∧ Sweep.Settled workspace roots final ∧
      workspace.markBy compilation schedule record roots = (.ok marking, final.workspace) ∧
      marking = ⟨final.marks, if record then some final.report else none⟩ := by
  have settled := Sweep.run_settled compilation schedule workspace roots known
  rcases workspace.mark_by_cases compilation schedule record roots with
    ⟨halt, _, result⟩ | ⟨final, ran, result⟩ <;> rw [result] at done ⊢
  · cases done
  · rw [ran] at settled
    obtain rfl := Except.ok.inj done
    exact ⟨final, ran, settled, rfl, rfl⟩

-- The workspace may be any, and so may the bodies: cells may have been filled by other
-- bodies, or for another registry.
theorem marking_sealed (workspace : Workspace) (compilation : Compilation) (schedule : Schedule) (record : Bool)
    (roots : List Node) (known : ∀ root ∈ roots, workspace.registry.lookup root.key = some root)
    (marking : Marking) (done : (workspace.markBy compilation schedule record roots).1 = .ok marking) :
    let after := (workspace.markBy compilation schedule record roots).2
    (∀ key, after.registry.contains key = true ↔
      workspace.registry.contains key = true ∨ key ∈ marking.marks.keys) ∧
    ∀ node ∈ marking.marks.nodes, after.registry.lookup node.key = some node ∧
      ∃ edges, after.edges.get? node = some edges ∧ ∀ edge ∈ edges, edge.target ∈ marking.marks.keys := by
  obtain ⟨final, _, settled, result, rfl⟩ :=
    workspace.mark_by_settled compilation schedule record roots known marking done
  rw [result]
  refine ⟨settled.stocked.held, fun node member => ?_⟩
  have marked := (final.marks.mem_keys_iff node.key).mpr ⟨node, member, rfl⟩
  have home : node.home = final.workspace.registry.number := (settled.homes node member).trans settled.number.symm
  obtain ⟨edges, filled, within⟩ := settled.whole.filled node.key marked
  refine ⟨(Registry.lookup_self_iff _ node).mpr ⟨settled.whole.held node.key marked, home⟩, edges, ?_, within⟩
  rw [← home] at filled
  exact filled

theorem lent_cell_sealed :
    let lender := Session.after
      (.ofList [(⟨0⟩, [⟨.stub .cast (.type ⟨0⟩), "cast"⟩, ⟨.virtualUse ⟨0⟩, "use"⟩,
        ⟨.stub .cast (.type ⟨0⟩), "again"⟩])])
      (.sample 1) (Session.selfCallingHistory ++ [.needs ⟨0, .body ⟨0⟩⟩])
    let session := Session.after Session.selfCalling (.sample 0) Session.selfCallingHistory
    let workspace := { session.workspace with edges := lender.workspace.edges }
    let compilation := session.compilation Session.selfCalling
    let roots : List Node := [⟨0, .virtualUse ⟨0⟩⟩]
    (∀ root ∈ roots, workspace.registry.lookup root.key = some root) ∧
    workspace.registry.contains (.stub .cast (.type ⟨0⟩)) = false ∧
    ∃ marking, (workspace.markBy compilation .worklist false roots).1 = .ok marking ∧
      marking.marks.keys = [.virtualUse ⟨0⟩, .body ⟨0⟩, .stub .cast (.type ⟨0⟩)] ∧
      let after := (workspace.markBy compilation .worklist false roots).2
      (∀ key, after.registry.contains key = true ↔
        workspace.registry.contains key = true ∨ key ∈ marking.marks.keys) ∧
      ∀ node ∈ marking.marks.nodes, after.registry.lookup node.key = some node ∧
        ∃ edges, after.edges.get? node = some edges ∧ ∀ edge ∈ edges, edge.target ∈ marking.marks.keys := by
  intro lender session workspace compilation roots
  have known : ∀ root ∈ roots, workspace.registry.lookup root.key = some root := by decide
  refine ⟨known, by decide, _, rfl, by decide, ?_⟩
  exact workspace.marking_sealed compilation .worklist false roots known _ rfl

end Workspace

end ArtifactGraph
