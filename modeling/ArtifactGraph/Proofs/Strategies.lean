import ArtifactGraph.Proofs.Closure

set_option autoImplicit false

namespace ArtifactGraph

structure Marking.Agrees (one another : Marking) (first second : Workspace) : Prop where
  marked : ∀ key, key ∈ one.marks.keys ↔ key ∈ another.marks.keys
  rooted : ∀ key, one.marks.isRoot key = another.marks.isRoot key
  registered : ∀ key, first.registry.contains key = second.registry.contains key
  filled : ∀ node, first.edges.get? node = second.edges.get? node
  read : ∀ method, first.read.count method = second.read.count method
  reported : Option.Rel (fun left right => left.links.Perm right.links) one.report? another.report?

namespace Compilation

def visitOf (compilation : Compilation) (node : Node) : Visit :=
  ⟨node, (compilation.needs [] node.key).toOption.getD []⟩

end Compilation

namespace Sweep

theorem complete_nodes (compilation : Compilation) (initial : Workspace) (roots : List Node)
    (final : Sweep) (complete : Complete compilation initial roots final) (node : Node) :
    node ∈ final.marks.nodes ↔
      node.home = initial.registry.number ∧ compilation.Reaches (roots.map (·.key)) node.key := by
  have home : ∀ other ∈ final.marks.nodes, other.home = initial.registry.number := by
    intro other member
    have held := (Registry.lookup_self_iff _ _).mp (complete.traced.held other member)
    exact held.2.trans complete.accounted.number
  rw [← complete_keys compilation initial roots final complete, Marks.mem_keys_iff]
  constructor
  · intro member
    exact ⟨home node member, node, member, rfl⟩
  · rintro ⟨here, other, member, same⟩
    obtain ⟨otherHome, otherKey⟩ := other
    obtain ⟨nodeHome, nodeKey⟩ := node
    simp only at here same
    rw [here, ← home _ member, ← same]
    exact member

theorem complete_visits (compilation : Compilation) (initial : Workspace) (roots : List Node)
    (final : Sweep) (complete : Complete compilation initial roots final) :
    final.visits = (final.visits.map (·.node)).map compilation.visitOf := by
  rw [List.map_map]
  refine (List.map_id' _).symm.trans (List.map_congr_left ?_)
  intro visit member
  obtain ⟨ruled, _⟩ := complete.traced.followed visit member
  simp [Compilation.visitOf, ruled, Except.toOption]

section Agreement

variable (compilation : Compilation) (initial : Workspace) (roots : List Node) (one another : Sweep)
  (first : Complete compilation initial roots one) (second : Complete compilation initial roots another)

include first second

theorem complete_nodes_perm : one.marks.nodes.Perm another.marks.nodes := by
  refine (List.perm_ext_iff_of_nodup (one.marks.nodes_once first.tally.once)
    (another.marks.nodes_once second.tally.once)).mpr fun node => ?_
  rw [complete_nodes compilation initial roots one first,
    complete_nodes compilation initial roots another second]

theorem complete_visits_perm : one.visits.Perm another.visits := by
  rw [complete_visits compilation initial roots one first,
    complete_visits compilation initial roots another second]
  refine List.Perm.map _ ?_
  exact (complete_visited compilation initial roots one first).trans
    ((complete_nodes_perm compilation initial roots one another first second).trans
      (complete_visited compilation initial roots another second).symm)

theorem complete_filled (node : Node) :
    one.workspace.edges.get? node = another.workspace.edges.get? node := by
  have visits := complete_visits_perm compilation initial roots one another first second
  by_cases visited : node ∈ one.visits.map (·.node)
  · obtain ⟨visit, member, rfl⟩ := List.mem_map.mp visited
    rw [first.accounted.filled visit member,
      second.accounted.filled visit (visits.mem_iff.mp member)]
  · have unvisited := visited
    rw [(visits.map (·.node)).mem_iff] at unvisited
    rw [first.accounted.kept node visited, second.accounted.kept node unvisited]

theorem complete_agrees (record : Bool) :
    Marking.Agrees ⟨one.marks, if record then some one.report else none⟩
      ⟨another.marks, if record then some another.report else none⟩ one.workspace another.workspace := by
  have visits := complete_visits_perm compilation initial roots one another first second
  have marked : ∀ key, key ∈ one.marks.keys ↔ key ∈ another.marks.keys := fun key => by
    rw [complete_keys compilation initial roots one first,
      complete_keys compilation initial roots another second]
  refine ⟨marked, fun key => ?_, fun key => ?_,
    complete_filled compilation initial roots one another first second, fun method => ?_, ?_⟩
  · rw [Bool.eq_iff_iff, first.accounted.rooted, second.accounted.rooted]
  · rw [Bool.eq_iff_iff, first.accounted.registered, second.accounted.registered, marked]
  · rw [first.accounted.read, second.accounted.read]
    exact ((visits.flatMap_right _).append_left initial.read).count_eq method
  · cases record with
    | false => exact .none
    | true => exact .some (visits.flatMap_right Visit.links)

end Agreement

end Sweep

namespace Session

theorem frontier_agrees_with_worklist (bodies : Bodies) (steady : bodies.Steady) (site : Site)
    (history : List Command) (roots : List Node) (known : (after bodies site history).Holds roots)
    (record : Bool) (order : Nat → List Node → List Node)
    (complete : ∀ round pending, (order round pending).Perm pending) :
    let session := after bodies site history
    let compilation := session.compilation bodies
    let frontier := session.workspace.markBy compilation (.frontier order complete) record roots
    let worklist := session.workspace.markBy compilation .worklist record roots
    ((∃ marking, frontier.1 = .ok marking) ↔ ∃ marking, worklist.1 = .ok marking) ∧
    ∀ one another, frontier.1 = .ok one → worklist.1 = .ok another →
      one.Agrees another frontier.2 worklist.2 := by
  intro session compilation frontier worklist
  have closed := after_closed bodies site history
  have faithful := after_faithful bodies steady site history
  constructor
  · rw [Workspace.mark_by_done_iff, Workspace.mark_by_done_iff,
      Sweep.run_done_iff compilation steady _ _ roots closed faithful known,
      Sweep.run_done_iff compilation steady _ _ roots closed faithful known]
  · intro one another first second
    obtain ⟨left, leftDone, rfl, leftSpace⟩ := session.workspace.mark_by_complete compilation steady
      _ record roots closed faithful known one first
    obtain ⟨right, rightDone, rfl, rightSpace⟩ := session.workspace.mark_by_complete compilation steady
      _ record roots closed faithful known another second
    simp only [frontier, worklist]
    rw [leftSpace, rightSpace]
    exact Sweep.complete_agrees compilation session.workspace roots left right leftDone rightDone record

theorem reversed_agrees_on_self_calling :
    let session := after selfCalling (.sample 0) (selfCallingHistory ++ [.register (.body ⟨0⟩)])
    let compilation := session.compilation selfCalling
    let roots : List Node := [⟨0, .virtualUse ⟨0⟩⟩, ⟨0, .body ⟨0⟩⟩]
    let reversed := Schedule.frontier (fun _ pending => pending.reverse) fun _ _ => List.reverse_perm _
    selfCalling.Steady ∧ session.Holds roots ∧
    ∃ one another, (session.workspace.markBy compilation reversed true roots).1 = .ok one ∧
      (session.workspace.markBy compilation .worklist true roots).1 = .ok another ∧ one ≠ another ∧
      one.Agrees another (session.workspace.markBy compilation reversed true roots).2
        (session.workspace.markBy compilation .worklist true roots).2 := by
  intro session compilation roots reversed
  have steady : selfCalling.Steady := Bodies.of_list_steady _
  have known : session.Holds roots := by decide
  refine ⟨steady, known, _, _, rfl, rfl, by decide, ?_⟩
  exact (frontier_agrees_with_worklist selfCalling steady (.sample 0) _ roots known true _ _).2 _ _ rfl rfl

end Session

end ArtifactGraph
