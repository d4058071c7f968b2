import ArtifactGraph.Proofs.Closure
import ArtifactGraph.Proofs.Layers

set_option autoImplicit false

namespace ArtifactGraph

namespace Cells

inductive Steps (edges : Cells (List Edge)) (home : Nat) (roots : List Key) : Nat → Key → Prop where
  | root (key : Key) (member : key ∈ roots) : Steps edges home roots 0 key
  | next (count : Nat) (source : Key) (list : List Edge) (edge : Edge)
      (reached : Steps edges home roots count source)
      (filled : edges.get? ⟨home, source⟩ = some list) (member : edge ∈ list) :
      Steps edges home roots (count + 1) edge.target

structure Explains (edges : Cells (List Edge)) (home : Nat) (roots : List Key) (key : Key)
    (links : List Link) : Prop where
  begins : ∃ first, links.head? = some first ∧ first.source ∈ roots
  linked : links.IsChain fun a b => a.target = b.source
  ends : ∃ last, links.getLast? = some last ∧ last.target = key
  once : (links.map (·.source) ++ [key]).Nodup
  real : ∀ link ∈ links, ∃ list, edges.get? ⟨home, link.source⟩ = some list ∧
    list.find? (fun edge => edge.target == link.target) = some ⟨link.target, link.reason⟩
  leads : edges.Steps home roots links.length key
  least : ∀ count, edges.Steps home roots count key → links.length ≤ count

end Cells

namespace Sweep

section Drained

variable (compilation : Compilation) (initial : Workspace) (roots : List Node) (final : Sweep)
  (graded : Graded compilation initial roots [] final)

include graded

theorem graded_roots (key : Key) (marked : key ∈ final.marks.keys) (missing : final.marks.origin? key = none) :
    key ∈ roots.map (·.key) :=
  (graded.sourced.rooted key).mp ((final.marks.is_root_iff key).mpr ⟨marked, missing⟩)

theorem graded_away (key : Key) (marked : key ∈ final.marks.keys) :
    ∃ distance, final.marks.Away distance key := by
  obtain ⟨_, _, _, layered⟩ := graded.layers
  obtain ⟨distance, _, away⟩ := layered.near key marked
  exact ⟨distance, away⟩

theorem graded_cell (visit : Visit) (member : visit ∈ final.visits) :
    final.workspace.edges.get? ⟨initial.registry.number, visit.node.key⟩ = some visit.edges := by
  rw [← graded.sourced.homes visit.node (graded.sourced.visited visit member)]
  exact graded.sourced.stored visit member

theorem graded_origin (key : Key) (origin : Origin) (found : final.marks.origin? key = some origin) :
    ∃ list, final.workspace.edges.get? ⟨initial.registry.number, origin.source⟩ = some list ∧
      list.find? (fun edge => edge.target == key) = some ⟨key, origin.reason⟩ := by
  obtain ⟨visit, member, source, first⟩ := graded.sourced.led key origin found
  exact ⟨visit.edges, source ▸ graded_cell compilation initial roots final graded visit member, first⟩

theorem graded_steps (key : Key) (links : List Link) (marked : key ∈ final.marks.keys)
    (walk : final.marks.Walk key links) :
    final.workspace.edges.Steps initial.registry.number (roots.map (·.key)) links.length key := by
  induction walk with
  | stop key missing => exact .root key (graded_roots compilation initial roots final graded key marked missing)
  | step key origin links found _ ih =>
      have source := sourced_founded _ roots final graded.sourced key origin found
      obtain ⟨list, filled, first⟩ := graded_origin compilation initial roots final graded key origin found
      rw [List.length_append, List.length_singleton]
      exact .next links.length origin.source list ⟨key, origin.reason⟩ (ih source) filled
        (List.mem_of_find?_eq_some first)

variable (drained : final.pending = [])

include drained

theorem graded_visited (key : Key) (marked : key ∈ final.marks.keys) :
    ∃ visit ∈ final.visits, visit.node.key = key := by
  obtain ⟨node, member, rfl⟩ := (final.marks.mem_keys_iff key).mp marked
  have order := tally_visited compilation initial roots final graded.tally drained
  obtain ⟨visit, visited, rfl⟩ := List.mem_map.mp (order.mem_iff.mpr member)
  exact ⟨visit, visited, rfl⟩

-- No way from a root is shorter than the walk: each edge leads one layer on at most.
theorem graded_least (count : Nat) (key : Key)
    (steps : final.workspace.edges.Steps initial.registry.number (roots.map (·.key)) count key) :
    ∃ distance, distance ≤ count ∧ final.marks.Away distance key := by
  induction steps with
  | root key member =>
      exact ⟨0, Nat.le_refl 0, final.marks.away_root key ((graded.sourced.rooted key).mpr member)⟩
  | next count source list edge _ filled member ih =>
      obtain ⟨distance, bound, away⟩ := ih
      obtain ⟨visit, visited, rfl⟩ :=
        graded_visited compilation initial roots final graded drained source away.1
      have cell := graded_cell compilation initial roots final graded visit visited
      have here : edge ∈ visit.edges := Option.some.inj (filled.symm.trans cell) ▸ member
      have marked := graded.sourced.covered visit visited edge here
      obtain ⟨far, target⟩ := graded_away compilation initial roots final graded edge.target marked
      obtain ⟨_, _, _, layered⟩ := graded.layers
      have next := layered.short visit visited edge here distance far away target
      exact ⟨far, Nat.le_trans next (Nat.succ_le_succ bound), target⟩

theorem graded_explains (key : Key) (marked : key ∈ final.marks.keys) (passed : key ∉ roots.map (·.key)) :
    ∃ links, final.marks.Walk key links ∧
      final.workspace.edges.Explains initial.registry.number (roots.map (·.key)) key links := by
  have founded := sourced_founded _ roots final graded.sourced
  obtain ⟨_, away⟩ := graded_away compilation initial roots final graded key marked
  obtain ⟨_, links, walk, _⟩ := away
  have filled : links ≠ [] := fun empty => passed
    (graded_roots compilation initial roots final graded key marked (final.marks.walk_stopped key links walk empty))
  refine ⟨links, walk, ?_, final.marks.walk_linked key links walk, ?_, final.marks.walk_once key links walk, ?_,
    graded_steps compilation initial roots final graded key links marked walk, ?_⟩
  · have begins := List.head?_eq_some_head filled
    generalize links.head filled = first at begins
    have origin := final.marks.walk_origin key links walk first (List.mem_of_head? begins)
    exact ⟨first, begins, graded_roots compilation initial roots final graded first.source
      (founded _ _ origin) (final.marks.walk_begins key links walk first begins)⟩
  · have ends := List.getLast?_eq_some_getLast filled
    exact ⟨_, ends, final.marks.walk_ends key links walk _ ends⟩
  · intro link member
    have origin := final.marks.walk_origin key links walk link member
    exact graded_origin compilation initial roots final graded link.target _ origin
  · intro count steps
    obtain ⟨distance, bound, _, others, again, length⟩ :=
      graded_least compilation initial roots final graded drained count key steps
    rw [final.marks.walk_unique key links others walk again, length]
    exact bound

end Drained

end Sweep

namespace Workspace

theorem explanations_shortest (workspace : Workspace) (compilation : Compilation) (schedule : Schedule)
    (layerwise : schedule.Layerwise) (record : Bool) (roots : List Node)
    (known : ∀ root ∈ roots, workspace.registry.lookup root.key = some root) (marking : Marking)
    (done : (workspace.markBy compilation schedule record roots).1 = .ok marking) (key : Key) :
    (marking.marks.isRoot key = true ↔ key ∈ roots.map (·.key)) ∧
    (key ∈ roots.map (·.key) ∨ key ∉ marking.marks.keys → marking.marks.explain key = []) ∧
    (key ∉ roots.map (·.key) → key ∈ marking.marks.keys →
      (workspace.markBy compilation schedule record roots).2.edges.Explains workspace.registry.number
        (roots.map (·.key)) key (marking.marks.explain key) ∧
      (marking.marks.explain key).length ≤ marking.marks.size) := by
  have homes : ∀ root ∈ roots, root.home = workspace.registry.number := fun root member =>
    ((Registry.lookup_self_iff _ root).mp (known root member)).2
  have settled := Sweep.run_graded compilation workspace roots homes schedule layerwise
  rcases workspace.mark_by_cases compilation schedule record roots with
    ⟨halt, _, result⟩ | ⟨final, ran, result⟩ <;> rw [result] at done ⊢
  · exact nomatch done
  · rw [ran] at settled
    obtain ⟨graded, drained⟩ := settled
    rw [← Except.ok.inj done]
    refine ⟨graded.sourced.rooted key, ?_, ?_⟩
    · intro either
      apply final.marks.explain_stopped
      rcases either with root | unmarked
      · exact ((final.marks.is_root_iff key).mp ((graded.sourced.rooted key).mpr root)).2
      · cases found : final.marks.origin? key with
        | none => rfl
        | some origin => exact absurd (final.marks.origin_marked key origin found) unmarked
    · intro passed marked
      obtain ⟨links, walk, explains⟩ :=
        Sweep.graded_explains compilation workspace roots final graded drained key marked passed
      rw [final.marks.explain_walk key links walk]
      exact ⟨explains, final.marks.walk_bound key links walk⟩

theorem self_call_explained :
    let session := Session.after Session.selfCalling (.sample 0) Session.selfCallingHistory
    let compilation := session.compilation Session.selfCalling
    let roots : List Node := [⟨0, .virtualUse ⟨0⟩⟩]
    let key : Key := .stub .virtualCall (.method ⟨0⟩)
    let reversed := Schedule.frontier (fun _ pending => pending.reverse) fun _ _ => List.reverse_perm _
    reversed.Layerwise ∧ session.Holds roots ∧
    ∃ marking, (session.workspace.markBy compilation reversed false roots).1 = .ok marking ∧
      marking.marks.explain key = [⟨.virtualUse ⟨0⟩, .body ⟨0⟩, implementationReason⟩, ⟨.body ⟨0⟩, key, "call"⟩] ∧
      (session.workspace.markBy compilation reversed false roots).2.edges.Explains 0
        (roots.map (·.key)) key (marking.marks.explain key) := by
  intro session compilation roots key reversed
  have layerwise : reversed.Layerwise := .frontier _ _
  have known : session.Holds roots := by decide
  refine ⟨layerwise, known, _, rfl, by decide, ?_⟩
  exact ((explanations_shortest session.workspace compilation reversed layerwise false roots known _ rfl
    key).2.2 (by decide) (by decide)).1

end Workspace

end ArtifactGraph
