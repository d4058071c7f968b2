import ArtifactGraph.Marking.Marks

set_option autoImplicit false

namespace ArtifactGraph

namespace Marks

theorem of_roots_induction (roots : List Node) (motive : Marks → Prop) (empty : motive {})
    (insert : ∀ marks root, root ∈ roots → motive marks → motive (marks.insert root none)) :
    motive (ofRoots roots) := by
  suffices run : ∀ rest : List Node, (∀ root ∈ rest, root ∈ roots) → ∀ marks, motive marks →
      motive (rest.foldl (fun marks root => marks.insert root none) marks) from
    run roots (fun _ member => member) {} empty
  intro rest
  induction rest with
  | nil => exact fun _ _ now => now
  | cons root rest ih =>
      exact fun within marks now => ih (fun other member => within other (List.mem_cons_of_mem root member))
        _ (insert marks root (within root (by simp)) now)

theorem insert_once (marks : Marks) (node : Node) (origin : Option Origin) (once : marks.keys.Nodup) :
    (marks.insert node origin).keys.Nodup := by
  cases held : marks.contains node.key with
  | true => simpa [insert, held] using once
  | false =>
      have fresh : node.key ∉ marks.keys := fun member => by
        simp [(marks.contains_iff_mem node.key).mpr member] at held
      rw [keys, insert_appends marks node origin held, List.map_append]
      refine List.nodup_append.mpr ⟨once, by simp, ?_⟩
      intro old member new single same
      rw [List.map_singleton, List.mem_singleton] at single
      exact fresh (single ▸ same ▸ member)

theorem of_roots_keys (roots : List Node) (key : Key) :
    key ∈ (ofRoots roots).keys ↔ key ∈ roots.map (·.key) := by
  suffices run : ∀ marks : Marks,
      key ∈ (roots.foldl (fun marks root => marks.insert root none) marks).keys ↔
        key ∈ marks.keys ∨ key ∈ roots.map (·.key) by
    simpa [ofRoots, keys] using run {}
  induction roots with
  | nil => simp
  | cons root rest ih =>
      intro marks
      rw [List.foldl_cons, ih, ← contains_iff_mem, contains_insert, Bool.or_eq_true, beq_iff_eq,
        contains_iff_mem, List.map_cons, List.mem_cons, or_assoc, eq_comm]

theorem of_roots_nodes (roots : List Node) : ∀ node ∈ (ofRoots roots).nodes, node ∈ roots := by
  refine of_roots_induction roots (fun marks => ∀ node ∈ marks.nodes, node ∈ roots) (by simp [nodes]) ?_
  intro marks root member within node marked
  cases held : marks.contains root.key with
  | true => exact within node (by simpa [insert, held] using marked)
  | false =>
      rw [nodes, insert_appends marks root none held, List.map_append, List.mem_append] at marked
      rcases marked with old | new
      · exact within node old
      · rw [List.map_singleton, List.mem_singleton] at new
        exact new ▸ member

theorem keys_nodes (marks : Marks) : marks.nodes.map (·.key) = marks.keys := by
  simp [nodes, keys]

theorem mem_keys_iff (marks : Marks) (key : Key) :
    key ∈ marks.keys ↔ ∃ node ∈ marks.nodes, node.key = key := by
  rw [← keys_nodes, List.mem_map]

theorem nodes_once (marks : Marks) (once : marks.keys.Nodup) : marks.nodes.Nodup :=
  List.Pairwise.of_map (·.key) (fun _ _ differ same => differ (congrArg Node.key same))
    (marks.keys_nodes.symm ▸ once)

def discover (marks : Marks) (home : Nat) (source : Key) : List Edge → List Mark
  | [] => []
  | edge :: rest =>
      let mark : Mark := ⟨⟨home, edge.target⟩, some ⟨source, edge.reason⟩⟩
      if marks.contains edge.target then marks.discover home source rest
      else mark :: (marks.insert mark.node mark.origin).discover home source rest

theorem discover_held (marks : Marks) (home : Nat) (source : Key) (edge : Edge) (rest : List Edge)
    (held : marks.contains edge.target = true) :
    marks.discover home source (edge :: rest) = marks.discover home source rest := by
  simp [discover, held]

theorem discover_fresh (marks : Marks) (home : Nat) (source : Key) (edge : Edge) (rest : List Edge)
    (fresh : marks.contains edge.target = false) :
    marks.discover home source (edge :: rest) = ⟨⟨home, edge.target⟩, some ⟨source, edge.reason⟩⟩ ::
      (marks.insert ⟨home, edge.target⟩ (some ⟨source, edge.reason⟩)).discover home source rest := by
  simp [discover, fresh]

theorem discover_mem (marks : Marks) (home : Nat) (source : Key) (edges : List Edge) (mark : Mark)
    (member : mark ∈ marks.discover home source edges) :
    marks.contains mark.node.key = false ∧
      ∃ edge ∈ edges, mark = ⟨⟨home, edge.target⟩, some ⟨source, edge.reason⟩⟩ := by
  induction edges generalizing marks with
  | nil => simp [discover] at member
  | cons edge rest ih =>
      simp only [discover] at member
      cases held : marks.contains edge.target with
      | true =>
          rw [held, if_pos rfl] at member
          obtain ⟨fresh, other, later, same⟩ := ih marks member
          exact ⟨fresh, other, List.mem_cons_of_mem edge later, same⟩
      | false =>
          rw [held, if_neg Bool.false_ne_true, List.mem_cons] at member
          rcases member with same | later
          · exact ⟨same ▸ held, edge, by simp, same⟩
          · obtain ⟨fresh, other, found, same⟩ := ih _ later
            rw [contains_insert, Bool.or_eq_false_iff] at fresh
            exact ⟨fresh.1, other, List.mem_cons_of_mem edge found, same⟩

theorem discover_covers (marks : Marks) (home : Nat) (source : Key) (edges : List Edge) :
    ∀ edge ∈ edges, edge.target ∈ (Marks.mk (marks.made ++ marks.discover home source edges)).keys := by
  induction edges generalizing marks with
  | nil => simp
  | cons edge rest ih =>
      intro other member
      simp only [discover]
      cases held : marks.contains edge.target with
      | true =>
          rcases List.mem_cons.mp member with same | later
          · have marked := (marks.contains_iff_mem edge.target).mp held
            rw [same, keys, List.map_append]
            exact List.mem_append_left _ marked
          · simpa using ih marks other later
      | false =>
          rcases List.mem_cons.mp member with same | later
          · simp [keys, same]
          · have found := ih (marks.insert ⟨home, edge.target⟩ (some ⟨source, edge.reason⟩)) other later
            rw [insert_appends marks ⟨home, edge.target⟩ _ held] at found
            simpa using found

theorem discover_nodes (marks : Marks) (home : Nat) (source : Key) (edges : List Edge) (node : Node)
    (member : node ∈ (Marks.mk (marks.made ++ marks.discover home source edges)).nodes) :
    node ∈ marks.nodes ∨ ∃ edge ∈ edges, node = ⟨home, edge.target⟩ := by
  simp only [nodes, List.map_append, List.mem_append] at member
  apply member.imp_right
  intro new
  obtain ⟨mark, found, rfl⟩ := List.mem_map.mp new
  obtain ⟨_, edge, edgeMember, same⟩ := marks.discover_mem home source edges mark found
  exact ⟨edge, edgeMember, by rw [same]⟩

theorem discover_keys (marks : Marks) (home : Nat) (source : Key) (edges : List Edge) (key : Key) :
    key ∈ (Marks.mk (marks.made ++ marks.discover home source edges)).keys ↔
      key ∈ marks.keys ∨ ∃ edge ∈ edges, edge.target = key := by
  constructor
  · intro member
    obtain ⟨node, marked, rfl⟩ := (mem_keys_iff _ key).mp member
    rcases marks.discover_nodes home source edges node marked with old | ⟨edge, edgeMember, rfl⟩
    · exact .inl ((marks.mem_keys_iff _).mpr ⟨node, old, rfl⟩)
    · exact .inr ⟨edge, edgeMember, rfl⟩
  · rintro (old | ⟨edge, edgeMember, rfl⟩)
    · rw [keys, List.map_append]
      exact List.mem_append_left _ old
    · exact marks.discover_covers home source edges edge edgeMember

theorem is_root_append (marks : Marks) (added : List Mark) (reached : ∀ mark ∈ added, mark.origin.isSome)
    (key : Key) : (Marks.mk (marks.made ++ added)).isRoot key = marks.isRoot key := by
  simp only [isRoot, find?, List.find?_append]
  cases old : marks.made.find? fun mark => mark.node.key == key with
  | some mark => rfl
  | none =>
      cases new : added.find? fun mark => mark.node.key == key with
      | none => rfl
      | some mark =>
          have origin := reached mark (List.mem_of_find?_eq_some new)
          simpa using origin

theorem discover_roots (marks : Marks) (home : Nat) (source : Key) (edges : List Edge) (key : Key) :
    (Marks.mk (marks.made ++ marks.discover home source edges)).isRoot key = marks.isRoot key := by
  apply marks.is_root_append
  intro mark member
  obtain ⟨_, edge, _, same⟩ := marks.discover_mem home source edges mark member
  simp [same]

theorem is_root_of_roots (roots : List Node) (key : Key) :
    (ofRoots roots).isRoot key = true ↔ key ∈ roots.map (·.key) := by
  have none : ∀ mark ∈ (ofRoots roots).made, mark.origin = none := by
    refine of_roots_induction roots (fun marks => ∀ mark ∈ marks.made, mark.origin = none) (by simp) ?_
    intro marks root _ plain mark member
    cases held : marks.contains root.key with
    | true => exact plain mark (by simpa [insert, held] using member)
    | false =>
        rw [insert_appends marks root none held, List.mem_append, List.mem_singleton] at member
        rcases member with old | new
        · exact plain mark old
        · rw [new]
  rw [← of_roots_keys, ← contains_iff_mem]
  simp only [isRoot, contains]
  cases found : (ofRoots roots).find? key with
  | none => simp
  | some mark => simp [none mark (List.mem_of_find?_eq_some found)]

end Marks

end ArtifactGraph
