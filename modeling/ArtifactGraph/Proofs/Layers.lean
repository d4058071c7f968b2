import ArtifactGraph.Proofs.Visits

set_option autoImplicit false

namespace ArtifactGraph

inductive Schedule.Layerwise : Schedule → Prop where
  | worklist : Layerwise .worklist
  | frontier (order : Nat → List Node → List Node)
      (complete : ∀ round pending, (order round pending).Perm pending) : Layerwise (.frontier order complete)

namespace Marks

def Away (marks : Marks) (distance : Nat) (key : Key) : Prop :=
  key ∈ marks.keys ∧ ∃ links, marks.Walk key links ∧ links.length = distance

theorem away_unique (marks : Marks) (a b : Nat) (key : Key) (left : marks.Away a key)
    (right : marks.Away b key) : a = b := by
  obtain ⟨_, links, walk, rfl⟩ := left
  obtain ⟨_, others, again, rfl⟩ := right
  rw [marks.walk_unique key links others walk again]

theorem away_root (marks : Marks) (key : Key) (root : marks.isRoot key = true) : marks.Away 0 key := by
  obtain ⟨marked, missing⟩ := (marks.is_root_iff key).mp root
  exact ⟨marked, [], .stop key missing, rfl⟩

theorem away_next (marks : Marks) (distance : Nat) (key : Key) (origin : Origin)
    (found : marks.origin? key = some origin) (source : marks.Away distance origin.source) :
    marks.Away (distance + 1) key := by
  obtain ⟨_, links, walk, rfl⟩ := source
  exact ⟨marks.origin_marked key origin found, _, .step key origin links found walk, by simp⟩

theorem away_kept (marks : Marks) (added : List Mark) (founded : marks.Founded) (distance : Nat) (key : Key)
    (away : marks.Away distance key) : (Marks.mk (marks.made ++ added)).Away distance key := by
  obtain ⟨marked, links, walk, length⟩ := away
  refine ⟨?_, links, marks.walk_kept added founded key links marked walk, length⟩
  rw [keys, List.map_append]
  exact List.mem_append_left _ marked

end Marks

namespace Sweep

-- Nodes that wait or come early lie in the layer that is visited, late ones in the
-- next, and nothing is marked beyond.
structure Layered (distance : Nat) (early late waiting : List Node) (sweep : Sweep) : Prop where
  pending : sweep.pending = early ++ late
  here : ∀ node ∈ waiting ++ early, sweep.marks.Away distance node.key
  next : ∀ node ∈ late, sweep.marks.Away (distance + 1) node.key
  near : ∀ key ∈ sweep.marks.keys, ∃ away, away ≤ distance + 1 ∧ sweep.marks.Away away key
  short : ∀ visit ∈ sweep.visits, ∀ edge ∈ visit.edges, ∀ away far, sweep.marks.Away away visit.node.key →
    sweep.marks.Away far edge.target → far ≤ away + 1

theorem layered_start (workspace : Workspace) (roots : List Node) :
    Layered 0 (Marks.ofRoots roots).nodes [] [] (start workspace roots) := by
  have rooted : ∀ key ∈ (Marks.ofRoots roots).keys, (Marks.ofRoots roots).Away 0 key := by
    intro key member
    apply Marks.away_root
    exact (Marks.is_root_of_roots roots key).mpr ((Marks.of_roots_keys roots key).mp member)
  refine ⟨by simp [start], ?_, fun _ member => (nomatch member), ?_, fun _ member => (nomatch member)⟩
  · intro node member
    exact rooted node.key ((Marks.mem_keys_iff _ _).mpr ⟨node, member, rfl⟩)
  · intro key member
    exact ⟨0, Nat.zero_le _, rooted key member⟩

theorem layered_advance (distance : Nat) (late : List Node) (sweep : Sweep)
    (layered : Layered distance [] late [] sweep) : Layered (distance + 1) late [] [] sweep where
  pending := by simpa using layered.pending
  here := layered.next
  next _ member := nomatch member
  near key member := by
    obtain ⟨away, bound, found⟩ := layered.near key member
    exact ⟨away, Nat.le_succ_of_le bound, found⟩
  short := layered.short

theorem layered_take (distance : Nat) (early late now later : List Node) (sweep : Sweep)
    (layered : Layered distance early late [] sweep) (taken : (now ++ later).Perm early) :
    Layered distance later late now { sweep with pending := later ++ late } where
  pending := rfl
  here node member := layered.here node (taken.mem_iff.mp member)
  next := layered.next
  near := layered.near
  short := layered.short

theorem layered_visit (compilation : Compilation) (home : Nat) (roots : List Node) (distance : Nat)
    (early late waiting : List Node) (node : Node) (sweep after : Sweep)
    (sourced : Sourced home roots sweep) (layered : Layered distance early late (node :: waiting) sweep)
    (done : sweep.visit compilation node = .ok after) :
    ∃ more, Layered distance early (late ++ more) waiting after := by
  have founded := sourced_founded home roots sweep sourced
  have nodeAway := layered.here node (by simp)
  obtain ⟨edges, found, registry, _, here, _, rfl⟩ := visit_ok compilation sweep after node done
  have kept := fun distance key => sweep.marks.away_kept found founded distance key
  -- What has no mark yet is marked by an edge of the visited node, one layer on.
  have new : ∀ key ∈ (Marks.mk (sweep.marks.made ++ found)).keys, key ∉ sweep.marks.keys →
      (Marks.mk (sweep.marks.made ++ found)).Away (distance + 1) key := by
    intro key member fresh
    rw [here] at member
    obtain ⟨edge, _, origin⟩ := sweep.marks.discover_origin _ _ edges key fresh member
    rw [← here] at origin
    exact Marks.away_next _ distance key _ origin (kept distance node.key nodeAway)
  have near : ∀ key ∈ (Marks.mk (sweep.marks.made ++ found)).keys,
      ∃ away, away ≤ distance + 1 ∧ (Marks.mk (sweep.marks.made ++ found)).Away away key := by
    intro key member
    by_cases old : key ∈ sweep.marks.keys
    · obtain ⟨away, bound, reached⟩ := layered.near key old
      exact ⟨away, bound, kept away key reached⟩
    · exact ⟨distance + 1, Nat.le_refl _, new key member old⟩
  refine ⟨found.map (·.node), ?_, ?_, ?_, near, ?_⟩
  · simp only [layered.pending, List.append_assoc]
  · intro other member
    exact kept distance _ (layered.here other (List.mem_cons_of_mem node member))
  · intro other member
    rcases List.mem_append.mp member with old | discovered
    · exact kept (distance + 1) _ (layered.next other old)
    · obtain ⟨mark, markMember, rfl⟩ := List.mem_map.mp discovered
      have fresh := (sweep.marks.discover_mem _ _ edges mark (here ▸ markMember)).1
      refine new _ ?_ fun old => nomatch ((sweep.marks.contains_iff_mem _).mpr old).symm.trans fresh
      exact (Marks.mem_keys_iff _ _).mpr ⟨mark.node, by simp [Marks.nodes, discovered], rfl⟩
  · intro visit member edge edgeMember away far source target
    rcases List.mem_append.mp member with old | this
    · have marked := sourced.covered visit old edge edgeMember
      obtain ⟨first, _, before⟩ := layered.near _ marked
      have visitMarked : visit.node.key ∈ sweep.marks.keys :=
        (sweep.marks.mem_keys_iff _).mpr ⟨visit.node, sourced.visited visit old, rfl⟩
      obtain ⟨second, _, after⟩ := layered.near _ visitMarked
      rw [Marks.away_unique _ far first _ target (kept first _ before),
        Marks.away_unique _ away second _ source (kept second _ after)]
      exact layered.short visit old edge edgeMember second first after before
    · rw [List.mem_singleton.mp this] at source
      obtain ⟨most, bound, reached⟩ := near _ target.1
      rw [Marks.away_unique _ far most _ target reached,
        Marks.away_unique _ away distance _ source (kept distance _ nodeAway)]
      exact bound

structure Graded (compilation : Compilation) (initial : Workspace) (roots waiting : List Node)
    (sweep : Sweep) : Prop where
  tally : Tally compilation initial roots waiting sweep
  sourced : Sourced initial.registry.number roots sweep
  layers : ∃ distance early late, Layered distance early late waiting sweep

theorem graded_visit (compilation : Compilation) (initial : Workspace) (roots waiting : List Node)
    (node : Node) (sweep : Sweep) (tally : Tally compilation initial roots (node :: waiting) sweep)
    (sourced : Sourced initial.registry.number roots sweep) (distance : Nat) (early late : List Node)
    (layered : Layered distance early late (node :: waiting) sweep) :
    Settles (fun after => Tally compilation initial roots waiting after ∧
      Sourced initial.registry.number roots after ∧
      ∃ more, Layered distance early (late ++ more) waiting after) (fun _ => True)
      (sweep.visit compilation node) := by
  have marked := tally_marked compilation initial roots waiting node sweep tally
  have counted := tally_visit compilation initial roots node waiting sweep tally
  cases done : sweep.visit compilation node with
  | error halt => trivial
  | ok after =>
      rw [done] at counted
      exact ⟨counted, sourced_visit compilation _ roots node sweep after marked sourced done,
        layered_visit compilation _ roots distance early late waiting node sweep after sourced layered done⟩

section Runs

variable (compilation : Compilation) (workspace : Workspace) (roots : List Node)
  (homes : ∀ root ∈ roots, root.home = workspace.registry.number)

include homes

theorem worklist_graded :
    Settles (fun final => Graded compilation workspace roots [] final ∧ final.pending = []) (fun _ => True)
      (run compilation .worklist workspace roots) := by
  refine run_settles_batches compilation .worklist workspace roots (Graded compilation workspace roots) _ ?_ ?_ ?_
  · exact ⟨tally_start compilation workspace roots, sourced_start workspace roots homes,
      0, _, [], layered_start workspace roots⟩
  · intro round sweep ⟨tally, sourced, distance, early, late, layered⟩ busy
    refine ⟨tally_take compilation workspace roots sweep _ _ tally (Schedule.worklist.perm round sweep.pending),
      sourced_take _ roots sweep _ sourced, ?_⟩
    have pending := layered.pending
    cases early with
    | cons first rest =>
        refine ⟨distance, rest, late, ?_⟩
        simpa [Schedule.worklist, pending] using
          layered_take distance (first :: rest) late [first] rest sweep layered (.refl _)
    | nil =>
        cases late with
        | nil => exact absurd pending busy
        | cons first rest =>
            refine ⟨distance + 1, rest, [], ?_⟩
            simpa [Schedule.worklist, pending] using
              layered_take (distance + 1) (first :: rest) [] [first] rest sweep
                (layered_advance distance _ sweep layered) (.refl _)
  · intro node waiting sweep ⟨tally, sourced, distance, early, late, layered⟩
    refine settles_imp _ _ _ _
      (graded_visit compilation workspace roots waiting node sweep tally sourced distance early late layered) ?_
    exact fun after ⟨counted, led, more, layers⟩ => ⟨counted, led, distance, early, late ++ more, layers⟩

theorem frontier_graded (order : Nat → List Node → List Node)
    (complete : ∀ round pending, (order round pending).Perm pending) :
    Settles (fun final => Graded compilation workspace roots [] final ∧ final.pending = []) (fun _ => True)
      (run compilation (.frontier order complete) workspace roots) := by
  have settled := run_settles_batches compilation (.frontier order complete) workspace roots
    (fun waiting sweep => Tally compilation workspace roots waiting sweep ∧
      Sourced workspace.registry.number roots sweep ∧
      ∃ distance early late, Layered distance early late waiting sweep ∧
        (early = [] ∨ (late = [] ∧ waiting = []))) (fun _ => True) ?_ ?_ ?_
  · refine settles_imp _ _ _ _ settled ?_
    exact fun final ⟨⟨tally, sourced, distance, early, late, layered, _⟩, drained⟩ =>
      ⟨⟨tally, sourced, distance, early, late, layered⟩, drained⟩
  · exact ⟨tally_start compilation workspace roots, sourced_start workspace roots homes,
      0, _, [], layered_start workspace roots, .inr ⟨rfl, rfl⟩⟩
  · intro round sweep ⟨tally, sourced, distance, early, late, layered, split⟩ busy
    have perm := (Schedule.frontier order complete).perm round sweep.pending
    refine ⟨tally_take compilation workspace roots sweep _ _ tally perm, sourced_take _ roots sweep _ sourced, ?_⟩
    have whole : ∃ distance, Layered distance sweep.pending [] [] sweep := by
      rcases split with rfl | ⟨rfl, _⟩
      · have next := layered_advance distance late sweep layered
        have pending : sweep.pending = late := layered.pending
        exact ⟨distance + 1, pending ▸ next⟩
      · have pending : sweep.pending = early := by simpa using layered.pending
        exact ⟨distance, pending ▸ layered⟩
    obtain ⟨layer, whole⟩ := whole
    exact ⟨layer, [], [], layered_take layer sweep.pending [] _ [] sweep whole perm, .inl rfl⟩
  · intro node waiting sweep ⟨tally, sourced, distance, early, late, layered, split⟩
    have none : early = [] := split.resolve_right fun both => nomatch both.2
    refine settles_imp _ _ _ _
      (graded_visit compilation workspace roots waiting node sweep tally sourced distance early late layered) ?_
    exact fun after ⟨counted, led, more, layers⟩ =>
      ⟨counted, led, distance, early, late ++ more, layers, .inl none⟩

theorem run_graded (schedule : Schedule) (layerwise : schedule.Layerwise) :
    Settles (fun final => Graded compilation workspace roots [] final ∧ final.pending = []) (fun _ => True)
      (run compilation schedule workspace roots) := by
  cases layerwise with
  | worklist => exact worklist_graded compilation workspace roots homes
  | frontier order complete => exact frontier_graded compilation workspace roots homes order complete

end Runs

end Sweep

end ArtifactGraph
