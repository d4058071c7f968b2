import ArtifactGraph.Proofs.Closure

set_option autoImplicit false

namespace ArtifactGraph

-- A key that waits already, or was visited, does not queue again.
def enqueue (queue : List Key) (key : Key) : List Key := if key ∈ queue then queue else queue ++ [key]

theorem enqueue_all_grows (queue keys : List Key) : queue <+: keys.foldl enqueue queue := by
  induction keys generalizing queue with
  | nil => exact List.prefix_refl _
  | cons key rest ih =>
      have step : queue <+: enqueue queue key := by
        unfold enqueue
        split
        · exact List.prefix_refl _
        · exact List.prefix_append _ _
      exact step.trans (ih _)

namespace Compilation

def targets (compilation : Compilation) (key : Key) : List Key :=
  ((compilation.needs [] key).toOption.getD []).map (·.target)

def queue (compilation : Compilation) (roots : List Key) : Nat → List Key
  | 0 => roots.foldl enqueue []
  | turn + 1 =>
      let queue := compilation.queue roots turn
      (queue[turn]?.elim [] compilation.targets).foldl enqueue queue

theorem queue_grows (compilation : Compilation) (roots : List Key) (turn more : Nat) :
    compilation.queue roots turn <+: compilation.queue roots (turn + more) := by
  induction more with
  | zero => exact List.prefix_refl _
  | succ more ih => exact ih.trans (enqueue_all_grows _ _)

theorem queue_stays (compilation : Compilation) (roots : List Key) (turn later place : Nat) (key : Key)
    (before : turn ≤ later) (here : (compilation.queue roots turn)[place]? = some key) :
    (compilation.queue roots later)[place]? = some key := by
  obtain ⟨more, rfl⟩ := Nat.exists_eq_add_of_le before
  obtain ⟨rest, grown⟩ := compilation.queue_grows roots turn more
  obtain ⟨bound, _⟩ := List.getElem?_eq_some_iff.mp here
  rw [← grown, List.getElem?_append_left bound]
  exact here

-- Whose turn it is when the first body comes that needs something refused, and the
-- first of its needs that is.
structure Stuck (compilation : Compilation) (roots : List Key) (turn : Nat) (method : MethodId)
    (request : Edge) : Prop where
  next : (compilation.queue roots turn)[turn]? = some (.body method)
  refused : (compilation.bodies.needs [] method).find?
    (fun edge => decide (¬ compilation.catalog.Admits edge.target)) = some request
  before : ∀ earlier other, earlier < turn →
    (compilation.queue roots earlier)[earlier]? = some (.body other) →
    ∀ edge ∈ compilation.bodies.needs [] other, compilation.catalog.Admits edge.target

end Compilation

namespace Marks

theorem insert_queue (marks : Marks) (node : Node) (origin : Option Origin) :
    (marks.insert node origin).keys = enqueue marks.keys node.key := by
  unfold enqueue
  by_cases held : node.key ∈ marks.keys
  · have contained := (marks.contains_iff_mem node.key).mpr held
    rw [if_pos held, insert, if_pos contained]
  · have fresh : marks.contains node.key = false := by
      rw [← Bool.not_eq_true, contains_iff_mem]
      exact held
    rw [if_neg held, keys, insert_appends marks node origin fresh, List.map_append]
    rfl

theorem of_roots_queue (roots : List Node) : (ofRoots roots).keys = (roots.map (·.key)).foldl enqueue [] := by
  suffices run : ∀ marks : Marks, (roots.foldl (fun marks root => marks.insert root none) marks).keys =
      (roots.map (·.key)).foldl enqueue marks.keys from run {}
  induction roots with
  | nil => exact fun _ => rfl
  | cons root rest ih =>
      intro marks
      rw [List.foldl_cons, ih, insert_queue, List.map_cons, List.foldl_cons]

theorem discover_queue (marks : Marks) (home : Nat) (source : Key) (edges : List Edge) :
    (Marks.mk (marks.made ++ marks.discover home source edges)).keys =
      (edges.map (·.target)).foldl enqueue marks.keys := by
  induction edges generalizing marks with
  | nil => simp [discover]
  | cons edge rest ih =>
      have inserted := marks.insert_queue ⟨home, edge.target⟩ (some ⟨source, edge.reason⟩)
      rw [List.map_cons, List.foldl_cons, ← inserted, ← ih]
      cases held : marks.contains edge.target with
      | true =>
          rw [marks.discover_held home source edge rest held, insert, if_pos held]
      | false =>
          rw [marks.discover_fresh home source edge rest held, insert_appends marks ⟨home, edge.target⟩ _ held,
            List.append_assoc, List.singleton_append]

end Marks

namespace Sweep

structure Queued (compilation : Compilation) (roots waiting : List Node) (sweep : Sweep) : Prop where
  order : sweep.visits.map (·.node) ++ (waiting ++ sweep.pending) = sweep.marks.nodes
  turn : sweep.marks.keys = compilation.queue (roots.map (·.key)) sweep.visits.length

theorem queued_start (compilation : Compilation) (workspace : Workspace) (roots : List Node) :
    Queued compilation roots [] (start workspace roots) where
  order := rfl
  turn := Marks.of_roots_queue roots

theorem queued_take (compilation : Compilation) (roots : List Node) (round : Nat) (sweep : Sweep)
    (queued : Queued compilation roots [] sweep) :
    Queued compilation roots (Schedule.worklist.batch round sweep.pending).1
      { sweep with pending := (Schedule.worklist.batch round sweep.pending).2 } where
  order := by
    have split : (Schedule.worklist.batch round sweep.pending).1 ++
        (Schedule.worklist.batch round sweep.pending).2 = sweep.pending := List.take_append_drop 1 _
    simp only [split]
    exact queued.order
  turn := queued.turn

theorem queued_next (compilation : Compilation) (roots waiting : List Node) (node : Node) (sweep : Sweep)
    (queued : Queued compilation roots (node :: waiting) sweep) :
    (compilation.queue (roots.map (·.key)) sweep.visits.length)[sweep.visits.length]? = some node.key := by
  rw [← queued.turn, ← sweep.marks.keys_nodes, ← queued.order]
  simp

theorem queued_visited (compilation : Compilation) (roots waiting : List Node) (sweep : Sweep)
    (queued : Queued compilation roots waiting sweep) (earlier : Nat) (key : Key)
    (before : earlier < sweep.visits.length)
    (here : (compilation.queue (roots.map (·.key)) earlier)[earlier]? = some key) :
    ∃ visit ∈ sweep.visits, visit.node.key = key := by
  have found := compilation.queue_stays _ _ _ earlier key (Nat.le_of_lt before) here
  rw [← queued.turn, ← sweep.marks.keys_nodes, ← queued.order, List.map_append, List.map_map,
    List.getElem?_append_left (by simpa using before), List.getElem?_map] at found
  obtain ⟨visit, member, rfl⟩ := Option.map_eq_some_iff.mp found
  exact ⟨visit, List.mem_of_getElem? member, rfl⟩

theorem queued_visit (compilation : Compilation) (steady : compilation.bodies.Steady)
    (roots waiting : List Node) (node : Node) (sweep : Sweep) (traced : Traced compilation roots sweep)
    (queued : Queued compilation roots (node :: waiting) sweep) :
    Settles (Queued compilation roots waiting) (fun _ => True) (sweep.visit compilation node) := by
  rcases visit_closed compilation sweep node traced.closed with
    ⟨_, _, result⟩ | ⟨edges, found, answer, here, result⟩ <;> rw [result]
  · trivial
  · have ruled := sweep.workspace.needs_ruled compilation steady traced.faithful node edges answer
    have targets : compilation.targets node.key = edges.map (·.target) := by
      simp [Compilation.targets, ruled, Except.toOption]
    constructor
    · have order := queued.order
      simp only [Marks.nodes, List.map_append, List.map_singleton, List.cons_append] at order ⊢
      rw [← order]
      simp
    · have next := queued_next compilation roots waiting node sweep queued
      rw [List.length_append, List.length_singleton, Compilation.queue, next, Option.elim_some, targets,
        ← queued.turn, here]
      exact sweep.marks.discover_queue _ _ edges

structure Underway (compilation : Compilation) (initial : Workspace) (roots waiting : List Node)
    (sweep : Sweep) : Prop where
  tally : Tally compilation initial roots waiting sweep
  traced : Traced compilation roots sweep
  accounted : Accounted initial roots sweep
  queued : Queued compilation roots waiting sweep

theorem underway_start (compilation : Compilation) (workspace : Workspace) (roots : List Node)
    (closed : workspace.Closed compilation.catalog) (faithful : workspace.Faithful compilation)
    (known : ∀ root ∈ roots, workspace.registry.lookup root.key = some root) :
    Underway compilation workspace roots [] (start workspace roots) where
  tally := tally_start compilation workspace roots
  traced := traced_start compilation workspace roots closed faithful known
  accounted := accounted_start workspace roots known
  queued := queued_start compilation workspace roots

theorem underway_take (compilation : Compilation) (initial : Workspace) (roots : List Node) (round : Nat)
    (sweep : Sweep) (underway : Underway compilation initial roots [] sweep) :
    Underway compilation initial roots (Schedule.worklist.batch round sweep.pending).1
      { sweep with pending := (Schedule.worklist.batch round sweep.pending).2 } where
  tally := tally_take compilation initial roots sweep _ _ underway.tally (Schedule.worklist.perm round _)
  traced := traced_take compilation roots sweep _ underway.traced
  accounted := accounted_take initial roots sweep _ underway.accounted
  queued := queued_take compilation roots round sweep underway.queued

theorem underway_visit (compilation : Compilation) (steady : compilation.bodies.Steady) (initial : Workspace)
    (roots waiting : List Node) (node : Node) (sweep : Sweep)
    (underway : Underway compilation initial roots (node :: waiting) sweep) :
    Settles (Underway compilation initial roots waiting) (fun _ => True) (sweep.visit compilation node) := by
  have traced := traced_visit compilation steady initial roots waiting node sweep underway.tally underway.traced
  have counted := tally_visit compilation initial roots node waiting sweep underway.tally
  have accounted := accounted_visit compilation initial roots waiting node sweep underway.tally underway.traced
    underway.accounted
  have queued := queued_visit compilation steady roots waiting node sweep underway.traced underway.queued
  cases done : sweep.visit compilation node with
  | error halt => trivial
  | ok after =>
      rw [done] at traced counted accounted queued
      exact ⟨counted, traced, accounted, queued⟩

end Sweep

end ArtifactGraph
