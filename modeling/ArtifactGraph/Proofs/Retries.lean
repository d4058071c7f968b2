import ArtifactGraph.Proofs.Queues

set_option autoImplicit false

namespace ArtifactGraph

namespace Compilation

-- Only a body can need what is refused. All other needs are for what the key is for.
theorem refused_by_body (compilation : Compilation) (source target : Key)
    (required : compilation.Requires source target) (admitted : compilation.catalog.Admits source)
    (refused : ¬ compilation.catalog.Admits target) : ∃ method, source = .body method := by
  cases required with
  | slot method => exact absurd ⟨rfl, admitted.2⟩ refused
  | target record => exact absurd ⟨rfl, admitted.2⟩ refused
  | implementation method concrete => exact absurd ⟨rfl, admitted.2⟩ refused
  | code method edge member => exact ⟨method, rfl⟩

end Compilation

namespace Workspace

section Refusals

variable (workspace : Workspace) (compilation : Compilation) (steady : compilation.bodies.Steady) (node : Node)
  (fault : Fault) (refused : (workspace.needs compilation node).1 = .error fault)

include steady refused

theorem needs_refused_again :
    (workspace.needs compilation node).2.edges.get? node = none ∧
      (workspace.needs compilation node).2.needs compilation node =
        (.error fault, { (workspace.needs compilation node).2 with
          read := (workspace.needs compilation node).2.read ++ node.key.bodyOf?.toList }) := by
  rcases workspace.needs_cases compilation node with
    ⟨_, _, result⟩ | ⟨empty, other, ruled, result⟩ | ⟨empty, edges, ruled, other, asked, result⟩ |
    ⟨_, _, _, _, result⟩ <;> rw [result] at refused ⊢
  · cases refused
  · obtain rfl := Except.error.inj refused
    have again : compilation.needs (workspace.read ++ node.key.bodyOf?.toList) node.key = .error other := by
      rw [← ruled, compilation.needs_steady steady, compilation.needs_steady steady workspace.read]
    exact ⟨empty, by simp only [needs, empty, again]⟩
  · obtain rfl := Except.error.inj refused
    have again : compilation.needs (workspace.read ++ node.key.bodyOf?.toList) node.key = .ok edges := by
      rw [← ruled, compilation.needs_steady steady, compilation.needs_steady steady workspace.read]
    have same := workspace.registry.register_all_again compilation.catalog (edges.map (·.target))
    refine ⟨empty, ?_⟩
    cases stopped : workspace.registry.registerAll compilation.catalog (edges.map (·.target)) with
    | mk answer registry =>
        rw [stopped] at asked same
        obtain rfl : answer = .error other := asked
        simp only [needs, empty, again, same]
  · cases refused

theorem needs_stops (closed : workspace.Closed compilation.catalog)
    (admitted : compilation.catalog.Admits node.key) :
    ∃ method request, node.key = .body method ∧
      (compilation.bodies.needs [] method).find?
        (fun edge => decide (¬ compilation.catalog.Admits edge.target)) = some request ∧
      compilation.catalog.checkKey request.target = .error fault := by
  rcases workspace.needs_cases compilation node with
    ⟨_, _, result⟩ | ⟨_, _, ruled, _⟩ | ⟨_, edges, ruled, other, asked, result⟩ | ⟨_, _, _, _, result⟩
  · exact nomatch result ▸ refused
  · obtain ⟨edges, total⟩ := compilation.needs_total workspace.read node.key admitted
    exact nomatch total.symm.trans ruled
  · rw [result] at refused
    obtain rfl := Except.error.inj refused
    rw [compilation.needs_steady steady] at ruled
    obtain ⟨key, first, checked⟩ := workspace.registry.register_all_stops compilation.catalog _ other
      closed.admitted asked
    rw [List.find?_map, Option.map_eq_some_iff] at first
    obtain ⟨request, found, rfl⟩ := first
    have bad : ¬ compilation.catalog.Admits request.target := by simpa using List.find?_some found
    have required := (compilation.requires_iff node.key edges ruled request.target).mpr
      ⟨request, List.mem_of_find?_eq_some found, rfl⟩
    obtain ⟨method, body⟩ := compilation.refused_by_body node.key request.target required admitted bad
    rw [body] at ruled
    obtain rfl := Except.ok.inj ruled
    exact ⟨method, request, body, found, checked⟩
  · exact nomatch result ▸ refused

end Refusals

theorem closed_refuses (workspace : Workspace) (catalog : Catalog) (closed : workspace.Closed catalog) (key : Key)
    (fault : Fault) (checked : catalog.checkKey key = .error fault) :
    (workspace.register catalog key).1 = .error fault := by
  have missing : workspace.registry.contains key = false := by
    cases held : workspace.registry.contains key with
    | false => rfl
    | true =>
        have admitted := (catalog.check_key_ok key).mpr (closed.admitted key held)
        exact nomatch admitted.symm.trans checked
  exact congrArg Prod.fst (workspace.registry.register_refused catalog key fault missing checked)

structure Leaves (compilation : Compilation) (before after : Workspace) : Prop where
  closed : after.Closed compilation.catalog
  faithful : after.Faithful compilation
  number : after.registry.number = before.registry.number
  held : ∀ key, before.registry.contains key = true → after.registry.contains key = true
  kept : ∀ node edges, before.edges.get? node = some edges → after.edges.get? node = some edges
  named : after.names = before.names

theorem leaves_lookup (compilation : Compilation) (before after : Workspace)
    (leaves : before.Leaves compilation after) (node : Node)
    (known : before.registry.lookup node.key = some node) : after.registry.lookup node.key = some node := by
  obtain ⟨held, home⟩ := (Registry.lookup_self_iff _ node).mp known
  exact (Registry.lookup_self_iff _ node).mpr ⟨leaves.held node.key held, home.trans leaves.number.symm⟩

theorem mark_by_leaves (workspace : Workspace) (compilation : Compilation)
    (steady : compilation.bodies.Steady) (schedule : Schedule) (record : Bool) (roots : List Node)
    (closed : workspace.Closed compilation.catalog) (faithful : workspace.Faithful compilation) :
    workspace.Leaves compilation (workspace.markBy compilation schedule record roots).2 := by
  refine mark_by_keeps compilation schedule (workspace.Leaves compilation) ?_ ?_ workspace record roots ?_
  · intro later node left
    exact ⟨later.needs_closed compilation node left.closed,
      later.needs_faithful compilation steady node left.faithful,
      (later.needs_number compilation node).trans left.number,
      fun key held => later.needs_keeps_held compilation node key (left.held key held),
      fun other edges filled => later.needs_keeps_filled compilation node other edges (left.kept other edges filled),
      (later.needs_names compilation node).trans left.named⟩
  · intro later key left
    exact ⟨later.register_closed compilation.catalog key left.closed, left.faithful,
      (later.registry.register_number compilation.catalog key).trans left.number,
      fun query held => later.registry.register_keeps compilation.catalog key query (left.held query held),
      left.kept, left.named⟩
  · exact ⟨closed, faithful, rfl, fun _ held => held, fun _ _ filled => filled, rfl⟩

end Workspace

namespace Sweep

structure Halted (compilation : Compilation) (initial : Workspace) (roots : List Node) (turn : Nat)
    (halt : Halt) : Prop where
  next : (compilation.queue (roots.map (·.key)) turn)[turn]? = some halt.node.key
  home : halt.node.home = initial.registry.number
  admitted : compilation.catalog.Admits halt.node.key
  origin : ∃ workspace : Workspace, workspace.Closed compilation.catalog ∧
    workspace.needs compilation halt.node = (.error halt.fault, halt.workspace)
  primed : ∀ earlier key, earlier < turn →
    (compilation.queue (roots.map (·.key)) earlier)[earlier]? = some key →
    ∃ edges, halt.workspace.edges.get? ⟨initial.registry.number, key⟩ = some edges
  beyond : ∃ key, compilation.Reaches (roots.map (·.key)) key ∧ ¬ compilation.catalog.Admits key

theorem underway_node (compilation : Compilation) (initial : Workspace) (roots waiting : List Node)
    (node : Node) (sweep : Sweep) (underway : Underway compilation initial roots (node :: waiting) sweep) :
    node.home = initial.registry.number ∧ compilation.catalog.Admits node.key := by
  have marked := tally_marked compilation initial roots waiting node sweep underway.tally
  have held := (Registry.lookup_self_iff _ _).mp (underway.traced.held node marked)
  exact ⟨held.2.trans underway.accounted.number, underway.traced.closed.admitted node.key held.1⟩

theorem visit_halts (compilation : Compilation) (steady : compilation.bodies.Steady) (initial : Workspace)
    (roots waiting : List Node) (node : Node) (sweep : Sweep)
    (underway : Underway compilation initial roots (node :: waiting) sweep) :
    Settles (fun _ => True) (fun halt => ∃ turn, Halted compilation initial roots turn halt)
      (sweep.visit compilation node) := by
  have traced := traced_visit compilation steady initial roots waiting node sweep underway.tally underway.traced
  obtain ⟨home, admitted⟩ := underway_node compilation initial roots waiting node sweep underway
  rcases visit_closed compilation sweep node underway.traced.closed with
    ⟨fault, refused, result⟩ | ⟨_, _, _, _, result⟩ <;> rw [result] at traced ⊢
  · refine ⟨sweep.visits.length, queued_next compilation roots waiting node sweep underway.queued, home, admitted,
      ⟨sweep.workspace, underway.traced.closed, Prod.ext refused rfl⟩, ?_, traced⟩
    intro earlier key before here
    obtain ⟨visit, member, rfl⟩ :=
      queued_visited compilation roots _ sweep underway.queued earlier key before here
    have marked : visit.node ∈ sweep.marks.nodes :=
      underway.tally.order.mem_iff.mp (List.mem_append_left _ (List.mem_map_of_mem member))
    have visitHome := ((Registry.lookup_self_iff _ _).mp (underway.traced.held visit.node marked)).2
    rw [← underway.accounted.number, ← visitHome]
    exact ⟨visit.edges, sweep.workspace.needs_keeps_filled compilation node _ _
      (underway.accounted.filled visit member)⟩
  · trivial

theorem run_halts (compilation : Compilation) (steady : compilation.bodies.Steady) (workspace : Workspace)
    (roots : List Node) (closed : workspace.Closed compilation.catalog)
    (faithful : workspace.Faithful compilation)
    (known : ∀ root ∈ roots, workspace.registry.lookup root.key = some root) :
    Settles (fun _ => True) (fun halt => ∃ turn, Halted compilation workspace roots turn halt)
      (run compilation .worklist workspace roots) := by
  have settled := run_settles_batches compilation .worklist workspace roots
    (Underway compilation workspace roots) (fun halt => ∃ turn, Halted compilation workspace roots turn halt)
    (underway_start compilation workspace roots closed faithful known)
    (fun round sweep underway _ => underway_take compilation workspace roots round sweep underway)
    (fun node waiting sweep underway => settles_imp _ _ _ _ (settles_and _ _ _ _
      (visit_halts compilation steady workspace roots waiting node sweep underway)
      (underway_visit compilation steady workspace roots waiting node sweep underway)) fun _ both => both.2)
  exact settles_imp _ _ _ _ settled fun _ _ => trivial

section Retraces

variable (compilation : Compilation) (steady : compilation.bodies.Steady) (initial : Workspace)
  (roots : List Node) (turn : Nat) (halt : Halt) (halted : Halted compilation initial roots turn halt)
  (left : initial.Leaves compilation halt.workspace)

include steady halted left

-- Up to the turn at which the first attempt failed the cells are filled. There the
-- body is read once more.
theorem visit_retraces (waiting : List Node) (node : Node) (sweep : Sweep)
    (underway : Underway compilation halt.workspace roots (node :: waiting) sweep)
    (same : sweep.workspace = halt.workspace) (early : sweep.visits.length ≤ turn) :
    Settles (fun after => after.workspace = halt.workspace ∧ after.visits.length ≤ turn)
      (fun again => again = ⟨halt.fault, halt.node,
        { halt.workspace with read := halt.workspace.read ++ halt.node.key.bodyOf?.toList }⟩)
      (sweep.visit compilation node) := by
  have next := queued_next compilation roots waiting node sweep underway.queued
  have home := (underway_node compilation halt.workspace roots waiting node sweep underway).1.trans left.number
  by_cases before : sweep.visits.length < turn
  · obtain ⟨edges, filled⟩ := halted.primed _ node.key before next
    have here : node = ⟨initial.registry.number, node.key⟩ := by rw [← home]
    rw [← here, ← same] at filled
    have answered := sweep.workspace.needs_filled compilation node edges filled
    rcases visit_closed compilation sweep node underway.traced.closed with
      ⟨fault, refused, _⟩ | ⟨_, _, _, _, result⟩
    · cases (congrArg Prod.fst answered).symm.trans refused
    · rw [result, answered]
      refine ⟨same, ?_⟩
      rw [List.length_append, List.length_singleton]
      exact before
  · have now : sweep.visits.length = turn := Nat.le_antisymm early (Nat.le_of_not_lt before)
    have key : node.key = halt.node.key := Option.some.inj (next.symm.trans (now ▸ halted.next))
    have here : node = halt.node :=
      (Node.mk.injEq _ _ _ _).mpr ⟨home.trans halted.home.symm, key⟩
    obtain ⟨workspace, _, stopped⟩ := halted.origin
    have again := (workspace.needs_refused_again compilation steady halt.node halt.fault
      (congrArg Prod.fst stopped)).2
    rw [stopped, ← same, ← here] at again
    rw [visit, again]
    simp only [Settles, same, here]

theorem run_retraces (known : ∀ root ∈ roots, halt.workspace.registry.lookup root.key = some root) :
    run compilation .worklist halt.workspace roots = .error ⟨halt.fault, halt.node,
      { halt.workspace with read := halt.workspace.read ++ halt.node.key.bodyOf?.toList }⟩ := by
  have settled := run_settles_batches compilation .worklist halt.workspace roots
    (fun waiting sweep => (sweep.workspace = halt.workspace ∧ sweep.visits.length ≤ turn) ∧
      Underway compilation halt.workspace roots waiting sweep) _
    ⟨⟨rfl, Nat.zero_le _⟩, underway_start compilation halt.workspace roots left.closed left.faithful known⟩
    (fun round sweep now _ => ⟨now.1, underway_take compilation halt.workspace roots round sweep now.2⟩)
    (fun node waiting sweep now => settles_and _ _ _ _
      (visit_retraces compilation steady initial roots turn halt halted left waiting node sweep now.2
        now.1.1 now.1.2)
      (underway_visit compilation steady halt.workspace roots waiting node sweep now.2))
  cases ran : run compilation .worklist halt.workspace roots with
  | error again =>
      rw [ran] at settled
      exact congrArg Except.error settled
  | ok final =>
      obtain ⟨key, reaches, refused⟩ := halted.beyond
      have all := (run_done_iff compilation steady .worklist halt.workspace roots left.closed left.faithful
        known).mp ⟨final, ran⟩
      exact absurd (all key reaches) refused

theorem halted_stuck :
    ∃ method request, halt.node.key = .body method ∧
      compilation.Stuck (roots.map (·.key)) turn method request ∧
      compilation.catalog.checkKey request.target = .error halt.fault := by
  obtain ⟨workspace, closed, stopped⟩ := halted.origin
  obtain ⟨method, request, body, first, checked⟩ := workspace.needs_stops compilation steady halt.node halt.fault
    (congrArg Prod.fst stopped) closed halted.admitted
  refine ⟨method, request, body, ⟨body ▸ halted.next, first, ?_⟩, checked⟩
  intro earlier other before here edge member
  obtain ⟨edges, filled⟩ := halted.primed earlier _ before here
  have ruled := left.faithful _ edges filled
  obtain rfl := Except.ok.inj ruled
  exact left.closed.admitted _ (left.closed.registered _ _ filled edge member)

end Retraces

end Sweep

namespace Session

theorem failed_marking_repeats (bodies : Bodies) (steady : bodies.Steady) (site : Site)
    (history : List Command) (record : Bool) (roots : List Node)
    (known : (after bodies site history).Holds roots) (fault : Fault)
    (failed : ((after bodies site history).workspace.markBy ((after bodies site history).compilation bodies)
      .worklist record roots).1 = .error fault) :
    let session := after bodies site history
    let compilation := session.compilation bodies
    let left := (session.workspace.markBy compilation .worklist record roots).2
    ∃ turn method request, compilation.Stuck (roots.map (·.key)) turn method request ∧
      (session.workspace.register session.catalog request.target).1 = .error fault ∧
      left.edges.get? ⟨session.workspace.registry.number, .body method⟩ = none ∧
      session.workspace.Leaves compilation left ∧
      left.markBy compilation .worklist record roots =
        (.error fault, { left with read := left.read ++ [method] }) := by
  intro session compilation left
  have closed := after_closed bodies site history
  have faithful := after_faithful bodies steady site history
  have leaves := session.workspace.mark_by_leaves compilation steady .worklist record roots closed faithful
  have settled := Sweep.run_halts compilation steady session.workspace roots closed faithful known
  rcases session.workspace.mark_by_cases compilation .worklist record roots with
    ⟨halt, ran, result⟩ | ⟨final, _, result⟩
  · have space : left = halt.workspace := congrArg Prod.snd result
    rw [ran] at settled
    obtain ⟨turn, halted⟩ := settled
    obtain rfl : halt.fault = fault := Except.error.inj ((congrArg Prod.fst result).symm.trans failed)
    change session.workspace.Leaves compilation left at leaves
    rw [space] at leaves ⊢
    obtain ⟨method, request, body, stuck, checked⟩ :=
      Sweep.halted_stuck compilation steady session.workspace roots turn halt halted leaves
    obtain ⟨workspace, _, stopped⟩ := halted.origin
    have empty := (workspace.needs_refused_again compilation steady halt.node halt.fault
      (congrArg Prod.fst stopped)).1
    have again := Sweep.run_retraces compilation steady session.workspace roots turn halt halted leaves
      fun root member => Workspace.leaves_lookup compilation _ _ leaves root (known root member)
    refine ⟨turn, method, request, stuck, ?_, ?_, leaves, ?_⟩
    · exact session.workspace.closed_refuses session.catalog closed request.target halt.fault checked
    · rw [stopped] at empty
      rw [← body, ← halted.home]
      exact empty
    · simp only [Workspace.markBy, again, body, Key.bodyOf?, Option.toList_some]
  · cases (congrArg Prod.fst result).symm.trans failed

def losing : Bodies :=
  .ofList [(⟨0⟩, [⟨.stub .newObject (.type ⟨0⟩), "new"⟩, ⟨.body ⟨1⟩, "call"⟩]),
    (⟨1⟩, [⟨.stub .cast (.type ⟨0⟩), "cast"⟩, ⟨.body ⟨7⟩, "lost"⟩, ⟨.stub .isInstance (.type ⟨0⟩), "test"⟩])]

def losingHistory : List Command :=
  [.describe (.type (.named "App" "Loop" [])),
    .describe (.method { owner := ⟨0⟩, name := "Run", traits := { isVirtual := true } }),
    .describe (.method { owner := ⟨0⟩, name := "Stop" }), .register (.virtualUse ⟨0⟩)]

theorem lost_body_repeats :
    let session := after losing (.sample 0) losingHistory
    let compilation := session.compilation losing
    let roots : List Node := [⟨0, .virtualUse ⟨0⟩⟩]
    let left := (session.workspace.markBy compilation .worklist true roots).2
    losing.Steady ∧ session.Holds roots ∧
    (session.workspace.markBy compilation .worklist true roots).1 =
      .error (.unknownPayload .body (.method ⟨7⟩)) ∧
    left.registry.size = 5 ∧ left.edges.filled.length = 3 ∧
    ∃ turn method request, compilation.Stuck (roots.map (·.key)) turn method request ∧
      (session.workspace.register session.catalog request.target).1 =
        .error (.unknownPayload .body (.method ⟨7⟩)) ∧
      left.edges.get? ⟨session.workspace.registry.number, .body method⟩ = none ∧
      session.workspace.Leaves compilation left ∧
      left.markBy compilation .worklist true roots =
        (.error (.unknownPayload .body (.method ⟨7⟩)), { left with read := left.read ++ [method] }) := by
  intro session compilation roots left
  have steady : losing.Steady := Bodies.of_list_steady _
  have known : session.Holds roots := by decide
  refine ⟨steady, known, rfl, rfl, rfl, ?_⟩
  exact failed_marking_repeats losing steady (.sample 0) losingHistory true roots known _ rfl

end Session

end ArtifactGraph
