import ArtifactGraph.Proofs.Sessions

set_option autoImplicit false

namespace ArtifactGraph

namespace Compilation

-- What artifacts require, read off the rules. A stub for a type requires nothing,
-- and neither does a key of the wrong shape.
inductive Requires (compilation : Compilation) : Key → Key → Prop where
  | slot (method : MethodId) :
      Requires compilation (.stub .virtualCall (.method method)) (.virtualUse method)
  | target (record : Delegate) :
      Requires compilation (.stub .delegate (.delegate record)) (.body record.target)
  | implementation (method : MethodId)
      (concrete : ∀ traits, compilation.catalog.traits? method = some traits → traits.isAbstract = false) :
      Requires compilation (.virtualUse method) (.body method)
  | code (method : MethodId) (edge : Edge) (member : edge ∈ compilation.bodies.needs [] method) :
      Requires compilation (.body method) edge.target

-- The least set of keys that holds the roots and whatever its members require.
inductive Reaches (compilation : Compilation) (roots : List Key) : Key → Prop where
  | root (key : Key) (member : key ∈ roots) : Reaches compilation roots key
  | next (source target : Key) (reached : Reaches compilation roots source)
      (required : compilation.Requires source target) : Reaches compilation roots target

theorem requires_iff (compilation : Compilation) (key : Key) (edges : List Edge)
    (ruled : compilation.needs [] key = .ok edges) (target : Key) :
    compilation.Requires key target ↔ ∃ edge ∈ edges, edge.target = target := by
  constructor
  · intro required
    cases required with
    | slot method => exact ⟨⟨_, slotReason⟩, by simp [← Except.ok.inj ruled], rfl⟩
    | target record => exact ⟨⟨_, targetReason⟩, by simp [← Except.ok.inj ruled], rfl⟩
    | implementation method concrete =>
        cases known : compilation.catalog.traits? method with
        | none => simp [needs, known] at ruled
        | some traits =>
            simp only [needs, known, concrete traits known, Bool.false_eq_true, if_false] at ruled
            exact ⟨⟨_, implementationReason⟩, by simp [← Except.ok.inj ruled], rfl⟩
    | code method edge member => exact ⟨edge, Except.ok.inj ruled ▸ member, rfl⟩
  · rintro ⟨edge, member, rfl⟩
    cases key with
    | body method => exact .code method edge (Except.ok.inj ruled ▸ member)
    | virtualUse method =>
        cases known : compilation.catalog.traits? method with
        | none => simp [needs, known] at ruled
        | some traits =>
            cases abstract : traits.isAbstract with
            | true =>
                simp only [needs, known, abstract, if_true] at ruled
                simp [← Except.ok.inj ruled] at member
            | false =>
                simp only [needs, known, abstract, Bool.false_eq_true, if_false] at ruled
                rw [← Except.ok.inj ruled, List.mem_singleton] at member
                rw [member]
                exact .implementation method fun other same => by
                  rw [known, Option.some.injEq] at same
                  exact same ▸ abstract
    | stub made payload =>
        cases made <;> cases payload <;>
          simp only [needs, Key.checkFit, Key.payload, Key.expects, Payload.shape, Stub.expects,
            bind, Except.bind, pure, Except.pure, reduceCtorEq, if_true, if_false,
            Except.ok.injEq] at ruled <;>
          simp only [← ruled, List.not_mem_nil, List.mem_singleton] at member
        · rw [member]
          exact .slot _
        · rw [member]
          exact .target _

theorem reaches_alike (one two : Compilation) (catalogs : one.catalog = two.catalog)
    (needs : ∀ method edge, edge ∈ one.bodies.needs [] method → edge ∈ two.bodies.needs [] method)
    (roots others : List Key) (same : ∀ key ∈ roots, key ∈ others) (key : Key)
    (reaches : one.Reaches roots key) : two.Reaches others key := by
  induction reaches with
  | root key member => exact .root key (same key member)
  | next source target _ required reached =>
      refine .next source target reached ?_
      cases required with
      | slot method => exact .slot method
      | target record => exact .target record
      | implementation method concrete => exact .implementation method (catalogs ▸ concrete)
      | code method edge member => exact .code method edge (needs method edge member)

theorem reaches_append (compilation : Compilation) (left right : List Key) (key : Key) :
    compilation.Reaches (left ++ right) key ↔ compilation.Reaches left key ∨ compilation.Reaches right key := by
  constructor
  · intro reaches
    induction reaches with
    | root key member => exact (List.mem_append.mp member).imp (.root key) (.root key)
    | next source target _ required ih =>
        exact ih.imp (fun reached => .next source target reached required) fun reached => .next source target reached required
  · have grows := fun roots within => compilation.reaches_alike compilation rfl (fun _ _ => id) roots
      (left ++ right) within key
    rintro (reached | reached)
    · exact grows left (fun _ => List.mem_append_left right) reached
    · exact grows right (fun _ => List.mem_append_right left) reached

end Compilation

namespace Sweep

theorem follow_all_held (compilation : Compilation) (source : Node) (edges : List Edge) (sweep : Sweep)
    (held : ∀ edge ∈ edges, sweep.workspace.registry.contains edge.target = true) :
    edges.foldlM (follow compilation source) sweep =
      .ok { sweep with
        marks := ⟨sweep.marks.made ++
          sweep.marks.discover sweep.workspace.registry.number source.key edges⟩
        pending := sweep.pending ++
          (sweep.marks.discover sweep.workspace.registry.number source.key edges).map (·.node) } := by
  induction edges generalizing sweep with
  | nil => simp [Marks.discover, pure, Except.pure]
  | cons edge rest ih =>
      rw [List.foldlM_cons]
      cases marked : sweep.marks.contains edge.target with
      | true =>
          have step : follow compilation source sweep edge = .ok sweep := by rw [follow, if_pos marked]
          rw [step]
          simpa [Marks.discover, marked, bind, Except.bind] using
            ih sweep fun other member => held other (List.mem_cons_of_mem edge member)
      | false =>
          have here := sweep.workspace.registry.register_held compilation.catalog edge.target
            (held edge (by simp))
          have step : follow compilation source sweep edge = .ok { sweep with
              marks := sweep.marks.insert ⟨sweep.workspace.registry.number, edge.target⟩
                (some ⟨source.key, edge.reason⟩)
              pending := sweep.pending ++ [⟨sweep.workspace.registry.number, edge.target⟩] } := by
            simp [follow, marked, Workspace.register, here]
          rw [step]
          have rest := ih { sweep with
              marks := sweep.marks.insert ⟨sweep.workspace.registry.number, edge.target⟩
                (some ⟨source.key, edge.reason⟩)
              pending := sweep.pending ++ [⟨sweep.workspace.registry.number, edge.target⟩] }
            fun other member => held other (List.mem_cons_of_mem edge member)
          simpa [Marks.discover, marked, bind, Except.bind,
            Marks.insert_appends sweep.marks ⟨sweep.workspace.registry.number, edge.target⟩ _ marked]
            using rest

theorem visit_closed (compilation : Compilation) (sweep : Sweep) (node : Node)
    (closed : sweep.workspace.Closed compilation.catalog) :
    (∃ fault, (sweep.workspace.needs compilation node).1 = .error fault ∧
      sweep.visit compilation node =
        .error ⟨fault, node, (sweep.workspace.needs compilation node).2⟩) ∨
    (∃ edges found, (sweep.workspace.needs compilation node).1 = .ok edges ∧
      found = sweep.marks.discover sweep.workspace.registry.number node.key edges ∧
      sweep.visit compilation node = .ok
        { workspace := (sweep.workspace.needs compilation node).2
          marks := ⟨sweep.marks.made ++ found⟩
          pending := sweep.pending ++ found.map (·.node)
          visits := sweep.visits ++ [⟨node, edges⟩] }) := by
  rcases visit_cases compilation sweep node with ⟨fault, refused, result⟩ | ⟨edges, found, result⟩
  · exact .inl ⟨fault, refused, result⟩
  · refine .inr ⟨edges, _, found, rfl, ?_⟩
    have held := sweep.workspace.needs_ok compilation node edges closed found
    rw [result, follow_all_held compilation node edges _ held]
    simp only [Workspace.needs_number]

structure Traced (compilation : Compilation) (roots : List Node) (sweep : Sweep) : Prop where
  closed : sweep.workspace.Closed compilation.catalog
  faithful : sweep.workspace.Faithful compilation
  held : ∀ node ∈ sweep.marks.nodes, sweep.workspace.registry.lookup node.key = some node
  rooted : ∀ key ∈ roots.map (·.key), key ∈ sweep.marks.keys
  reached : ∀ key ∈ sweep.marks.keys, compilation.Reaches (roots.map (·.key)) key
  followed : ∀ visit ∈ sweep.visits, compilation.needs [] visit.node.key = .ok visit.edges ∧
    ∀ edge ∈ visit.edges, edge.target ∈ sweep.marks.keys

theorem traced_start (compilation : Compilation) (workspace : Workspace) (roots : List Node)
    (closed : workspace.Closed compilation.catalog) (faithful : workspace.Faithful compilation)
    (known : ∀ root ∈ roots, workspace.registry.lookup root.key = some root) :
    Traced compilation roots (start workspace roots) where
  closed := closed
  faithful := faithful
  held node member := known node (Marks.of_roots_nodes roots node member)
  rooted key member := (Marks.of_roots_keys roots key).mpr member
  reached key member := .root key ((Marks.of_roots_keys roots key).mp member)
  followed _ member := nomatch member

theorem traced_take (compilation : Compilation) (roots : List Node) (sweep : Sweep) (later : List Node)
    (traced : Traced compilation roots sweep) :
    Traced compilation roots { sweep with pending := later } where
  closed := traced.closed
  faithful := traced.faithful
  held := traced.held
  rooted := traced.rooted
  reached := traced.reached
  followed := traced.followed

theorem traced_visit (compilation : Compilation) (steady : compilation.bodies.Steady)
    (initial : Workspace) (roots waiting : List Node) (node : Node) (sweep : Sweep)
    (tally : Tally compilation initial roots (node :: waiting) sweep)
    (traced : Traced compilation roots sweep) :
    Settles (Traced compilation roots)
      (fun _ => ∃ key, compilation.Reaches (roots.map (·.key)) key ∧ ¬ compilation.catalog.Admits key)
      (sweep.visit compilation node) := by
  have marked := tally_marked compilation initial roots waiting node sweep tally
  have nodeReached := traced.reached node.key ((sweep.marks.mem_keys_iff _).mpr ⟨node, marked, rfl⟩)
  rcases visit_closed compilation sweep node traced.closed with
    ⟨fault, refused, result⟩ | ⟨edges, found, answer, here, result⟩ <;> rw [result]
  · have held := (Registry.lookup_self_iff _ _).mp (traced.held node marked)
    have admitted := traced.closed.admitted node.key held.1
    obtain ⟨edges, ruled, edge, member, bad⟩ :=
      sweep.workspace.needs_refused compilation node fault admitted refused
    rw [compilation.needs_steady steady] at ruled
    exact ⟨edge.target, .next _ _ nodeReached
      ((compilation.requires_iff _ _ ruled _).mpr ⟨edge, member, rfl⟩), bad⟩
  · have ruled := sweep.workspace.needs_ruled compilation steady traced.faithful node edges answer
    have targetsHeld := sweep.workspace.needs_ok compilation node edges traced.closed answer
    have number := sweep.workspace.needs_number compilation node
    refine ⟨sweep.workspace.needs_closed compilation node traced.closed,
      sweep.workspace.needs_faithful compilation steady node traced.faithful, ?_, ?_, ?_, ?_⟩ <;>
      rw [here]
    · intro other member
      rcases Marks.discover_nodes _ _ _ edges other member with old | ⟨edge, edgeMember, rfl⟩
      · obtain ⟨held, home⟩ := (Registry.lookup_self_iff _ _).mp (traced.held other old)
        exact (Registry.lookup_self_iff _ _).mpr
          ⟨sweep.workspace.needs_keeps_held compilation node _ held, home.trans number.symm⟩
      · exact (Registry.lookup_self_iff _ _).mpr ⟨targetsHeld edge edgeMember, number.symm⟩
    · intro key member
      exact (Marks.discover_keys _ _ _ edges key).mpr (.inl (traced.rooted key member))
    · intro key member
      rcases (Marks.discover_keys _ _ _ edges key).mp member with old | leads
      · exact traced.reached key old
      · exact .next _ _ nodeReached ((compilation.requires_iff _ _ ruled _).mpr leads)
    · intro visit member
      rcases List.mem_append.mp member with old | new
      · obtain ⟨visitRuled, leads⟩ := traced.followed visit old
        refine ⟨visitRuled, fun edge edgeMember => ?_⟩
        exact (Marks.discover_keys _ _ _ edges _).mpr (.inl (leads edge edgeMember))
      · rw [List.mem_singleton.mp new]
        refine ⟨ruled, fun edge edgeMember => ?_⟩
        exact (Marks.discover_keys _ _ _ edges _).mpr (.inr ⟨edge, edgeMember, rfl⟩)

structure Accounted (initial : Workspace) (roots : List Node) (sweep : Sweep) : Prop where
  number : sweep.workspace.registry.number = initial.registry.number
  registered : ∀ key, sweep.workspace.registry.contains key = true ↔
    initial.registry.contains key = true ∨ key ∈ sweep.marks.keys
  rooted : ∀ key, sweep.marks.isRoot key = true ↔ key ∈ roots.map (·.key)
  filled : ∀ visit ∈ sweep.visits, sweep.workspace.edges.get? visit.node = some visit.edges
  kept : ∀ node, node ∉ sweep.visits.map (·.node) →
    sweep.workspace.edges.get? node = initial.edges.get? node
  read : sweep.workspace.read = initial.read ++ sweep.visits.flatMap fun visit => initial.reads visit.node

theorem accounted_start (workspace : Workspace) (roots : List Node)
    (known : ∀ root ∈ roots, workspace.registry.lookup root.key = some root) :
    Accounted workspace roots (start workspace roots) where
  number := rfl
  registered key := by
    refine ⟨.inl, ?_⟩
    rintro (held | marked)
    · exact held
    · obtain ⟨root, member, rfl⟩ := List.mem_map.mp ((Marks.of_roots_keys roots key).mp marked)
      exact ((Registry.lookup_self_iff _ _).mp (known root member)).1
  rooted := Marks.is_root_of_roots roots
  filled _ member := nomatch member
  kept _ _ := rfl
  read := by simp [start]

theorem accounted_take (initial : Workspace) (roots : List Node) (sweep : Sweep) (later : List Node)
    (accounted : Accounted initial roots sweep) :
    Accounted initial roots { sweep with pending := later } where
  number := accounted.number
  registered := accounted.registered
  rooted := accounted.rooted
  filled := accounted.filled
  kept := accounted.kept
  read := accounted.read

theorem accounted_visit (compilation : Compilation) (initial : Workspace) (roots waiting : List Node)
    (node : Node) (sweep : Sweep) (tally : Tally compilation initial roots (node :: waiting) sweep)
    (traced : Traced compilation roots sweep) (accounted : Accounted initial roots sweep) :
    Settles (Accounted initial roots) (fun _ => True) (sweep.visit compilation node) := by
  have fresh : node ∉ sweep.visits.map (·.node) := by
    have split := tally.order.nodup_iff.mpr (sweep.marks.nodes_once tally.once)
    rw [List.nodup_append] at split
    exact fun member => split.2.2 node member node (by simp) rfl
  rcases visit_closed compilation sweep node traced.closed with
    ⟨_, _, result⟩ | ⟨edges, found, answer, here, result⟩ <;> rw [result]
  · trivial
  · obtain ⟨filled, elsewhere, read⟩ := sweep.workspace.needs_fills compilation node edges answer
    refine ⟨(sweep.workspace.needs_number compilation node).trans accounted.number, ?_, ?_, ?_, ?_, ?_⟩
    · intro key
      rw [sweep.workspace.needs_contains compilation node edges traced.closed answer,
        accounted.registered, here, Marks.discover_keys, or_assoc]
    · intro key
      rw [here, Marks.discover_roots]
      exact accounted.rooted key
    · intro visit member
      rcases List.mem_append.mp member with old | new
      · have different : visit.node ≠ node := fun same => fresh (same ▸ List.mem_map_of_mem old)
        rw [elsewhere visit.node different]
        exact accounted.filled visit old
      · rw [List.mem_singleton.mp new]
        exact filled
    · intro other absent
      rw [List.map_append, List.mem_append, not_or] at absent
      have different : other ≠ node := by simpa using absent.2
      rw [elsewhere other different]
      exact accounted.kept other absent.1
    · have untouched : sweep.workspace.reads node = initial.reads node := by
        simp only [Workspace.reads, accounted.kept node fresh]
      rw [read, accounted.read, untouched, List.flatMap_append, List.append_assoc]
      simp

structure Complete (compilation : Compilation) (initial : Workspace) (roots : List Node)
    (final : Sweep) : Prop where
  tally : Tally compilation initial roots [] final
  traced : Traced compilation roots final
  accounted : Accounted initial roots final
  drained : final.pending = []

theorem run_complete (compilation : Compilation) (steady : compilation.bodies.Steady)
    (schedule : Schedule) (workspace : Workspace) (roots : List Node)
    (closed : workspace.Closed compilation.catalog) (faithful : workspace.Faithful compilation)
    (known : ∀ root ∈ roots, workspace.registry.lookup root.key = some root) :
    Settles (Complete compilation workspace roots)
      (fun _ => ∃ key, compilation.Reaches (roots.map (·.key)) key ∧ ¬ compilation.catalog.Admits key)
      (run compilation schedule workspace roots) := by
  have settled := run_settles compilation schedule workspace roots
    (fun waiting sweep => Traced compilation roots sweep ∧
      Tally compilation workspace roots waiting sweep ∧ Accounted workspace roots sweep)
    (fun _ => ∃ key, compilation.Reaches (roots.map (·.key)) key ∧ ¬ compilation.catalog.Admits key)
    ⟨traced_start compilation workspace roots closed faithful known,
      tally_start compilation workspace roots, accounted_start workspace roots known⟩
    (fun sweep now later ⟨traced, tally, accounted⟩ split =>
      ⟨traced_take compilation roots sweep later traced,
        tally_take compilation workspace roots sweep now later tally split,
        accounted_take workspace roots sweep later accounted⟩)
    (fun node waiting sweep ⟨traced, tally, accounted⟩ => settles_and _ _ _ _
      (traced_visit compilation steady workspace roots waiting node sweep tally traced)
      (settles_and _ _ _ _ (tally_visit compilation workspace roots node waiting sweep tally)
        (accounted_visit compilation workspace roots waiting node sweep tally traced accounted)))
  exact settles_imp _ _ _ _ settled fun final ⟨⟨traced, tally, accounted⟩, drained⟩ =>
    ⟨tally, traced, accounted, drained⟩

theorem complete_visited (compilation : Compilation) (initial : Workspace) (roots : List Node)
    (final : Sweep) (complete : Complete compilation initial roots final) :
    (final.visits.map (·.node)).Perm final.marks.nodes := by
  exact tally_visited compilation initial roots final complete.tally complete.drained

theorem complete_keys (compilation : Compilation) (initial : Workspace) (roots : List Node)
    (final : Sweep) (complete : Complete compilation initial roots final) (key : Key) :
    key ∈ final.marks.keys ↔ compilation.Reaches (roots.map (·.key)) key := by
  constructor
  · exact complete.traced.reached key
  · intro reaches
    induction reaches with
    | root key member => exact complete.traced.rooted key member
    | next source target _ required marked =>
        obtain ⟨node, member, rfl⟩ := (final.marks.mem_keys_iff source).mp marked
        have visited := (complete_visited compilation initial roots final complete).mem_iff.mpr member
        obtain ⟨visit, visitMember, rfl⟩ := List.mem_map.mp visited
        obtain ⟨ruled, leads⟩ := complete.traced.followed visit visitMember
        obtain ⟨edge, edgeMember, rfl⟩ := (compilation.requires_iff _ _ ruled target).mp required
        exact leads edge edgeMember

theorem complete_admitted (compilation : Compilation) (initial : Workspace) (roots : List Node)
    (final : Sweep) (complete : Complete compilation initial roots final) (key : Key)
    (reaches : compilation.Reaches (roots.map (·.key)) key) : compilation.catalog.Admits key := by
  have marked := (complete_keys compilation initial roots final complete key).mpr reaches
  obtain ⟨node, member, rfl⟩ := (final.marks.mem_keys_iff key).mp marked
  have held := (Registry.lookup_self_iff _ _).mp (complete.traced.held node member)
  exact complete.traced.closed.admitted node.key held.1

theorem run_done_iff (compilation : Compilation) (steady : compilation.bodies.Steady)
    (schedule : Schedule) (workspace : Workspace) (roots : List Node)
    (closed : workspace.Closed compilation.catalog) (faithful : workspace.Faithful compilation)
    (known : ∀ root ∈ roots, workspace.registry.lookup root.key = some root) :
    (∃ final, run compilation schedule workspace roots = .ok final) ↔
      ∀ key, compilation.Reaches (roots.map (·.key)) key → compilation.catalog.Admits key := by
  have settled := run_complete compilation steady schedule workspace roots closed faithful known
  cases done : run compilation schedule workspace roots with
  | error halt =>
      rw [done] at settled
      obtain ⟨key, reaches, refused⟩ := settled
      exact ⟨fun ⟨_, answered⟩ => (nomatch answered), fun all => absurd (all key reaches) refused⟩
  | ok final =>
      rw [done] at settled
      exact ⟨fun _ => complete_admitted compilation workspace roots final settled, fun _ => ⟨final, rfl⟩⟩

end Sweep

namespace Workspace

theorem mark_by_done_iff (workspace : Workspace) (compilation : Compilation) (schedule : Schedule)
    (record : Bool) (roots : List Node) :
    (∃ marking, (workspace.markBy compilation schedule record roots).1 = .ok marking) ↔
      ∃ final, Sweep.run compilation schedule workspace roots = .ok final := by
  rcases workspace.mark_by_cases compilation schedule record roots with
    ⟨halt, ran, result⟩ | ⟨final, ran, result⟩ <;> rw [ran, result]
  · exact ⟨fun ⟨_, answered⟩ => (nomatch answered), fun ⟨_, answered⟩ => (nomatch answered)⟩
  · exact ⟨fun _ => ⟨final, rfl⟩, fun _ => ⟨_, rfl⟩⟩

theorem mark_by_complete (workspace : Workspace) (compilation : Compilation)
    (steady : compilation.bodies.Steady) (schedule : Schedule) (record : Bool) (roots : List Node)
    (closed : workspace.Closed compilation.catalog) (faithful : workspace.Faithful compilation)
    (known : ∀ root ∈ roots, workspace.registry.lookup root.key = some root) (marking : Marking)
    (done : (workspace.markBy compilation schedule record roots).1 = .ok marking) :
    ∃ final, Sweep.Complete compilation workspace roots final ∧
      marking = ⟨final.marks, if record then some final.report else none⟩ ∧
      (workspace.markBy compilation schedule record roots).2 = final.workspace := by
  have settled := Sweep.run_complete compilation steady schedule workspace roots closed faithful known
  rcases workspace.mark_by_cases compilation schedule record roots with
    ⟨halt, ran, result⟩ | ⟨final, ran, result⟩ <;> rw [ran] at settled <;> rw [result] at done ⊢
  · exact nomatch done
  · exact ⟨final, settled, (Except.ok.inj done).symm, rfl⟩

end Workspace

namespace Session

def Holds (session : Session) (nodes : List Node) : Prop :=
  ∀ node ∈ nodes, session.workspace.registry.lookup node.key = some node

instance (session : Session) (nodes : List Node) : Decidable (session.Holds nodes) :=
  inferInstanceAs (Decidable (∀ node ∈ nodes, _))

theorem mark_marks_reached (bodies : Bodies) (steady : bodies.Steady) (site : Site)
    (history : List Command) (settings : Settings) (processors : Nat) (roots : List Node)
    (known : (after bodies site history).Holds roots) :
    let session := after bodies site history
    let compilation := session.compilation bodies
    let answer := (session.workspace.mark compilation settings processors roots).1
    ((∃ marking, answer = .ok marking) ↔
      ∀ key, compilation.Reaches (roots.map (·.key)) key → session.catalog.Admits key) ∧
    ∀ marking, answer = .ok marking →
      ∀ key, key ∈ marking.marks.keys ↔ compilation.Reaches (roots.map (·.key)) key := by
  intro session compilation answer
  have closed := after_closed bodies site history
  have faithful := after_faithful bodies steady site history
  constructor
  · simp only [answer, Workspace.mark]
    rw [Workspace.mark_by_done_iff]
    exact Sweep.run_done_iff compilation steady _ session.workspace roots closed faithful known
  · intro marking answered
    obtain ⟨final, complete, rfl, _⟩ := session.workspace.mark_by_complete compilation steady _ _ roots
      closed faithful known marking answered
    exact Sweep.complete_keys compilation session.workspace roots final complete

def selfCalling : Bodies :=
  .ofList [(⟨0⟩, [⟨.stub .newObject (.type ⟨0⟩), "new"⟩, ⟨.stub .virtualCall (.method ⟨0⟩), "call"⟩])]

def selfCallingHistory : List Command :=
  [.describe (.type (.named "App" "Loop" [])),
    .describe (.method { owner := ⟨0⟩, name := "Run", traits := { isVirtual := true } }),
    .register (.body ⟨7⟩), .register (.virtualUse ⟨0⟩)]

theorem mark_marks_self_calling :
    selfCalling.Steady ∧ (after selfCalling (.sample 0) selfCallingHistory).Holds [⟨0, .virtualUse ⟨0⟩⟩] ∧
    ∃ marking, ((after selfCalling (.sample 0) selfCallingHistory).workspace.mark
        ((after selfCalling (.sample 0) selfCallingHistory).compilation selfCalling) .sequential 4
        [⟨0, .virtualUse ⟨0⟩⟩]).1 = .ok marking ∧
      marking.marks.size = 4 ∧
      ∀ key, key ∈ marking.marks.keys ↔
        ((after selfCalling (.sample 0) selfCallingHistory).compilation selfCalling).Reaches [.virtualUse ⟨0⟩] key := by
  have steady : selfCalling.Steady := Bodies.of_list_steady _
  have known : (after selfCalling (.sample 0) selfCallingHistory).Holds [⟨0, .virtualUse ⟨0⟩⟩] := by decide
  refine ⟨steady, known, _, rfl, rfl, ?_⟩
  exact (mark_marks_reached selfCalling steady (.sample 0) selfCallingHistory .sequential 4 _ known).2 _ rfl

end Session

end ArtifactGraph
