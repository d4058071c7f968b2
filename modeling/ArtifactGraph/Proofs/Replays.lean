import ArtifactGraph.Proofs.Seals

set_option autoImplicit false

namespace ArtifactGraph

namespace Workspace

structure Retains (before after : Workspace) : Prop where
  number : after.registry.number = before.registry.number
  held : ∀ key, before.registry.contains key = true → after.registry.contains key = true
  filled : ∀ node edges, before.edges.get? node = some edges → after.edges.get? node = some edges

theorem retains_sealed (before after : Workspace) (keys : List Key) (retained : before.Retains after)
    (whole : before.Sealed keys) : after.Sealed keys where
  held key member := retained.held key (whole.held key member)
  filled key member := by
    obtain ⟨edges, filled, within⟩ := whole.filled key member
    exact ⟨edges, retained.number ▸ retained.filled _ edges filled, within⟩

end Workspace

namespace Session

theorem perform_retains (bodies : Bodies) (before : Workspace) (session : Session) (command : Command)
    (retained : before.Retains session.workspace) : before.Retains (perform bodies session command).workspace := by
  refine perform_keeps bodies (fun _ workspace => before.Retains workspace) ?_ ?_ ?_ ?_ session command retained
  · exact fun _ _ _ _ kept => kept
  · intro catalog workspace key kept
    exact ⟨(workspace.registry.register_number catalog key).trans kept.number,
      fun query held => workspace.registry.register_keeps catalog key query (kept.held query held), kept.filled⟩
  · intro catalog workspace node kept
    exact ⟨(workspace.needs_number ⟨catalog, bodies⟩ node).trans kept.number,
      fun key held => workspace.needs_keeps_held ⟨catalog, bodies⟩ node key (kept.held key held),
      fun other edges filled =>
        workspace.needs_keeps_filled ⟨catalog, bodies⟩ node other edges (kept.filled other edges filled)⟩
  · exact fun _ _ _ kept => ⟨kept.number, kept.held, kept.filled⟩

end Session

namespace Sweep

theorem visit_filled (compilation : Compilation) (sweep : Sweep) (node : Node) (edges : List Edge)
    (filled : sweep.workspace.edges.get? node = some edges)
    (held : ∀ edge ∈ edges, sweep.workspace.registry.contains edge.target = true) :
    sweep.visit compilation node = .ok { sweep with
      marks := ⟨sweep.marks.made ++ sweep.marks.discover sweep.workspace.registry.number node.key edges⟩
      pending := sweep.pending ++
        (sweep.marks.discover sweep.workspace.registry.number node.key edges).map (·.node)
      visits := sweep.visits ++ [⟨node, edges⟩] } := by
  rw [visit, sweep.workspace.needs_filled compilation node edges filled]
  exact follow_all_held compilation node edges { sweep with visits := sweep.visits ++ [⟨node, edges⟩] } held

section Within

variable (compilation : Compilation) (workspace : Workspace) (keys : List Key) (whole : workspace.Sealed keys)

structure Confined (sweep : Sweep) : Prop where
  untouched : sweep.workspace = workspace
  homes : ∀ node ∈ sweep.marks.nodes, node.home = workspace.registry.number
  inside : ∀ key ∈ sweep.marks.keys, key ∈ keys

include whole

theorem confined_visit (node : Node) (sweep : Sweep) (marked : node ∈ sweep.marks.nodes)
    (confined : Confined workspace keys sweep) :
    Settles (Confined workspace keys) (fun _ => False) (sweep.visit compilation node) := by
  have inside := confined.inside node.key ((sweep.marks.mem_keys_iff _).mpr ⟨node, marked, rfl⟩)
  obtain ⟨edges, filled, within⟩ := whole.filled node.key inside
  rw [← confined.homes node marked, ← confined.untouched] at filled
  have held : ∀ edge ∈ edges, sweep.workspace.registry.contains edge.target = true := by
    intro edge member
    rw [confined.untouched]
    exact whole.held _ (within edge member)
  rw [visit_filled compilation sweep node edges filled held]
  refine ⟨confined.untouched, ?_, ?_⟩
  · intro other member
    rcases Marks.discover_nodes _ _ _ edges other member with old | ⟨edge, _, rfl⟩
    · exact confined.homes other old
    · rw [confined.untouched]
  · intro key member
    rcases (Marks.discover_keys _ _ _ edges key).mp member with old | ⟨edge, edgeMember, rfl⟩
    · exact confined.inside key old
    · exact within edge edgeMember

theorem run_confined (schedule : Schedule) (roots : List Node)
    (known : ∀ root ∈ roots, workspace.registry.lookup root.key = some root)
    (inside : ∀ root ∈ roots, root.key ∈ keys) :
    ∃ final, run compilation schedule workspace roots = .ok final ∧ Confined workspace keys final := by
  have settled := run_settles_marked compilation schedule workspace roots (Confined workspace keys)
    (fun _ => False) ?_ (fun _ _ confined => ⟨confined.untouched, confined.homes, confined.inside⟩)
    (confined_visit compilation workspace keys whole)
  · cases done : run compilation schedule workspace roots with
    | error halt =>
        rw [done] at settled
        exact settled.elim
    | ok final =>
        rw [done] at settled
        exact ⟨final, rfl, settled.1⟩
  · refine ⟨rfl, ?_, ?_⟩
    · intro node member
      exact ((Registry.lookup_self_iff _ node).mp (known node (Marks.of_roots_nodes roots node member))).2
    · intro key member
      obtain ⟨root, rootMember, rfl⟩ := List.mem_map.mp ((Marks.of_roots_keys roots key).mp member)
      exact inside root rootMember

end Within

def Recalled (workspace : Workspace) (visits : List Visit) : Prop :=
  ∀ visit ∈ visits, workspace.edges.get? visit.node = some visit.edges ∧
    ∀ edge ∈ visit.edges, workspace.registry.contains edge.target = true

theorem recalled_before (workspace : Workspace) (visits made : List Visit)
    (recalled : Recalled workspace (visits ++ made)) : Recalled workspace visits :=
  fun visit member => recalled visit (List.mem_append_left made member)

section Settled

variable (before now : Workspace) (roots : List Node) (final : Sweep) (settled : Settled before roots final)
  (retained : final.workspace.Retains now)

include settled retained

theorem settled_recalled : Recalled now final.visits := by
  intro visit member
  obtain ⟨filled, within⟩ := settled.visited visit member
  exact ⟨retained.filled _ _ filled, fun edge edgeMember =>
    retained.held _ (settled.whole.held _ (within edge edgeMember))⟩

theorem settled_covers (others : List Node) (second : Sweep) (resettled : Settled now others second)
    (untouched : second.workspace = now) (covered : ∀ root ∈ roots, root.key ∈ others.map (·.key)) (key : Key)
    (member : key ∈ final.marks.keys) : key ∈ second.marks.keys := by
  obtain ⟨count, steps⟩ := settled.stocked.led key member
  rw [← settled.number, ← retained.number] at steps
  have agree : final.workspace.edges.Agree now.edges := fun node first second filled found =>
    Option.some.inj ((retained.filled node first filled).symm.trans found)
  have whole : now.Sealed second.marks.keys := untouched ▸ resettled.whole
  refine now.sealed_steps final.workspace.edges agree second.marks.keys _ whole ?_ count key steps
  intro query rootMember
  obtain ⟨root, rooted, rfl⟩ := List.mem_map.mp rootMember
  obtain ⟨other, otherMember, same⟩ := List.mem_map.mp (covered root rooted)
  exact same ▸ resettled.rooted other otherMember

end Settled

theorem drain_visits (compilation : Compilation) (schedule : Schedule) (limit round : Nat) (sweep final : Sweep)
    (done : drain compilation schedule limit round sweep = .ok final) :
    ∃ made, final.visits = sweep.visits ++ made := by
  induction limit generalizing round sweep with
  | zero =>
      rw [← Except.ok.inj done]
      exact ⟨[], (List.append_nil _).symm⟩
  | succ limit ih =>
      by_cases idle : sweep.pending = []
      · rw [drain_idle compilation schedule _ round sweep idle] at done
        rw [← Except.ok.inj done]
        exact ⟨[], (List.append_nil _).symm⟩
      · rw [drain_busy compilation schedule limit round sweep idle] at done
        obtain ⟨next, worked, rest⟩ := bind_ok _ _ final done
        obtain ⟨first, _, grown⟩ := round_visits compilation _ _ next worked
        obtain ⟨made, whole⟩ := ih (round + 1) next rest
        exact ⟨first ++ made, by rw [whole, grown, List.append_assoc]⟩

section Replays

variable (one two : Compilation) (workspace : Workspace)

-- The second compilation is not asked for anything, so it may be any.
theorem visit_replays (node : Node) (sweep after : Sweep) (done : sweep.visit one node = .ok after)
    (number : sweep.workspace.registry.number = workspace.registry.number)
    (recalled : Recalled workspace after.visits) :
    after.workspace.registry.number = workspace.registry.number ∧
      Sweep.visit two { sweep with workspace } node = .ok { after with workspace } := by
  obtain ⟨edges, found, registry, _, here, same, rfl⟩ := visit_ok one sweep after node done
  obtain ⟨filled, held⟩ := recalled ⟨node, edges⟩ (by simp)
  refine ⟨same.trans number, ?_⟩
  rw [visit_filled two { sweep with workspace } node edges filled held, here, number]

theorem visit_all_replays (nodes : List Node) (sweep after : Sweep)
    (done : nodes.foldlM (visit one) sweep = .ok after)
    (number : sweep.workspace.registry.number = workspace.registry.number)
    (recalled : Recalled workspace after.visits) :
    after.workspace.registry.number = workspace.registry.number ∧
      nodes.foldlM (visit two) { sweep with workspace } = .ok { after with workspace } := by
  induction nodes generalizing sweep with
  | nil =>
      obtain rfl := Except.ok.inj done
      exact ⟨number, rfl⟩
  | cons node rest ih =>
      rw [List.foldlM_cons] at done ⊢
      obtain ⟨next, first, remaining⟩ := bind_ok _ _ after done
      obtain ⟨made, _, grown⟩ := round_visits one rest next after remaining
      obtain ⟨same, again⟩ := visit_replays one two workspace node sweep next first number
        (recalled_before workspace _ made (grown ▸ recalled))
      rw [again]
      exact ih next remaining same

theorem drain_replays (schedule : Schedule) (limit round : Nat) (sweep final : Sweep)
    (done : drain one schedule limit round sweep = .ok final)
    (number : sweep.workspace.registry.number = workspace.registry.number)
    (recalled : Recalled workspace final.visits) :
    drain two schedule limit round { sweep with workspace } = .ok { final with workspace } := by
  induction limit generalizing round sweep with
  | zero =>
      obtain rfl := Except.ok.inj done
      rfl
  | succ limit ih =>
      by_cases idle : sweep.pending = []
      · rw [drain_idle one schedule _ round sweep idle] at done
        obtain rfl := Except.ok.inj done
        exact drain_idle two schedule _ round { sweep with workspace } idle
      · rw [drain_busy one schedule limit round sweep idle] at done
        obtain ⟨next, worked, rest⟩ := bind_ok _ _ final done
        obtain ⟨made, grown⟩ := drain_visits one schedule limit (round + 1) next final rest
        obtain ⟨same, again⟩ := visit_all_replays one two workspace _ _ next worked number
          (recalled_before workspace _ made (grown ▸ recalled))
        rw [drain_busy two schedule limit round { sweep with workspace } idle]
        exact (congrArg (· >>= _) again).trans (ih (round + 1) next rest same)

theorem run_replays (schedule : Schedule) (before : Workspace) (roots : List Node) (final : Sweep)
    (done : run one schedule before roots = .ok final)
    (number : before.registry.number = workspace.registry.number)
    (recalled : Recalled workspace final.visits) :
    run two schedule workspace roots = .ok { final with workspace } := by
  rw [← run_within one schedule before roots (budget one before roots + budget two workspace roots)
    (Nat.le_add_right _ _)] at done
  rw [← run_within two schedule workspace roots (budget one before roots + budget two workspace roots)
    (Nat.le_add_left _ _)]
  exact drain_replays one two workspace schedule _ 0 (start before roots) final done number recalled

end Replays

end Sweep

namespace Session

theorem remarking_free (bodies : Bodies) (session : Session) (schedule : Schedule) (record : Bool)
    (roots : List Node) (known : session.Holds roots) (marking : Marking)
    (done : (session.workspace.markBy (session.compilation bodies) schedule record roots).1 = .ok marking)
    (later : List Command) :
    let now := later.foldl (perform bodies) (perform bodies session (.mark schedule record roots))
    (∀ another recording others, now.Holds others → (∀ other ∈ others, other.key ∈ marking.marks.keys) →
      ∃ again, now.workspace.markBy (now.compilation bodies) another recording others = (.ok again, now.workspace) ∧
        (∀ key ∈ again.marks.keys, key ∈ marking.marks.keys) ∧
        ((∀ root ∈ roots, root.key ∈ others.map (·.key)) →
          ∀ key ∈ marking.marks.keys, key ∈ again.marks.keys)) ∧
    ∀ recording, ∃ again,
      now.workspace.markBy (now.compilation bodies) schedule recording roots = (.ok again, now.workspace) ∧
        (∀ key, again.marks.explain key = marking.marks.explain key) ∧
        (recording = record → again.report? = marking.report?) := by
  intro now
  obtain ⟨final, ran, settled, result, rfl⟩ := session.workspace.mark_by_settled (session.compilation bodies)
    schedule record roots known marking done
  have retained : final.workspace.Retains now.workspace := by
    refine perform_all_induction bodies (fun session => final.workspace.Retains session.workspace)
      (fun session command => perform_retains bodies final.workspace session command) _ later ?_
    simp only [perform, result]
    exact ⟨rfl, fun _ held => held, fun _ _ filled => filled⟩
  have whole := final.workspace.retains_sealed now.workspace final.marks.keys retained settled.whole
  constructor
  · intro another recording others othersKnown inside
    obtain ⟨second, reran, confined⟩ := Sweep.run_confined (now.compilation bodies) now.workspace final.marks.keys
      whole another others othersKnown inside
    have resettled := Sweep.run_settled (now.compilation bodies) another now.workspace others othersKnown
    rw [reran] at resettled
    refine ⟨⟨second.marks, if recording then some second.report else none⟩, ?_, confined.inside, ?_⟩
    · simp only [Workspace.markBy, reran, confined.untouched]
    · exact fun covered => Sweep.settled_covers session.workspace now.workspace roots final settled retained others
        second resettled confined.untouched covered
  · intro recording
    have recalled := Sweep.settled_recalled session.workspace now.workspace roots final settled retained
    have again := Sweep.run_replays (session.compilation bodies) (now.compilation bodies) now.workspace schedule
      session.workspace roots final ran (settled.number.symm.trans retained.number.symm) recalled
    refine ⟨⟨final.marks, if recording then some final.report else none⟩, ?_, fun _ => rfl, ?_⟩
    · simp only [Workspace.markBy, again]
      rfl
    · rintro rfl
      rfl

theorem self_call_remarked :
    let session := after selfCalling (.sample 0) selfCallingHistory
    let roots : List Node := [⟨0, .virtualUse ⟨0⟩⟩]
    let others : List Node := [⟨0, .body ⟨0⟩⟩, ⟨0, .virtualUse ⟨0⟩⟩]
    let later : List Command := [.describe (.type (.named "App" "Later" [])), .register (.stub .newArray (.type ⟨1⟩)),
      .register (.body ⟨9⟩), .mark .rounds false [⟨0, .virtualUse ⟨8⟩⟩]]
    let now := later.foldl (perform selfCalling) (perform selfCalling session (.mark .worklist true roots))
    session.Holds roots ∧ now.Holds others ∧
    ∃ marking, (session.workspace.markBy (session.compilation selfCalling) .worklist true roots).1 = .ok marking ∧
      (∀ other ∈ others, other.key ∈ marking.marks.keys) ∧ (∀ root ∈ roots, root.key ∈ others.map (·.key)) ∧
      (∃ again, now.workspace.markBy (now.compilation selfCalling) .rounds false others = (.ok again, now.workspace) ∧
        (∀ key ∈ again.marks.keys, key ∈ marking.marks.keys) ∧
        ∀ key ∈ marking.marks.keys, key ∈ again.marks.keys) ∧
      ∃ again, now.workspace.markBy (now.compilation selfCalling) .worklist true roots = (.ok again, now.workspace) ∧
        (∀ key, again.marks.explain key = marking.marks.explain key) ∧ again.report? = marking.report? := by
  intro session roots others later now
  have known : session.Holds roots := by decide
  have othersKnown : now.Holds others := by decide
  obtain ⟨free, same⟩ := remarking_free selfCalling session .worklist true roots known _ rfl later
  obtain ⟨again, remarked, within, whole⟩ := free .rounds false others othersKnown (by decide)
  obtain ⟨repeated, done, explained, reported⟩ := same true
  exact ⟨known, othersKnown, _, rfl, by decide, by decide, ⟨again, remarked, within, whole (by decide)⟩,
    repeated, done, explained, reported rfl⟩

end Session

end ArtifactGraph
