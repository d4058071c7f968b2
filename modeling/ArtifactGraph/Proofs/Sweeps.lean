import ArtifactGraph.Marking.Sweep
import ArtifactGraph.Proofs.Marks
import ArtifactGraph.Proofs.Workspaces

set_option autoImplicit false

namespace ArtifactGraph

namespace Sweep

def Settles (good : Sweep → Prop) (bad : Halt → Prop) : Except Halt Sweep → Prop
  | .ok sweep => good sweep
  | .error halt => bad halt

theorem settles_bind (first second : Sweep → Prop) (bad : Halt → Prop) (answer : Except Halt Sweep)
    (next : Sweep → Except Halt Sweep) (settled : Settles first bad answer)
    (step : ∀ sweep, first sweep → Settles second bad (next sweep)) :
    Settles second bad (answer >>= next) := by
  cases answer with
  | error halt => exact settled
  | ok sweep => exact step sweep settled

theorem settles_imp (first second : Sweep → Prop) (bad : Halt → Prop) (answer : Except Halt Sweep)
    (settled : Settles first bad answer) (weaker : ∀ sweep, first sweep → second sweep) :
    Settles second bad answer := by
  cases answer with
  | error halt => exact settled
  | ok sweep => exact weaker sweep settled

theorem settles_and (first second : Sweep → Prop) (bad : Halt → Prop) (answer : Except Halt Sweep)
    (left : Settles first bad answer) (right : Settles second (fun _ => True) answer) :
    Settles (fun sweep => first sweep ∧ second sweep) bad answer := by
  cases answer with
  | error halt => exact left
  | ok sweep => exact ⟨left, right⟩

theorem bind_ok (answer : Except Halt Sweep) (next : Sweep → Except Halt Sweep) (final : Sweep)
    (done : (answer >>= next) = .ok final) : ∃ sweep, answer = .ok sweep ∧ next sweep = .ok final := by
  cases answer with
  | error halt => exact nomatch done
  | ok sweep => exact ⟨sweep, rfl, done⟩

theorem drain_idle (compilation : Compilation) (schedule : Schedule) (limit round : Nat) (sweep : Sweep)
    (idle : sweep.pending = []) : drain compilation schedule limit round sweep = .ok sweep := by
  cases limit with
  | zero => rfl
  | succ limit => rw [drain, idle, List.isEmpty_nil, if_pos rfl]

theorem drain_busy (compilation : Compilation) (schedule : Schedule) (limit round : Nat) (sweep : Sweep)
    (busy : sweep.pending ≠ []) :
    drain compilation schedule (limit + 1) round sweep =
      (schedule.batch round sweep.pending).1.foldlM (visit compilation)
        { sweep with pending := (schedule.batch round sweep.pending).2 } >>=
      drain compilation schedule limit (round + 1) := by
  rw [drain, if_neg (by simpa using busy)]

theorem follow_all_settles (compilation : Compilation) (source : Node) (good : Sweep → Prop)
    (bad : Halt → Prop)
    (step : ∀ sweep edge, good sweep → Settles good bad (follow compilation source sweep edge))
    (edges : List Edge) (sweep : Sweep) (now : good sweep) :
    Settles good bad (edges.foldlM (follow compilation source) sweep) := by
  induction edges generalizing sweep with
  | nil => exact now
  | cons edge rest ih =>
      rw [List.foldlM_cons]
      exact settles_bind good good bad _ _ (step sweep edge now) ih

section Induction

-- `motive` speaks of the nodes that were taken but are not visited yet.
variable (compilation : Compilation) (schedule : Schedule) (motive : List Node → Sweep → Prop)
  (bad : Halt → Prop)
  (take : ∀ round sweep, motive [] sweep → sweep.pending ≠ [] →
    motive (schedule.batch round sweep.pending).1
      { sweep with pending := (schedule.batch round sweep.pending).2 })
  (visited : ∀ node waiting sweep, motive (node :: waiting) sweep →
    Settles (motive waiting) bad (sweep.visit compilation node))

include visited in
theorem visit_all_settles (nodes : List Node) (sweep : Sweep) (now : motive nodes sweep) :
    Settles (motive []) bad (nodes.foldlM (visit compilation) sweep) := by
  induction nodes generalizing sweep with
  | nil => exact now
  | cons node rest ih =>
      rw [List.foldlM_cons]
      exact settles_bind _ _ bad _ _ (visited node rest sweep now) ih

include take visited in
theorem drain_settles (budget round : Nat) (sweep : Sweep) (now : motive [] sweep) :
    Settles (motive []) bad (drain compilation schedule budget round sweep) := by
  induction budget generalizing round sweep with
  | zero => exact now
  | succ budget ih =>
      by_cases idle : sweep.pending = []
      · rw [drain_idle compilation schedule _ round sweep idle]
        exact now
      · rw [drain_busy compilation schedule budget round sweep idle]
        have taken := take round sweep now idle
        exact settles_bind _ _ bad _ _
          (visit_all_settles compilation motive bad visited _ _ taken) (ih (round + 1))

end Induction

theorem visit_cases (compilation : Compilation) (sweep : Sweep) (node : Node) :
    (∃ fault, (sweep.workspace.needs compilation node).1 = .error fault ∧
      sweep.visit compilation node =
        .error ⟨fault, node, (sweep.workspace.needs compilation node).2⟩) ∨
    (∃ edges, (sweep.workspace.needs compilation node).1 = .ok edges ∧
      sweep.visit compilation node = edges.foldlM (follow compilation node)
        { sweep with
          workspace := (sweep.workspace.needs compilation node).2
          visits := sweep.visits ++ [⟨node, edges⟩] }) := by
  cases result : sweep.workspace.needs compilation node with
  | mk answer workspace =>
      cases answer with
      | error fault => exact .inl ⟨fault, rfl, by simp only [visit, result]⟩
      | ok edges => exact .inr ⟨edges, rfl, by simp only [visit, result]⟩

theorem follow_cases (compilation : Compilation) (source : Node) (sweep : Sweep) (edge : Edge) :
    (sweep.marks.contains edge.target = true ∧ follow compilation source sweep edge = .ok sweep) ∨
    (sweep.marks.contains edge.target = false ∧
      ((∃ fault, (sweep.workspace.registry.register compilation.catalog edge.target).1 = .error fault ∧
        follow compilation source sweep edge =
          .error ⟨fault, source, (sweep.workspace.register compilation.catalog edge.target).2⟩) ∨
      (∃ target, (sweep.workspace.registry.register compilation.catalog edge.target).1 = .ok target ∧
        follow compilation source sweep edge = .ok { sweep with
          workspace := (sweep.workspace.register compilation.catalog edge.target).2
          marks := sweep.marks.insert target (some ⟨source.key, edge.reason⟩)
          pending := sweep.pending ++ [target] }))) := by
  unfold follow Workspace.register
  cases marked : sweep.marks.contains edge.target with
  | true => exact .inl ⟨rfl, rfl⟩
  | false =>
      refine .inr ⟨rfl, ?_⟩
      cases result : sweep.workspace.registry.register compilation.catalog edge.target with
      | mk answer registry =>
          cases answer with
          | error fault => exact .inl ⟨fault, rfl, rfl⟩
          | ok target => exact .inr ⟨target, rfl, rfl⟩

end Sweep

namespace Catalog

def typeKeys (id : TypeId) : List Key :=
  [Stub.newObject, .newArray, .isInstance, .cast, .plainStatics, .tracedStatics, .threadStatics].map
    fun made => .stub made (.type id)

def methodKeys (id : MethodId) : List Key :=
  [.stub .virtualCall (.method id), .virtualUse id, .body id] ++
    Binding.all.map fun binding => .stub .delegate (.delegate ⟨id, binding⟩)

def candidates (catalog : Catalog) : List Key :=
  (List.range catalog.types.size).flatMap (fun position => typeKeys ⟨position⟩) ++
    (List.range catalog.methods.size).flatMap fun position => methodKeys ⟨position⟩

theorem candidates_length (catalog : Catalog) :
    catalog.candidates.length = 7 * (catalog.types.size + catalog.methods.size) := by
  simp only [candidates, List.length_append, List.length_flatMap]
  simp [typeKeys, methodKeys, Binding.all, List.map_const']
  omega

theorem type_candidate (catalog : Catalog) (id : TypeId) (key : Key) (held : catalog.hasType id = true)
    (member : key ∈ typeKeys id) : key ∈ catalog.candidates := by
  simp only [hasType, Bool.and_eq_true, decide_eq_true_eq] at held
  exact List.mem_append_left _ (List.mem_flatMap.mpr ⟨id.position, by simpa using held.2, member⟩)

theorem method_candidate (catalog : Catalog) (id : MethodId) (key : Key)
    (held : catalog.hasMethod id = true) (member : key ∈ methodKeys id) : key ∈ catalog.candidates := by
  simp only [hasMethod, Bool.and_eq_true, decide_eq_true_eq] at held
  exact List.mem_append_right _ (List.mem_flatMap.mpr ⟨id.position, by simpa using held.2, member⟩)

theorem expects_type (made : Stub) (fits : made.expects = .type) :
    made ∈ [Stub.newObject, .newArray, .isInstance, .cast, .plainStatics, .tracedStatics, .threadStatics] := by
  revert fits
  cases made <;> decide

theorem expects_method (made : Stub) (fits : made.expects = .method) : made = .virtualCall := by
  revert fits
  cases made <;> decide

theorem expects_delegate (made : Stub) (fits : made.expects = .delegate) : made = .delegate := by
  revert fits
  cases made <;> decide

theorem admitted_candidate (catalog : Catalog) (key : Key) (admitted : catalog.Admits key) :
    key ∈ catalog.candidates := by
  obtain ⟨fits, held⟩ := admitted
  cases key with
  | virtualUse method => exact catalog.method_candidate method _ held (by simp [methodKeys])
  | body method => exact catalog.method_candidate method _ held (by simp [methodKeys])
  | stub made payload =>
      cases payload with
      | type id =>
          refine catalog.type_candidate id _ held (List.mem_map.mpr ⟨made, ?_, rfl⟩)
          exact expects_type made fits.symm
      | method id =>
          rw [expects_method made fits.symm]
          exact catalog.method_candidate id _ held (by simp [methodKeys])
      | delegate record =>
          obtain ⟨target, binding⟩ := record
          rw [expects_delegate made fits.symm]
          refine catalog.method_candidate target _ held (List.mem_append_right _ ?_)
          exact List.mem_map.mpr ⟨binding, by cases binding <;> decide, rfl⟩

end Catalog

namespace Sweep

-- Each marked node was visited, is taken or is pending, and each mark is for a
-- root or for a key that was registered or admitted.
structure Tally (compilation : Compilation) (initial : Workspace) (roots waiting : List Node)
    (sweep : Sweep) : Prop where
  order : (sweep.visits.map (·.node) ++ (waiting ++ sweep.pending)).Perm sweep.marks.nodes
  once : sweep.marks.keys.Nodup
  known : ∀ key, sweep.workspace.registry.contains key = true →
    initial.registry.contains key = true ∨ compilation.catalog.Admits key
  within : ∀ key ∈ sweep.marks.keys, key ∈ roots.map (·.key) ∨
    initial.registry.contains key = true ∨ compilation.catalog.Admits key

theorem tally_start (compilation : Compilation) (initial : Workspace) (roots : List Node) :
    Tally compilation initial roots [] (start initial roots) where
  order := by simp [start]
  once := by
    refine Marks.of_roots_induction roots (fun marks => marks.keys.Nodup) .nil ?_
    exact fun marks root _ once => marks.insert_once root none once
  known _ held := .inl held
  within key member := .inl ((Marks.of_roots_keys roots key).mp member)

theorem tally_marked (compilation : Compilation) (initial : Workspace) (roots waiting : List Node) (node : Node)
    (sweep : Sweep) (tally : Tally compilation initial roots (node :: waiting) sweep) :
    node ∈ sweep.marks.nodes :=
  tally.order.mem_iff.mp (by simp)

theorem tally_visited (compilation : Compilation) (initial : Workspace) (roots : List Node) (sweep : Sweep)
    (tally : Tally compilation initial roots [] sweep) (drained : sweep.pending = []) :
    (sweep.visits.map (·.node)).Perm sweep.marks.nodes := by
  simpa [drained] using tally.order

theorem tally_admitted (compilation : Compilation) (initial : Workspace) (roots waiting : List Node)
    (sweep : Sweep) (tally : Tally compilation initial roots waiting sweep)
    (admitted : ∀ key, initial.registry.contains key = true → compilation.catalog.Admits key)
    (known : ∀ root ∈ roots, initial.registry.lookup root.key = some root) (key : Key)
    (member : key ∈ sweep.marks.keys) : compilation.catalog.Admits key := by
  rcases tally.within key member with root | held | new
  · obtain ⟨node, rooted, rfl⟩ := List.mem_map.mp root
    exact admitted node.key ((Registry.lookup_self_iff _ node).mp (known node rooted)).1
  · exact admitted key held
  · exact new

theorem tally_take (compilation : Compilation) (initial : Workspace) (roots : List Node) (sweep : Sweep)
    (now later : List Node) (tally : Tally compilation initial roots [] sweep)
    (split : (now ++ later).Perm sweep.pending) :
    Tally compilation initial roots now { sweep with pending := later } where
  order := (List.Perm.append_left _ split).trans tally.order
  once := tally.once
  known := tally.known
  within := tally.within

theorem tally_follow (compilation : Compilation) (initial : Workspace) (roots waiting : List Node)
    (source : Node) (sweep : Sweep) (edge : Edge)
    (tally : Tally compilation initial roots waiting sweep) :
    Settles (Tally compilation initial roots waiting) (fun _ => True)
      (follow compilation source sweep edge) := by
  rcases follow_cases compilation source sweep edge with
    ⟨_, result⟩ | ⟨fresh, ⟨_, _, result⟩ | ⟨target, accepted, result⟩⟩ <;> rw [result]
  · exact tally
  · trivial
  · obtain ⟨same, held⟩ := Registry.register_ok _ _ _ _ accepted
    have key : target.key = edge.target := by rw [same]
    have known : ∀ query,
        (sweep.workspace.registry.register compilation.catalog edge.target).2.contains query = true →
        initial.registry.contains query = true ∨ compilation.catalog.Admits query := by
      intro query present
      rcases Registry.register_adds _ _ _ _ present with old | ⟨new, admitted⟩
      · exact tally.known query old
      · exact .inr (new ▸ admitted)
    have appended := sweep.marks.insert_appends target (some ⟨source.key, edge.reason⟩) (key ▸ fresh)
    refine ⟨?_, Marks.insert_once _ _ _ tally.once, known, ?_⟩
    · have order := tally.order.append_right [target]
      simp only [Marks.nodes, appended, List.map_append, List.map_singleton, List.append_assoc] at order ⊢
      exact order
    · intro query member
      rw [Marks.keys, appended, List.map_append, List.mem_append] at member
      rcases member with old | new
      · exact tally.within query old
      · rw [List.map_singleton, List.mem_singleton, key] at new
        exact .inr (known query (new ▸ held))

theorem needs_known (compilation : Compilation) (workspace : Workspace) (node : Node) (key : Key)
    (held : (workspace.needs compilation node).2.registry.contains key = true) :
    workspace.registry.contains key = true ∨ compilation.catalog.Admits key := by
  rcases workspace.needs_cases compilation node with
    ⟨_, _, result⟩ | ⟨_, _, _, result⟩ | ⟨_, _, _, _, _, result⟩ | ⟨_, _, _, _, result⟩ <;> rw [result] at held
  · exact .inl held
  · exact .inl held
  · exact (Registry.register_all_adds _ _ _ _ held).imp_right And.right
  · exact (Registry.register_all_adds _ _ _ _ held).imp_right And.right

theorem tally_visit (compilation : Compilation) (initial : Workspace) (roots : List Node) (node : Node)
    (waiting : List Node) (sweep : Sweep) (tally : Tally compilation initial roots (node :: waiting) sweep) :
    Settles (Tally compilation initial roots waiting) (fun _ => True) (sweep.visit compilation node) := by
  rcases visit_cases compilation sweep node with ⟨_, _, result⟩ | ⟨edges, _, result⟩ <;> rw [result]
  · trivial
  · refine follow_all_settles compilation node _ _
      (fun sweep edge => tally_follow compilation initial roots waiting node sweep edge) edges _ ?_
    refine ⟨?_, tally.once, ?_, tally.within⟩
    · have order := tally.order
      rw [List.cons_append, List.append_cons] at order
      simpa only [List.map_append, List.map_singleton] using order
    · intro key held
      rcases needs_known compilation sweep.workspace node key held with old | new
      · exact tally.known key old
      · exact .inr new

theorem tally_bound (compilation : Compilation) (initial : Workspace) (roots : List Node) (sweep : Sweep)
    (tally : Tally compilation initial roots [] sweep) :
    sweep.visits.length + sweep.pending.length ≤ budget compilation initial roots := by
  have inside : sweep.marks.keys ⊆
      roots.map (·.key) ++ (initial.registry.keys ++ compilation.catalog.candidates) := by
    intro key member
    rcases tally.within key member with root | held | admitted
    · exact List.mem_append_left _ root
    · exact List.mem_append_right _ (List.mem_append_left _ (initial.registry.contains_mem key held))
    · exact List.mem_append_right _ (List.mem_append_right _
        (compilation.catalog.admitted_candidate key admitted))
  have most := tally.once.length_le_of_subset inside
  have all := tally.order.length_eq
  simp only [List.length_append, List.length_map, Catalog.candidates_length, Marks.keys, Marks.nodes,
    List.length_nil] at most all
  simp only [budget] at most ⊢
  omega

theorem visit_adds_visit (compilation : Compilation) (sweep after : Sweep) (node : Node)
    (done : sweep.visit compilation node = .ok after) :
    ∃ edges, after.visits = sweep.visits ++ [⟨node, edges⟩] := by
  rcases visit_cases compilation sweep node with ⟨_, _, result⟩ | ⟨edges, _, result⟩
  · exact nomatch result.symm.trans done
  · have keeps : ∀ later edge, later.visits = sweep.visits ++ [⟨node, edges⟩] →
        Settles (fun later => later.visits = sweep.visits ++ [⟨node, edges⟩]) (fun _ => True)
          (follow compilation node later edge) := by
      intro later edge same
      rcases follow_cases compilation node later edge with
        ⟨_, answer⟩ | ⟨_, ⟨_, _, answer⟩ | ⟨_, _, answer⟩⟩ <;> rw [answer]
      · exact same
      · trivial
      · exact same
    have settled := follow_all_settles compilation node _ _ keeps edges
      { sweep with
        workspace := (sweep.workspace.needs compilation node).2
        visits := sweep.visits ++ [⟨node, edges⟩] } rfl
    rw [← result, done] at settled
    exact ⟨edges, settled⟩

theorem round_visits (compilation : Compilation) (nodes : List Node) (sweep after : Sweep)
    (done : nodes.foldlM (visit compilation) sweep = .ok after) :
    ∃ made, made.map (·.node) = nodes ∧ after.visits = sweep.visits ++ made := by
  induction nodes generalizing sweep with
  | nil =>
      rw [← Except.ok.inj done]
      exact ⟨[], rfl, (List.append_nil _).symm⟩
  | cons node rest ih =>
      rw [List.foldlM_cons] at done
      obtain ⟨next, first, remaining⟩ := bind_ok _ _ after done
      obtain ⟨edges, grown⟩ := visit_adds_visit compilation sweep next node first
      obtain ⟨made, rfl, whole⟩ := ih next remaining
      exact ⟨⟨node, edges⟩ :: made, rfl, by rw [whole, grown, List.append_assoc, List.singleton_append]⟩

theorem drain_drained (compilation : Compilation) (schedule : Schedule) (initial : Workspace)
    (roots : List Node) (limit round : Nat) (sweep final : Sweep)
    (tally : Tally compilation initial roots [] sweep)
    (enough : budget compilation initial roots ≤ limit + sweep.visits.length)
    (done : drain compilation schedule limit round sweep = .ok final) : final.pending = [] := by
  induction limit generalizing round sweep with
  | zero =>
      have bound := tally_bound compilation initial roots sweep tally
      rw [← Except.ok.inj done]
      exact List.length_eq_zero_iff.mp (by omega)
  | succ limit ih =>
      by_cases idle : sweep.pending = []
      · rw [drain_idle compilation schedule _ round sweep idle] at done
        exact Except.ok.inj done ▸ idle
      · rw [drain_busy compilation schedule limit round sweep idle] at done
        obtain ⟨next, worked, rest⟩ := bind_ok _ _ final done
        have taken := tally_take compilation initial roots sweep _ _ tally
          (schedule.perm round sweep.pending)
        have settled := visit_all_settles compilation (Tally compilation initial roots) (fun _ => True)
          (tally_visit compilation initial roots) _ _ taken
        rw [worked] at settled
        obtain ⟨made, same, longer⟩ := round_visits compilation _ _ next worked
        have some := List.length_pos_iff.mpr (schedule.progress round sweep.pending idle)
        refine ih (round + 1) next settled ?_ rest
        rw [← same, List.length_map] at some
        simp only [longer, List.length_append]
        omega

theorem run_drained (compilation : Compilation) (schedule : Schedule) (workspace : Workspace)
    (roots : List Node) (final : Sweep) (done : run compilation schedule workspace roots = .ok final) :
    final.pending = [] :=
  drain_drained compilation schedule workspace roots _ 0 _ final (tally_start compilation workspace roots)
    (Nat.le_add_right _ _) done

theorem drain_add (compilation : Compilation) (schedule : Schedule) (limit more round : Nat) (sweep : Sweep) :
    drain compilation schedule (limit + more) round sweep =
      drain compilation schedule limit round sweep >>=
        drain compilation schedule more (round + limit) := by
  induction limit generalizing round sweep with
  | zero =>
      rw [Nat.zero_add]
      rfl
  | succ limit ih =>
      by_cases idle : sweep.pending = []
      · rw [drain_idle compilation schedule _ round sweep idle, drain_idle compilation schedule _ round sweep idle]
        exact (drain_idle compilation schedule more _ sweep idle).symm
      · rw [Nat.succ_add, drain_busy compilation schedule _ round sweep idle,
          drain_busy compilation schedule _ round sweep idle, bind_assoc]
        refine bind_congr fun next => ?_
        rw [ih (round + 1) next, Nat.add_right_comm, Nat.add_assoc]

theorem run_within (compilation : Compilation) (schedule : Schedule) (workspace : Workspace)
    (roots : List Node) (limit : Nat) (enough : budget compilation workspace roots ≤ limit) :
    drain compilation schedule limit 0 (start workspace roots) = run compilation schedule workspace roots := by
  obtain ⟨more, rfl⟩ := Nat.exists_eq_add_of_le enough
  rw [drain_add, ← run]
  cases done : run compilation schedule workspace roots with
  | error halt => rfl
  | ok final =>
      have drained := run_drained compilation schedule workspace roots final done
      exact drain_idle compilation schedule more _ final drained

theorem run_settles_batches (compilation : Compilation) (schedule : Schedule) (workspace : Workspace)
    (roots : List Node) (motive : List Node → Sweep → Prop) (bad : Halt → Prop)
    (begin : motive [] (start workspace roots))
    (take : ∀ round sweep, motive [] sweep → sweep.pending ≠ [] →
      motive (schedule.batch round sweep.pending).1
        { sweep with pending := (schedule.batch round sweep.pending).2 })
    (visited : ∀ node waiting sweep, motive (node :: waiting) sweep →
      Settles (motive waiting) bad (sweep.visit compilation node)) :
    Settles (fun final => motive [] final ∧ final.pending = []) bad
      (run compilation schedule workspace roots) := by
  have settled := drain_settles compilation schedule motive bad take visited
    (budget compilation workspace roots) 0 (start workspace roots) begin
  unfold run
  cases done : drain compilation schedule (budget compilation workspace roots) 0 (start workspace roots) with
  | error halt =>
      rw [done] at settled
      exact settled
  | ok final =>
      rw [done] at settled
      exact ⟨settled, run_drained compilation schedule workspace roots final done⟩

theorem run_settles (compilation : Compilation) (schedule : Schedule) (workspace : Workspace)
    (roots : List Node) (motive : List Node → Sweep → Prop) (bad : Halt → Prop)
    (begin : motive [] (start workspace roots))
    (take : ∀ sweep now later, motive [] sweep → (now ++ later).Perm sweep.pending →
      motive now { sweep with pending := later })
    (visited : ∀ node waiting sweep, motive (node :: waiting) sweep →
      Settles (motive waiting) bad (sweep.visit compilation node)) :
    Settles (fun final => motive [] final ∧ final.pending = []) bad
      (run compilation schedule workspace roots) :=
  run_settles_batches compilation schedule workspace roots motive bad begin
    (fun round sweep now _ => take sweep _ _ now (schedule.perm round sweep.pending)) visited

theorem run_settles_marked (compilation : Compilation) (schedule : Schedule) (workspace : Workspace)
    (roots : List Node) (motive : Sweep → Prop) (bad : Halt → Prop) (begin : motive (start workspace roots))
    (take : ∀ sweep later, motive sweep → motive { sweep with pending := later })
    (visited : ∀ node sweep, node ∈ sweep.marks.nodes → motive sweep →
      Settles motive bad (sweep.visit compilation node)) :
    Settles (fun final => motive final ∧ Tally compilation workspace roots [] final ∧ final.pending = []) bad
      (run compilation schedule workspace roots) := by
  have settled := run_settles compilation schedule workspace roots
    (fun waiting sweep => motive sweep ∧ Tally compilation workspace roots waiting sweep) bad
    ⟨begin, tally_start compilation workspace roots⟩
    (fun sweep now later ⟨holds, tally⟩ split =>
      ⟨take sweep later holds, tally_take compilation workspace roots sweep now later tally split⟩)
    (fun node waiting sweep ⟨holds, tally⟩ => settles_and _ _ _ _
      (visited node sweep (tally_marked compilation workspace roots waiting node sweep tally) holds)
      (tally_visit compilation workspace roots node waiting sweep tally))
  exact settles_imp _ _ _ _ settled fun _ ⟨⟨holds, tally⟩, drained⟩ => ⟨holds, tally, drained⟩

end Sweep

end ArtifactGraph
