import ArtifactGraph.Proofs.Retries
import ArtifactGraph.Proofs.Strategies
import Mathlib.Data.List.Nodup

set_option autoImplicit false

namespace ArtifactGraph

namespace Workspace

structure Advances (compilation : Compilation) (roots : List Key) (before after : Workspace) : Prop where
  number : after.registry.number = before.registry.number
  held : ∀ key, after.registry.contains key = true ↔
    before.registry.contains key = true ∨ compilation.Reaches roots key
  filled : ∀ key, compilation.Reaches roots key →
    ∃ edges, compilation.needs [] key = .ok edges ∧ after.edges.get? ⟨before.registry.number, key⟩ = some edges
  kept : ∀ key, ¬ compilation.Reaches roots key →
    after.edges.get? ⟨before.registry.number, key⟩ = before.edges.get? ⟨before.registry.number, key⟩
  read : ∃ methods : List MethodId, after.read = before.read ++ methods ∧ methods.Nodup ∧
    ∀ method, method ∈ methods ↔
      compilation.Reaches roots (.body method) ∧ before.edges.get? ⟨before.registry.number, .body method⟩ = none

section Stages

variable (compilation : Compilation) (before between after : Workspace) (left right : List Key)
  (first : before.Advances compilation left between) (second : between.Advances compilation right after)

include first second

-- What the first stage has filled the second finds filled, and reads no more.
theorem advances_read : ∃ methods : List MethodId, after.read = before.read ++ methods ∧ methods.Nodup ∧
    ∀ method, method ∈ methods ↔ compilation.Reaches (left ++ right) (.body method) ∧
      before.edges.get? ⟨before.registry.number, .body method⟩ = none := by
  obtain ⟨early, earlyRead, earlyOnce, earlyMember⟩ := first.read
  obtain ⟨late, lateRead, lateOnce, lateMember⟩ := second.read
  rw [first.number] at lateMember
  have apart : ∀ method, compilation.Reaches left (.body method) → method ∉ late := by
    intro method reached member
    obtain ⟨edges, _, filled⟩ := first.filled _ reached
    exact nomatch filled.symm.trans ((lateMember method).mp member).2
  refine ⟨early ++ late, by rw [lateRead, earlyRead, List.append_assoc], ?_, ?_⟩
  · refine List.nodup_append.mpr ⟨earlyOnce, lateOnce, fun method member other later same => ?_⟩
    exact apart method ((earlyMember method).mp member).1 (same ▸ later)
  · intro method
    rw [List.mem_append, earlyMember, compilation.reaches_append]
    by_cases reached : compilation.Reaches left (.body method)
    · simp [reached, apart method reached]
    · simp [reached, lateMember, first.kept _ reached]

theorem advances_append : before.Advances compilation (left ++ right) after where
  number := second.number.trans first.number
  held key := by rw [second.held, first.held, compilation.reaches_append, or_assoc]
  filled key reached := by
    by_cases later : compilation.Reaches right key
    · exact first.number ▸ second.filled key later
    · have kept := second.kept key later
      rw [first.number] at kept
      rw [kept]
      exact first.filled key (((compilation.reaches_append left right key).mp reached).resolve_right later)
  kept key unreached := by
    rw [compilation.reaches_append, not_or] at unreached
    have kept := second.kept key unreached.2
    rw [first.number] at kept
    rw [kept, first.kept key unreached.1]
  read := advances_read compilation before between after left right first second

end Stages

structure Matches (one another : Workspace) : Prop where
  held : ∀ key, one.registry.contains key = another.registry.contains key
  filled : ∀ key, one.edges.get? ⟨one.registry.number, key⟩ = another.edges.get? ⟨another.registry.number, key⟩
  read : ∀ method, one.read.count method = another.read.count method

theorem advances_matches (compilation : Compilation) (one another before after : Workspace) (left right : List Key)
    (first : one.Advances compilation left before) (second : another.Advances compilation right after)
    (same : ∀ key, compilation.Reaches left key ↔ compilation.Reaches right key) (equal : one.Matches another) :
    before.Matches after where
  held key := by rw [Bool.eq_iff_iff, first.held, second.held, equal.held, same]
  filled key := by
    rw [first.number, second.number]
    by_cases reached : compilation.Reaches left key
    · obtain ⟨edges, ruled, filled⟩ := first.filled key reached
      obtain ⟨others, again, refilled⟩ := second.filled key ((same key).mp reached)
      rw [filled, refilled, Except.ok.inj (ruled.symm.trans again)]
    · rw [first.kept key reached, second.kept key (mt (same key).mpr reached), equal.filled]
  read method := by
    obtain ⟨methods, read, once, member⟩ := first.read
    obtain ⟨others, reread, onceMore, remember⟩ := second.read
    have perm : methods.Perm others := by
      refine (List.perm_ext_iff_of_nodup once onceMore).mpr fun query => ?_
      rw [member, remember, same, equal.filled]
    rw [read, reread, List.count_append, List.count_append, equal.read, perm.count_eq]

end Workspace

namespace Sweep

section Complete

variable (compilation : Compilation) (initial : Workspace) (roots : List Node) (final : Sweep)
  (complete : Complete compilation initial roots final)

include complete

theorem complete_cell (key : Key) (reached : compilation.Reaches (roots.map (·.key)) key) :
    ∃ edges, compilation.needs [] key = .ok edges ∧
      final.workspace.edges.get? ⟨initial.registry.number, key⟩ = some edges := by
  have marked := (complete_nodes compilation initial roots final complete ⟨initial.registry.number, key⟩).mpr
    ⟨rfl, reached⟩
  have visited := (complete_visited compilation initial roots final complete).mem_iff.mpr marked
  obtain ⟨visit, member, here⟩ := List.mem_map.mp visited
  obtain ⟨ruled, _⟩ := complete.traced.followed visit member
  rw [here] at ruled
  exact ⟨visit.edges, ruled, here ▸ complete.accounted.filled visit member⟩

theorem complete_kept (key : Key) (unreached : ¬ compilation.Reaches (roots.map (·.key)) key) :
    final.workspace.edges.get? ⟨initial.registry.number, key⟩ =
      initial.edges.get? ⟨initial.registry.number, key⟩ := by
  refine complete.accounted.kept _ fun visited => unreached ?_
  have marked := (complete_visited compilation initial roots final complete).mem_iff.mp visited
  exact ((complete_nodes compilation initial roots final complete _).mp marked).2

theorem complete_read : ∃ methods : List MethodId, final.workspace.read = initial.read ++ methods ∧
    methods.Nodup ∧ ∀ method, method ∈ methods ↔ compilation.Reaches (roots.map (·.key)) (.body method) ∧
      initial.edges.get? ⟨initial.registry.number, .body method⟩ = none := by
  have visited := complete_visited compilation initial roots final complete
  have nodes := complete_nodes compilation initial roots final complete
  refine ⟨(final.visits.map (·.node)).flatMap initial.reads, ?_, ?_, ?_⟩
  · rw [complete.accounted.read, List.flatMap_map]
  · refine List.nodup_flatMap.mpr ⟨fun node _ => initial.reads_once node, ?_⟩
    have once : (final.visits.map (·.node)).Nodup := visited.nodup_iff.mpr (final.marks.nodes_once complete.tally.once)
    refine List.Pairwise.imp_of_mem ?_ once
    intro node other member otherMember differ method here there
    have home := ((nodes node).mp (visited.mem_iff.mp member)).1
    have otherHome := ((nodes other).mp (visited.mem_iff.mp otherMember)).1
    have body := ((initial.mem_reads_iff node method).mp here).1
    have otherBody := ((initial.mem_reads_iff other method).mp there).1
    exact differ ((Node.mk.injEq _ _ _ _).mpr ⟨home.trans otherHome.symm, body.trans otherBody.symm⟩)
  · intro method
    rw [List.mem_flatMap]
    constructor
    · rintro ⟨node, member, here⟩
      obtain ⟨body, empty⟩ := (initial.mem_reads_iff node method).mp here
      obtain ⟨home, reached⟩ := (nodes node).mp (visited.mem_iff.mp member)
      rw [← home, ← body]
      exact ⟨reached, empty⟩
    · rintro ⟨reached, empty⟩
      exact ⟨⟨initial.registry.number, .body method⟩, visited.mem_iff.mpr ((nodes _).mpr ⟨rfl, reached⟩),
        (initial.mem_reads_iff _ method).mpr ⟨rfl, empty⟩⟩

theorem complete_advances : initial.Advances compilation (roots.map (·.key)) final.workspace where
  number := complete.accounted.number
  held key := by rw [complete.accounted.registered, complete_keys compilation initial roots final complete]
  filled := complete_cell compilation initial roots final complete
  kept := complete_kept compilation initial roots final complete
  read := complete_read compilation initial roots final complete

end Complete

end Sweep

namespace Workspace

def nodes (workspace : Workspace) (keys : List Key) : List Node :=
  keys.map fun key => ⟨workspace.registry.number, key⟩

def markKeys (workspace : Workspace) (compilation : Compilation) (schedule : Schedule) (record : Bool)
    (keys : List Key) : Except Fault Marking × Workspace :=
  workspace.markBy compilation schedule record (workspace.nodes keys)

structure Ready (compilation : Compilation) (keys : List Key) (workspace : Workspace) : Prop where
  closed : workspace.Closed compilation.catalog
  faithful : workspace.Faithful compilation
  held : ∀ key ∈ keys, workspace.registry.contains key = true

theorem ready_subset (compilation : Compilation) (workspace : Workspace) (keys part : List Key)
    (ready : workspace.Ready compilation keys) (within : ∀ key ∈ part, key ∈ keys) :
    workspace.Ready compilation part :=
  ⟨ready.closed, ready.faithful, fun key member => ready.held key (within key member)⟩

theorem nodes_keys (workspace : Workspace) (keys : List Key) : (workspace.nodes keys).map (·.key) = keys := by
  simp [nodes, Function.comp_def]

theorem ready_known (compilation : Compilation) (workspace : Workspace) (keys : List Key)
    (ready : workspace.Ready compilation keys) :
    ∀ root ∈ workspace.nodes keys, workspace.registry.lookup root.key = some root := by
  intro root member
  obtain ⟨key, keyMember, rfl⟩ := List.mem_map.mp member
  exact (Registry.lookup_self_iff _ _).mpr ⟨ready.held key keyMember, rfl⟩

section Keys

variable (workspace : Workspace) (compilation : Compilation) (steady : compilation.bodies.Steady)
  (schedule : Schedule) (record : Bool) (keys : List Key)

include steady

theorem mark_keys_ready (others : List Key) (ready : workspace.Ready compilation others) :
    (workspace.markKeys compilation schedule record keys).2.Ready compilation others := by
  have leaves := workspace.mark_by_leaves compilation steady schedule record (workspace.nodes keys) ready.closed
    ready.faithful
  exact ⟨leaves.closed, leaves.faithful, fun key member => leaves.held key (ready.held key member)⟩

variable (ready : workspace.Ready compilation keys)

include ready

theorem mark_keys_done_iff :
    (∃ marking, (workspace.markKeys compilation schedule record keys).1 = .ok marking) ↔
      ∀ key, compilation.Reaches keys key → compilation.catalog.Admits key := by
  have decided := Sweep.run_done_iff compilation steady schedule workspace (workspace.nodes keys) ready.closed
    ready.faithful (ready_known compilation workspace keys ready)
  rw [nodes_keys] at decided
  exact (workspace.mark_by_done_iff compilation schedule record (workspace.nodes keys)).trans decided

theorem mark_keys_advances (marking : Marking)
    (done : (workspace.markKeys compilation schedule record keys).1 = .ok marking) :
    (∀ key, key ∈ marking.marks.keys ↔ compilation.Reaches keys key) ∧
      workspace.Advances compilation keys (workspace.markKeys compilation schedule record keys).2 := by
  obtain ⟨final, complete, rfl, space⟩ := workspace.mark_by_complete compilation steady schedule record _
    ready.closed ready.faithful (ready_known compilation workspace keys ready) marking done
  have marked := Sweep.complete_keys compilation workspace _ final complete
  have advances := Sweep.complete_advances compilation workspace _ final complete
  rw [nodes_keys] at marked advances
  refine ⟨marked, ?_⟩
  rw [markKeys, space]
  exact advances

end Keys

structure AddUp (early late whole : Except Fault Marking × Workspace) : Prop where
  done : (∃ marking, early.1 = .ok marking) ∧ (∃ marking, late.1 = .ok marking) ↔ ∃ marking, whole.1 = .ok marking
  marked : ∀ one another all, early.1 = .ok one → late.1 = .ok another → whole.1 = .ok all →
    ∀ key, key ∈ all.marks.keys ↔ key ∈ one.marks.keys ∨ key ∈ another.marks.keys
  left : ∀ all, whole.1 = .ok all → late.2.Matches whole.2

theorem mark_keys_add_up (one another : Workspace) (compilation : Compilation) (steady : compilation.bodies.Steady)
    (first second third : Schedule) (record : Bool) (part rest all : List Key)
    (ready : one.Ready compilation (part ++ rest)) (otherReady : another.Ready compilation all)
    (equal : one.Matches another) (same : ∀ key, key ∈ part ++ rest ↔ key ∈ all) :
    AddUp (one.markKeys compilation first record part)
      ((one.markKeys compilation first record part).2.markKeys compilation second record rest)
      (another.markKeys compilation third record all) := by
  have partReady := ready_subset compilation one _ part ready fun _ => List.mem_append_left rest
  have restReady := mark_keys_ready one compilation steady first record part rest
    (ready_subset compilation one _ rest ready fun _ => List.mem_append_right part)
  have reached : ∀ key, compilation.Reaches all key ↔ compilation.Reaches part key ∨ compilation.Reaches rest key := by
    intro key
    rw [← compilation.reaches_append]
    exact ⟨compilation.reaches_alike compilation rfl (fun _ _ => id) _ _ (fun query => (same query).mpr) key,
      compilation.reaches_alike compilation rfl (fun _ _ => id) _ _ (fun query => (same query).mp) key⟩
  have early := mark_keys_advances one compilation steady first record part partReady
  have late := mark_keys_advances _ compilation steady second record rest restReady
  have whole := mark_keys_advances another compilation steady third record all otherReady
  have done : (∃ marking, (one.markKeys compilation first record part).1 = .ok marking) ∧
      (∃ marking, ((one.markKeys compilation first record part).2.markKeys compilation second record rest).1 =
        .ok marking) ↔ ∃ marking, (another.markKeys compilation third record all).1 = .ok marking := by
    rw [mark_keys_done_iff one compilation steady first record part partReady,
      mark_keys_done_iff _ compilation steady second record rest restReady,
      mark_keys_done_iff another compilation steady third record all otherReady]
    simp only [reached, or_imp, forall_and]
  refine ⟨done, ?_, ?_⟩
  · intro a b c earlyDone lateDone wholeDone key
    rw [(whole c wholeDone).1, (early a earlyDone).1, (late b lateDone).1, reached]
  · intro c wholeDone
    obtain ⟨⟨a, earlyDone⟩, b, lateDone⟩ := done.mpr ⟨c, wholeDone⟩
    have advances := advances_append compilation one _ _ part rest (early a earlyDone).2 (late b lateDone).2
    refine advances_matches compilation one another _ _ _ all advances (whole c wholeDone).2 (fun key => ?_) equal
    rw [reached, compilation.reaches_append]

def opened (catalog : Catalog) (site : Site) (keys : List Key) : Workspace :=
  { registry := ((Registry.empty site).registerAll catalog keys).2 }

section Opened

variable (catalog : Catalog) (site : Site) (keys : List Key)

theorem opened_adds (key : Key) (held : (opened catalog site keys).registry.contains key = true) :
    key ∈ keys ∧ catalog.Admits key := by
  rcases Registry.register_all_adds _ catalog keys key held with before | added
  · exact nomatch before.symm.trans (Registry.contains_empty site key)
  · exact added

variable (valid : ∀ key ∈ keys, catalog.Admits key)

include valid

theorem opened_contains (key : Key) : (opened catalog site keys).registry.contains key = true ↔ key ∈ keys := by
  refine ⟨fun held => (opened_adds catalog site keys key held).1, ?_⟩
  refine Registry.register_all_ok _ catalog keys ((Registry.register_all_accepts _ catalog keys).mpr ?_) key
  exact fun query member => .inr (valid query member)

theorem opened_ready (bodies : Bodies) : (opened catalog site keys).Ready ⟨catalog, bodies⟩ keys where
  closed := ⟨fun key held => (opened_adds catalog site keys key held).2, fun _ _ filled => nomatch filled⟩
  faithful _ _ filled := nomatch filled
  held key := (opened_contains catalog site keys valid key).mpr

theorem opened_matches (other : Site) : (opened catalog site keys).Matches (opened catalog other keys) where
  held key := by rw [Bool.eq_iff_iff, opened_contains catalog site keys valid, opened_contains catalog other keys valid]
  filled _ := rfl
  read _ := rfl

end Opened

theorem markings_add_up (catalog : Catalog) (bodies : Bodies) (steady : bodies.Steady) (site other : Site)
    (left right : List Key) (valid : ∀ key ∈ left ++ right, catalog.Admits key) (record : Bool)
    (first second third : Schedule) :
    let compilation : Compilation := ⟨catalog, bodies⟩
    let staged := opened catalog site (left ++ right)
    let forth := staged.markKeys compilation first record left
    let back := staged.markKeys compilation first record right
    let whole := (opened catalog other (left ++ right)).markKeys compilation third record (left ++ right)
    AddUp forth (forth.2.markKeys compilation second record right) whole ∧
      AddUp back (back.2.markKeys compilation second record left) whole := by
  intro compilation staged forth back whole
  have ready := opened_ready catalog site (left ++ right) valid bodies
  have otherReady := opened_ready catalog other (left ++ right) valid bodies
  have equal := opened_matches catalog site (left ++ right) valid other
  have turned : ∀ key, key ∈ right ++ left ↔ key ∈ left ++ right := fun key => List.perm_append_comm.mem_iff
  have turnedReady := ready_subset compilation staged _ (right ++ left) ready fun key => (turned key).mp
  exact ⟨mark_keys_add_up _ _ compilation steady first second third record _ _ _ ready otherReady equal fun _ => Iff.rfl,
    mark_keys_add_up _ _ compilation steady first second third record _ _ _ turnedReady otherReady equal turned⟩

def sharing : Bodies :=
  .ofList [(⟨0⟩, [⟨.body ⟨2⟩, "call"⟩, ⟨.stub .newObject (.type ⟨0⟩), "new"⟩]),
    (⟨1⟩, [⟨.body ⟨2⟩, "call"⟩, ⟨.stub .delegate (.delegate ⟨⟨0⟩, .openStatic⟩), "bind"⟩]),
    (⟨2⟩, [⟨.body ⟨2⟩, "again"⟩, ⟨.stub .cast (.type ⟨0⟩), "cast"⟩])]

def sharingCatalog : Catalog :=
  .ofHistory (.type (.named "App" "Loop" []) ::
    ["Run", "Start", "Stop"].map fun name => .method { owner := ⟨0⟩, name })

theorem shared_bodies_add_up :
    let left : List Key := [.body ⟨0⟩, .stub .isInstance (.type ⟨0⟩)]
    let right : List Key := [.body ⟨1⟩, .body ⟨1⟩]
    let compilation : Compilation := ⟨sharingCatalog, sharing⟩
    let staged := opened sharingCatalog (.sample 0) (left ++ right)
    let forth := staged.markKeys compilation .worklist false left
    let back := staged.markKeys compilation .worklist false right
    let whole := (opened sharingCatalog (.sample 1) (left ++ right)).markKeys compilation .worklist false (left ++ right)
    sharing.Steady ∧ (∀ key ∈ left ++ right, sharingCatalog.Admits key) ∧
    whole.1.toOption.map (·.marks.size) = some 7 ∧
    (forth.2.markKeys compilation .rounds false right).2.read = [⟨0⟩, ⟨2⟩, ⟨1⟩] ∧ back.2.read = [⟨1⟩, ⟨2⟩, ⟨0⟩] ∧
    AddUp forth (forth.2.markKeys compilation .rounds false right) whole ∧
      AddUp back (back.2.markKeys compilation .rounds false left) whole := by
  intro left right compilation staged forth back whole
  have steady : sharing.Steady := Bodies.of_list_steady _
  have valid : ∀ key ∈ left ++ right, sharingCatalog.Admits key := by decide
  refine ⟨steady, valid, by decide +kernel, by decide +kernel, by decide +kernel, ?_⟩
  exact markings_add_up sharingCatalog sharing steady (.sample 0) (.sample 1) left right valid false .worklist .rounds .worklist

end Workspace

end ArtifactGraph
