import ArtifactGraph.Proofs.Reports
import ArtifactGraph.Proofs.Seals

set_option autoImplicit false

namespace ArtifactGraph

namespace Workspace

def count (workspace : Workspace) (node : Node) : Nat := ((workspace.edges.get? node).getD []).length

def leaving (workspace : Workspace) (node : Node) : List Link :=
  ((workspace.edges.get? node).getD []).map (·.leaving node.key)

theorem mem_leaving_iff (workspace : Workspace) (node : Node) (link : Link) :
    link ∈ workspace.leaving node ↔
      ∃ edges, workspace.edges.get? node = some edges ∧ ∃ edge ∈ edges, edge.leaving node.key = link := by
  cases filled : workspace.edges.get? node <;> simp [leaving, filled]

theorem leaving_length (workspace : Workspace) (nodes : List Node) :
    (nodes.flatMap workspace.leaving).length = nodes.foldr (fun node rest => workspace.count node + rest) 0 := by
  induction nodes with
  | nil => rfl
  | cons node rest ih =>
      rw [List.flatMap_cons, List.length_append, ih, List.foldr_cons, leaving, List.length_map, count]

structure Fills (compilation : Compilation) (before after : Workspace) : Prop where
  kept : ∀ node edges, before.edges.get? node = some edges → after.edges.get? node = some edges
  ruled : ∀ node edges, after.edges.get? node = some edges →
    before.edges.get? node = some edges ∨ compilation.needs [] node.key = .ok edges

theorem needs_fills_steadily (compilation : Compilation) (steady : compilation.bodies.Steady)
    (before after : Workspace) (node : Node) (fills : before.Fills compilation after) :
    before.Fills compilation (after.needs compilation node).2 where
  kept other edges filled := after.needs_keeps_filled compilation node other edges (fills.kept other edges filled)
  ruled := by
    rcases after.needs_cases compilation node with
      ⟨_, _, result⟩ | ⟨_, _, _, result⟩ | ⟨_, _, _, _, _, result⟩ | ⟨_, edges, ruled, _, result⟩ <;> rw [result]
    · exact fills.ruled
    · exact fills.ruled
    · exact fills.ruled
    · intro other found filled
      rcases Cells.fill_get_cases after.edges node other edges found filled with old | ⟨rfl, rfl⟩
      · exact fills.ruled other found old
      · exact .inr ((compilation.needs_steady steady after.read other.key).symm.trans ruled)

theorem mark_by_fills (compilation : Compilation) (steady : compilation.bodies.Steady) (workspace : Workspace)
    (schedule : Schedule) (record : Bool) (roots : List Node) :
    workspace.Fills compilation (workspace.markBy compilation schedule record roots).2 :=
  mark_by_keeps compilation schedule (workspace.Fills compilation)
    (fun later node fills => needs_fills_steadily compilation steady workspace later node fills)
    (fun _ _ fills => ⟨fills.kept, fills.ruled⟩) workspace record roots ⟨fun _ _ => id, fun _ _ => .inl⟩

theorem fills_agree (compilation : Compilation) (before one another : Workspace)
    (left : before.Fills compilation one) (right : before.Fills compilation another) :
    one.edges.Agree another.edges := by
  intro node first second filled found
  cases old : before.edges.get? node with
  | some edges =>
      obtain rfl := Option.some.inj (filled.symm.trans (left.kept node edges old))
      exact Option.some.inj ((right.kept node _ old).symm.trans found)
  | none =>
      have early := (left.ruled node first filled).resolve_left (by simp [old])
      have late := (right.ruled node second found).resolve_left (by simp [old])
      exact Except.ok.inj (early.symm.trans late)

end Workspace

structure Report.Records (workspace : Workspace) (marks : Marks) (report : Report) : Prop where
  once : marks.keys.Nodup
  filled : ∀ node ∈ marks.nodes, ∃ edges, workspace.edges.get? node = some edges
  links : report.links.Perm (marks.nodes.flatMap workspace.leaving)
  size : report.size = marks.nodes.foldr (fun node rest => workspace.count node + rest) 0

namespace Sweep

theorem stored_links (workspace : Workspace) (visits : List Visit)
    (stores : ∀ visit ∈ visits, workspace.edges.get? visit.node = some visit.edges) :
    visits.flatMap Visit.links = (visits.map (·.node)).flatMap workspace.leaving := by
  rw [List.flatMap_map]
  refine List.flatMap_congr fun visit member => ?_
  rw [Workspace.leaving, stores visit member]
  rfl

theorem run_records (compilation : Compilation) (schedule : Schedule) (workspace : Workspace) (roots : List Node) :
    Settles (fun final => final.report.Records final.workspace final.marks) (fun _ => True)
      (run compilation schedule workspace roots) := by
  have settled := run_settles_marked compilation schedule workspace roots Stores (fun _ => True)
    (fun _ member => nomatch member) (fun _ _ stores => stores)
    (fun node sweep _ stores => by
      cases done : sweep.visit compilation node with
      | error halt => trivial
      | ok after => exact visit_stores compilation sweep after node stores done)
  refine settles_imp _ _ _ _ settled fun final ⟨stores, tally, drained⟩ => ?_
  have visited := tally_visited compilation workspace roots final tally drained
  have links : final.report.links.Perm (final.marks.nodes.flatMap final.workspace.leaving) := by
    rw [report, stored_links final.workspace final.visits stores]
    exact visited.flatMap_right final.workspace.leaving
  refine ⟨tally.once, fun node member => ?_, links, ?_⟩
  · obtain ⟨visit, within, rfl⟩ := List.mem_map.mp (visited.mem_iff.mpr member)
    exact ⟨visit.edges, stores visit within⟩
  · rw [Report.size, links.length_eq]
    exact Workspace.leaving_length final.workspace final.marks.nodes

section Agreeing

variable (one another : Workspace) (roots others : List Node) (first second : Sweep)
  (left : Settled one roots first) (right : Settled another others second)
  (number : one.registry.number = another.registry.number)
  (agree : first.workspace.edges.Agree second.workspace.edges)
  (same : ∀ key, key ∈ roots.map (·.key) ↔ key ∈ others.map (·.key))

include left right number agree same

theorem agreeing_marks (key : Key) (member : key ∈ first.marks.keys) : key ∈ second.marks.keys := by
  obtain ⟨count, steps⟩ := left.stocked.led key member
  rw [number, ← right.number] at steps
  refine second.workspace.sealed_steps _ agree second.marks.keys _ right.whole (fun query asked => ?_) count key steps
  obtain ⟨other, listed, rfl⟩ := List.mem_map.mp ((same query).mp asked)
  exact right.rooted other listed

theorem agreeing_links (link : Link)
    (member : link ∈ first.marks.nodes.flatMap first.workspace.leaving) :
    link ∈ second.marks.nodes.flatMap second.workspace.leaving := by
  obtain ⟨node, marked, leaves⟩ := List.mem_flatMap.mp member
  obtain ⟨edges, filled, edge, edgeMember, rfl⟩ := (Workspace.mem_leaving_iff _ node _).mp leaves
  have key := agreeing_marks one another roots others first second left right number agree same node.key
    ((first.marks.mem_keys_iff _).mpr ⟨node, marked, rfl⟩)
  obtain ⟨other, remarked, shared⟩ := (second.marks.mem_keys_iff _).mp key
  have home : other.home = node.home := by
    rw [right.homes other remarked, left.homes node marked, number]
  obtain rfl : other = node := (Node.mk.injEq _ _ _ _).mpr ⟨home, shared⟩
  obtain ⟨list, found, _⟩ := right.whole.filled other.key key
  rw [right.number, ← right.homes other remarked] at found
  obtain rfl := agree other edges list filled found
  exact List.mem_flatMap.mpr ⟨other, remarked, (Workspace.mem_leaving_iff _ other _).mpr
    ⟨edges, found, edge, edgeMember, rfl⟩⟩

end Agreeing

end Sweep

namespace Workspace

theorem mark_by_records (workspace : Workspace) (compilation : Compilation) (schedule : Schedule) (roots : List Node)
    (marking : Marking) (marked : (workspace.markBy compilation schedule true roots).1 = .ok marking) :
    ∃ report, marking.report? = some report ∧
      report.Records (workspace.markBy compilation schedule true roots).2 marking.marks := by
  have records := Sweep.run_records compilation schedule workspace roots
  rcases workspace.mark_by_cases compilation schedule true roots with
    ⟨halt, _, result⟩ | ⟨final, ran, result⟩ <;> rw [result] at marked ⊢
  · exact nomatch marked
  · rw [ran] at records
    obtain rfl := Except.ok.inj marked
    exact ⟨final.report, rfl, records⟩

theorem agreeing_reports (workspace : Workspace) (compilation : Compilation) (schedule another : Schedule)
    (roots others : List Node) (known : ∀ root ∈ roots, workspace.registry.lookup root.key = some root)
    (same : ∀ root, root ∈ others ↔ root ∈ roots) (marking remarking : Marking)
    (marked : (workspace.markBy compilation schedule true roots).1 = .ok marking)
    (remarked : (workspace.markBy compilation another true others).1 = .ok remarking)
    (agree : (workspace.markBy compilation schedule true roots).2.edges.Agree
      (workspace.markBy compilation another true others).2.edges)
    (report rereport : Report)
    (records : report.Records (workspace.markBy compilation schedule true roots).2 marking.marks)
    (rerecords : rereport.Records (workspace.markBy compilation another true others).2 remarking.marks) :
    report.Equivalent rereport := by
  have listed : ∀ root ∈ others, workspace.registry.lookup root.key = some root :=
    fun root member => known root ((same root).mp member)
  have keys : ∀ key, key ∈ roots.map (·.key) ↔ key ∈ others.map (·.key) := by
    intro key
    simp only [List.mem_map, same]
  obtain ⟨first, _, left, result, rfl⟩ := workspace.mark_by_settled compilation schedule true roots known marking marked
  obtain ⟨second, _, right, reresult, rfl⟩ :=
    workspace.mark_by_settled compilation another true others listed remarking remarked
  rw [result] at agree records
  rw [reresult] at agree rerecords
  refine report.equivalent_of_links rereport fun link => ?_
  rw [records.links.mem_iff, rerecords.links.mem_iff]
  constructor
  · exact Sweep.agreeing_links workspace workspace roots others first second left right rfl agree keys link
  · exact Sweep.agreeing_links workspace workspace others roots second first right left rfl
      (fun node one two filled found => (agree node two one found filled).symm) (fun key => (keys key).symm) link

-- The cells may have been filled by anybody. Bodies that do not answer alike at any time
-- may make the needs depend on the schedule; what is recorded depends on the needs only.
theorem markings_recorded (workspace : Workspace) (compilation : Compilation) (schedule : Schedule)
    (roots : List Node) (marking : Marking)
    (marked : (workspace.markBy compilation schedule true roots).1 = .ok marking) :
    let after := (workspace.markBy compilation schedule true roots).2
    ∃ report, marking.report? = some report ∧ report.Records after marking.marks ∧
      (∀ history, report.Renders (.ofHistory history)) ∧
      ((∀ root ∈ roots, workspace.registry.lookup root.key = some root) →
        ∀ another others remarking, (∀ root, root ∈ others ↔ root ∈ roots) →
          (workspace.markBy compilation another true others).1 = .ok remarking →
          compilation.bodies.Steady ∨ after.edges.Agree (workspace.markBy compilation another true others).2.edges →
          ∃ rereport, remarking.report? = some rereport ∧ report.Equivalent rereport) := by
  intro after
  obtain ⟨report, recorded, records⟩ := workspace.mark_by_records compilation schedule roots marking marked
  refine ⟨report, recorded, records, fun history => report.sound_renders _ (Catalog.history_sound history), ?_⟩
  intro known another others remarking same remarked alike
  obtain ⟨rereport, rerecorded, rerecords⟩ :=
    workspace.mark_by_records compilation another others remarking remarked
  have agree : after.edges.Agree (workspace.markBy compilation another true others).2.edges := by
    rcases alike with steady | agree
    · exact fills_agree compilation workspace after _
        (mark_by_fills compilation steady workspace schedule true roots)
        (mark_by_fills compilation steady workspace another true others)
    · exact agree
  exact ⟨rereport, rerecorded, workspace.agreeing_reports compilation schedule another roots others known same
    marking remarking marked remarked agree report rereport records rerecords⟩

theorem self_call_recorded :
    let session := Session.after Session.selfCalling (.sample 0) (Session.selfCallingHistory ++ [.register (.body ⟨0⟩)])
    let compilation := session.compilation Session.selfCalling
    let turned : Schedule := .frontier (fun _ pending => pending.reverse) fun _ _ => List.reverse_perm _
    let roots : List Node := [⟨0, .virtualUse ⟨0⟩⟩, ⟨0, .body ⟨0⟩⟩]
    let others : List Node := [⟨0, .virtualUse ⟨0⟩⟩, ⟨0, .virtualUse ⟨0⟩⟩, ⟨0, .body ⟨0⟩⟩]
    compilation.bodies.Steady ∧ (∀ root ∈ roots, session.workspace.registry.lookup root.key = some root) ∧
    (∀ root, root ∈ others ↔ root ∈ roots) ∧
    ∃ marking remarking report rereport,
      (session.workspace.markBy compilation .worklist true roots).1 = .ok marking ∧
      (session.workspace.markBy compilation turned true others).1 = .ok remarking ∧
      marking.report? = some report ∧ remarking.report? = some rereport ∧
      report.Records (session.workspace.markBy compilation .worklist true roots).2 marking.marks ∧
      report.size = 4 ∧ report.links ≠ rereport.links ∧ report.Equivalent rereport ∧
      report.lines (.ofHistory []) = .error (.undescribed (.method ⟨0⟩)) := by
  intro session compilation turned roots others
  have steady : compilation.bodies.Steady := Bodies.of_list_steady _
  have known : ∀ root ∈ roots, session.workspace.registry.lookup root.key = some root := by decide
  have same : ∀ root, root ∈ others ↔ root ∈ roots := by simp [roots, others]
  obtain ⟨report, recorded, records, renders, alike⟩ :=
    session.workspace.markings_recorded compilation .worklist roots _ rfl
  obtain ⟨rereport, rerecorded, equivalent⟩ := alike known turned others _ same rfl (.inl steady)
  obtain rfl := Option.some.inj recorded
  obtain rfl := Option.some.inj rerecorded
  exact ⟨steady, known, same, _, _, _, _, rfl, rfl, rfl, rfl, records, by decide, by decide, equivalent, rfl⟩

end Workspace

end ArtifactGraph
