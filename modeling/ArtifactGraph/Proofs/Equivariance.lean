import ArtifactGraph.Proofs.Collisions
import ArtifactGraph.Proofs.Handles
import ArtifactGraph.Proofs.Mirrors

set_option autoImplicit false

namespace ArtifactGraph

def Report.Matches (one two : Catalog) (report mirrored : Report) : Prop :=
  ∃ lines, report.lines one = .ok lines ∧ mirrored.lines two = .ok lines

namespace Mirror

variable (mirror : Mirror)

theorem symbol_image (key : Key) (admitted : mirror.Admits key) :
    ∃ name, mirror.one.catalog.symbol key = .ok name ∧
      mirror.two.catalog.symbol (mirror.renumber.key key) = .ok name := by
  obtain ⟨name, named⟩ := mirror.one.catalog.symbol_total mirror.first key admitted.2
  exact ⟨name, named, mirror.renumber.carries_symbol _ _ mirror.carries mirror.first mirror.second key name named⟩

theorem symbol_same (key : Key) (admitted : mirror.Admits key) :
    mirror.two.catalog.symbol (mirror.renumber.key key) = mirror.one.catalog.symbol key := by
  obtain ⟨name, named, again⟩ := mirror.symbol_image key admitted
  rw [named, again]

theorem line_image (link : Link) (source : mirror.Admits link.source) (target : mirror.Admits link.target) :
    ∃ line, mirror.one.catalog.line link = .ok line ∧
      mirror.two.catalog.line (mirror.renumber.link link) = .ok line := by
  obtain ⟨start, named, again⟩ := mirror.symbol_image link.source source
  obtain ⟨finish, known, too⟩ := mirror.symbol_image link.target target
  refine ⟨⟨start, finish, link.reason⟩, ?_, ?_⟩
  · simp [Catalog.line, named, known, bind, Except.bind, pure, Except.pure]
  · simp [Catalog.line, Renumbering.link, again, too, bind, Except.bind, pure, Except.pure]

theorem lines_image (links : List Link)
    (admitted : ∀ link ∈ links, mirror.Admits link.source ∧ mirror.Admits link.target) :
    ∃ lines, links.mapM mirror.one.catalog.line = .ok lines ∧
      (links.map mirror.renumber.link).mapM mirror.two.catalog.line = .ok lines := by
  induction links with
  | nil => exact ⟨[], rfl, rfl⟩
  | cons link rest ih =>
      obtain ⟨source, target⟩ := admitted link List.mem_cons_self
      obtain ⟨line, first, again⟩ := mirror.line_image link source target
      obtain ⟨lines, later, too⟩ := ih fun other member => admitted other (List.mem_cons_of_mem link member)
      exact ⟨line :: lines, (map_cons_ok_iff _ _ _ _).mpr ⟨line, lines, first, later, rfl⟩,
        (map_cons_ok_iff _ _ _ _).mpr ⟨line, lines, again, too, rfl⟩⟩

theorem report_image (one two : Sweep) (sweeps : mirror.Sweeps one two) :
    one.report.Matches mirror.one.catalog mirror.two.catalog two.report := by
  have links : two.report.links = one.report.links.map mirror.renumber.link := by
    simp only [Sweep.report, sweeps.visits, List.flatMap_map, Renumbering.visit_links, List.map_flatMap]
  obtain ⟨lines, first, again⟩ := mirror.lines_image one.report.links sweeps.followed
  refine ⟨(lines.mergeSort Line.precedes).eraseReps, ?_, ?_⟩
  · rw [Report.lines, first]
    rfl
  · rw [Report.lines, links, again]
    rfl

section Runs

variable (one two : Workspace) (spaces : mirror.Spaces one two) (roots : List Node) (record : Bool)
  (known : ∀ root ∈ roots, one.registry.lookup root.key = some root)

include spaces known

theorem marking_image (marking : Marking)
    (marked : (one.markBy mirror.one .worklist record roots).1 = .ok marking) :
    ∃ image, (two.markBy mirror.two .worklist record
        (roots.map (mirror.renumber.node mirror.there))).1 = .ok image ∧
      image.marks = mirror.renumber.marks mirror.there marking.marks ∧
      (∀ key ∈ marking.marks.keys, mirror.Admits key) ∧
      Option.Rel (Report.Matches mirror.one.catalog mirror.two.catalog) marking.report? image.report? := by
  have owned : ∀ root ∈ roots, mirror.Owns root := by
    intro root member
    obtain ⟨held, home⟩ := (Registry.lookup_self_iff _ _).mp (known root member)
    exact ⟨home.trans spaces.here, spaces.firstClosed.admitted root.key held⟩
  rcases one.mark_by_cases mirror.one .worklist record roots with
    ⟨_, _, result⟩ | ⟨final, ran, result⟩ <;> rw [result] at marked
  · exact nomatch marked
  · obtain rfl := Except.ok.inj marked
    obtain ⟨image, again, sweeps⟩ := mirror.sweeps_run one two spaces roots owned final ran
    rcases two.mark_by_cases mirror.two .worklist record (roots.map (mirror.renumber.node mirror.there)) with
      ⟨_, refused, _⟩ | ⟨other, rerun, answer⟩
    · exact nomatch again.symm.trans refused
    · obtain rfl := Except.ok.inj (again.symm.trans rerun)
      refine ⟨_, congrArg Prod.fst answer, sweeps.marks, sweeps.marked, ?_⟩
      cases record with
      | false => exact .none
      | true => exact .some (mirror.report_image final image sweeps)

variable (firstNames : one.names.Coherent mirror.one.catalog) (secondNames : two.names.Coherent mirror.two.catalog)
  (met : ∀ root ∈ roots.map (mirror.renumber.node mirror.there),
    two.registry.lookup root.key = some root)

include firstNames secondNames met

theorem plan_image (listing relisting : Listing) (plan : Plan)
    (done : (one.planListed mirror.one .worklist record listing roots).1 = .ok plan) :
    ∃ image, (two.planListed mirror.two .worklist record relisting
        (roots.map (mirror.renumber.node mirror.there))).1 = .ok image ∧
      image.table.entries = plan.table.entries.map (fun entry => (entry.1, mirror.renumber.key entry.2)) ∧
      Option.Rel (Report.Matches mirror.one.catalog mirror.two.catalog) plan.report? image.report? := by
  have marked := ((one.plan_listed_iff mirror.one _ record listing roots plan).mp done).1
  obtain ⟨marking, again, marks, admitted, reports⟩ :=
    mirror.marking_image one two spaces roots record known _ marked
  obtain ⟨_, lists⟩ := one.plan_listed_lists mirror.one _ record listing roots spaces.firstClosed known
    mirror.first firstNames plan done
  obtain ⟨given, same, apart⟩ := (one.plan_listed_done_iff mirror.one _ record listing roots spaces.firstClosed
    known mirror.first firstNames).mp ⟨plan, done⟩
  obtain rfl := Except.ok.inj (marked.symm.trans same)
  have keys : marking.marks.keys = plan.marks.keys.map mirror.renumber.key := by
    rw [marks, Renumbering.marks_keys]
  have imagesApart : mirror.two.catalog.Distinguishes marking.marks.keys := by
    rw [keys]
    intro a left b right shared
    obtain ⟨source, listed, rfl⟩ := List.mem_map.mp left
    obtain ⟨target, member, rfl⟩ := List.mem_map.mp right
    rw [mirror.symbol_same source (admitted source listed),
      mirror.symbol_same target (admitted target member)] at shared
    exact congrArg _ (apart source listed target member shared)
  obtain ⟨image, planned⟩ := (two.plan_listed_done_iff mirror.two _ record relisting _ spaces.secondClosed
    met mirror.second secondNames).mpr ⟨marking, again, imagesApart⟩
  obtain ⟨_, relists⟩ := two.plan_listed_lists mirror.two _ record relisting _ spaces.secondClosed met
    mirror.second secondNames image planned
  have remarked := ((two.plan_listed_iff mirror.two _ record relisting _ image).mp planned).1
  obtain rfl := Except.ok.inj (again.symm.trans remarked)
  refine ⟨image, planned, ?_, reports⟩
  refine SymbolTable.lists_correspond _ _ _ _ _ _ lists relists _ (fun key => ?_) fun key member => ?_
  · exact iff_of_eq (congrArg (key ∈ ·) keys)
  · exact mirror.symbol_same key (admitted key member)

end Runs

end Mirror

structure Plan.Corresponds (renumber : Renumbering) (one two : Catalog) (plan image : Plan) : Prop where
  entries : image.table.entries = plan.table.entries.map fun entry => (entry.1, renumber.key entry.2)
  kinds : image.table.entries.map (fun entry => (entry.1, entry.2.kind)) =
    plan.table.entries.map fun entry => (entry.1, entry.2.kind)
  reports : Option.Rel (Report.Matches one two) plan.report? image.report?

namespace Workspace

theorem asked_read (catalog : Catalog) (site : Site) (keys : List Key) :
    (asked catalog site keys).read = [] :=
  asked_keeps catalog site keys (fun workspace => workspace.read = []) rfl fun _ _ same => same

theorem asked_spaces (mirror : Mirror) (here there : Site) (first : here.number = mirror.here)
    (second : there.number = mirror.there) (keys requested : List Key) :
    mirror.Spaces (asked mirror.one.catalog here keys)
      (asked mirror.two.catalog there requested) := by
  obtain ⟨_, cells, number⟩ := asked_blank mirror.one.catalog here keys
  obtain ⟨_, others, home⟩ := asked_blank mirror.two.catalog there requested
  refine ⟨number.trans first, home.trans second, asked_closed _ _ keys, asked_closed _ _ requested, ?_, ?_, ?_⟩
  · intro key _
    rw [cells, others]
    rfl
  · rw [asked_read, asked_read, List.map_nil]
  · rw [asked_read]
    exact fun _ member => nomatch member

theorem plans_correspond (history past : List Description) (renumber : Renumbering)
    (carries : renumber.Carries (.ofHistory history) (.ofHistory past)) (bodies others : Bodies)
    (translates : renumber.Translates (.ofHistory history) bodies others) (site home : Site)
    (keys requested : List Key) (roots : List Node)
    (known : ∀ root ∈ roots,
      (asked (.ofHistory history) site keys).registry.lookup root.key = some root)
    (met : ∀ root ∈ roots.map (renumber.node home.number),
      (asked (.ofHistory past) home requested).registry.lookup root.key = some root)
    (record : Bool) (listing relisting : Listing) (plan : Plan)
    (done : ((asked (.ofHistory history) site keys).planListed ⟨.ofHistory history, bodies⟩ .worklist
      record listing roots).1 = .ok plan) :
    plan.report?.isSome = record ∧
    ∃ image, ((asked (.ofHistory past) home requested).planListed ⟨.ofHistory past, others⟩ .worklist
        record relisting (roots.map (renumber.node home.number))).1 = .ok image ∧
      plan.Corresponds renumber (.ofHistory history) (.ofHistory past) image := by
  let mirror : Mirror := {
    renumber, one := ⟨.ofHistory history, bodies⟩, two := ⟨.ofHistory past, others⟩, here := site.number
    there := home.number, carries, translates, first := Catalog.history_sound history
    second := Catalog.history_sound past }
  have spaces := asked_spaces mirror site home rfl rfl keys requested
  obtain ⟨image, planned, entries, reports⟩ := mirror.plan_image _ _ spaces roots record known
    (asked_coherent _ site keys) (asked_coherent _ home requested) met listing relisting plan done
  refine ⟨plan_listed_recorded _ _ _ record listing roots plan done, image, planned, entries, ?_, reports⟩
  simp [entries, mirror, Renumbering.key_kind, Function.comp_def]

def alone : List Description :=
  [.type (.named "App" "Loop" []), .method { owner := ⟨0⟩, name := "Run", traits := { isVirtual := true } }]

def crowded : List Description :=
  [.type (.named "App" "Main" []), .method { owner := ⟨0⟩, name := "Main" },
    .type (.named "App" "Loop" []), .method { owner := ⟨1⟩, name := "Run", traits := { isVirtual := true } }]

def shifted : Renumbering := ⟨fun id => ⟨id.position + 1⟩, fun id => ⟨id.position + 1⟩⟩

def aloneBodies : Bodies :=
  .ofList [(⟨0⟩, [⟨.stub .newObject (.type ⟨0⟩), "new"⟩, ⟨.stub .virtualCall (.method ⟨0⟩), "call"⟩])]

def crowdedBodies : Bodies :=
  .ofList [(⟨1⟩, [⟨.stub .newObject (.type ⟨1⟩), "new"⟩, ⟨.stub .virtualCall (.method ⟨1⟩), "call"⟩])]

theorem crowded_corresponds :
    let one := Catalog.ofHistory alone
    let two := Catalog.ofHistory crowded
    let roots : List Node := [⟨0, .virtualUse ⟨0⟩⟩]
    shifted.Carries one two ∧ shifted.Translates one aloneBodies crowdedBodies ∧
    (∀ root ∈ roots, (asked one (.sample 0) [.virtualUse ⟨0⟩]).registry.lookup root.key = some root) ∧
    (∀ root ∈ roots.map (shifted.node 5),
      (asked two (.sample 5) [.body ⟨0⟩, .virtualUse ⟨1⟩]).registry.lookup root.key = some root) ∧
    ∃ plan, ((asked one (.sample 0) [.virtualUse ⟨0⟩]).planListed ⟨one, aloneBodies⟩ .worklist true .made roots).1 =
        .ok plan ∧ plan.marks.size = 4 ∧
      ∃ image, ((asked two (.sample 5) [.body ⟨0⟩, .virtualUse ⟨1⟩]).planListed ⟨two, crowdedBodies⟩ .worklist true
          .made (roots.map (shifted.node 5))).1 = .ok image ∧ plan.Corresponds shifted one two image := by
  intro one two roots
  have carries : shifted.Carries one two := by decide
  have translates : shifted.Translates one aloneBodies crowdedBodies := by
    intro read method _ held
    have only : method.position < 1 := (one.has_method_bound (Catalog.history_sound alone) method).mp held
    obtain rfl : method = ⟨0⟩ := congrArg MethodId.mk (Nat.lt_one_iff.mp only)
    rfl
  have known : ∀ root ∈ roots, (asked one (.sample 0) [.virtualUse ⟨0⟩]).registry.lookup root.key = some root := by
    decide
  have met : ∀ root ∈ roots.map (shifted.node 5),
      (asked two (.sample 5) [.body ⟨0⟩, .virtualUse ⟨1⟩]).registry.lookup root.key = some root := by
    decide
  refine ⟨carries, translates, known, met, ?_⟩
  have apart := one.single_apart (Nat.le_refl 1)
  obtain ⟨plan, done⟩ := (plan_listed_marked_iff _ ⟨one, aloneBodies⟩ .worklist true .made roots
    (asked_closed one _ _) known (Catalog.history_sound alone) (asked_coherent one _ _) apart).mpr ⟨_, rfl⟩
  obtain ⟨_, image⟩ := plans_correspond alone crowded shifted carries aloneBodies crowdedBodies translates
    (.sample 0) (.sample 5) [.virtualUse ⟨0⟩] [.body ⟨0⟩, .virtualUse ⟨1⟩] roots known met true .made .made plan done
  refine ⟨plan, done, ?_, image⟩
  have marked := ((plan_listed_iff _ _ _ _ _ _ plan).mp done).1
  have size := congrArg (fun answer => answer.toOption.map fun marking : Marking => marking.marks.size) marked
  exact Option.some.inj size.symm

end Workspace

end ArtifactGraph
