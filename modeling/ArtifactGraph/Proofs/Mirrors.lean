import ArtifactGraph.Proofs.Closure
import ArtifactGraph.Proofs.Renumberings

set_option autoImplicit false

namespace ArtifactGraph

namespace Renumbering

def edge (renumber : Renumbering) (edge : Edge) : Edge := ⟨renumber.key edge.target, edge.reason⟩

def link (renumber : Renumbering) (link : Link) : Link :=
  ⟨renumber.key link.source, renumber.key link.target, link.reason⟩

def node (renumber : Renumbering) (home : Nat) (node : Node) : Node := ⟨home, renumber.key node.key⟩

def origin (renumber : Renumbering) (origin : Origin) : Origin :=
  ⟨renumber.key origin.source, origin.reason⟩

def mark (renumber : Renumbering) (home : Nat) (mark : Mark) : Mark :=
  ⟨renumber.node home mark.node, mark.origin.map renumber.origin⟩

def marks (renumber : Renumbering) (home : Nat) (marks : Marks) : Marks :=
  ⟨marks.made.map (renumber.mark home)⟩

def visit (renumber : Renumbering) (home : Nat) (visit : Visit) : Visit :=
  ⟨renumber.node home visit.node, visit.edges.map renumber.edge⟩

theorem marks_keys (renumber : Renumbering) (home : Nat) (marks : Marks) :
    (renumber.marks home marks).keys = marks.keys.map renumber.key := by
  simp [Marks.keys, Renumbering.marks, mark, node]

theorem visit_links (renumber : Renumbering) (home : Nat) (visit : Visit) :
    (renumber.visit home visit).links = visit.links.map renumber.link := by
  simp [Visit.links, Renumbering.visit, Edge.leaving, edge, link, node]

theorem key_body (renumber : Renumbering) (key : Key) :
    (renumber.key key).bodyOf? = key.bodyOf?.map renumber.methods := by
  cases key <;> rfl

def Translates (renumber : Renumbering) (catalog : Catalog) (bodies others : Bodies) : Prop :=
  ∀ read method, (∀ old ∈ read, catalog.hasMethod old = true) → catalog.hasMethod method = true →
    others.needs (read.map renumber.methods) (renumber.methods method) =
      (bodies.needs read method).map renumber.edge

end Renumbering

structure Mirror where
  renumber : Renumbering
  one : Compilation
  two : Compilation
  here : Nat
  there : Nat
  carries : renumber.Carries one.catalog two.catalog
  translates : renumber.Translates one.catalog one.bodies two.bodies
  first : one.catalog.Sound
  second : two.catalog.Sound

namespace Mirror

variable (mirror : Mirror)

def Admits (key : Key) : Prop := mirror.one.catalog.Admits key

theorem admits_image (key : Key) (admitted : mirror.Admits key) :
    mirror.two.catalog.Admits (mirror.renumber.key key) :=
  mirror.renumber.carries_admits _ _ mirror.carries mirror.first mirror.second key admitted

theorem keys_apart (a b : Key) (left : mirror.Admits a) (right : mirror.Admits b) :
    mirror.renumber.key a = mirror.renumber.key b ↔ a = b :=
  ⟨mirror.renumber.key_injective _ _ mirror.carries mirror.first mirror.second a b left.2 right.2,
    congrArg _⟩

section Marks

variable (marks : Marks) (admitted : ∀ key ∈ marks.keys, mirror.Admits key)

include admitted

theorem marks_contains (key : Key) (welcome : mirror.Admits key) :
    (mirror.renumber.marks mirror.there marks).contains (mirror.renumber.key key) = marks.contains key := by
  rw [Bool.eq_iff_iff, Marks.contains_iff_mem, Marks.contains_iff_mem, Renumbering.marks_keys, List.mem_map]
  constructor
  · intro ⟨other, member, same⟩
    exact (mirror.keys_apart other key (admitted other member) welcome).mp same ▸ member
  · intro member
    exact ⟨key, member, rfl⟩

theorem marks_insert (node : Node) (welcome : mirror.Admits node.key) (origin : Option Origin) :
    (mirror.renumber.marks mirror.there marks).insert (mirror.renumber.node mirror.there node)
        (origin.map mirror.renumber.origin) =
      mirror.renumber.marks mirror.there (marks.insert node origin) := by
  have same := mirror.marks_contains marks admitted node.key welcome
  by_cases held : marks.contains node.key = true
  · rw [held] at same
    simp [Marks.insert, Renumbering.node, held, same]
  · rw [Bool.not_eq_true] at held
    rw [held] at same
    simp only [Marks.insert, Renumbering.node, held, same]
    simp [Renumbering.marks, Renumbering.mark, Renumbering.node]

theorem insert_admitted (node : Node) (welcome : mirror.Admits node.key) (origin : Option Origin) :
    ∀ key ∈ (marks.insert node origin).keys, mirror.Admits key := by
  intro key member
  rw [← Marks.contains_iff_mem, Marks.contains_insert, Bool.or_eq_true, Marks.contains_iff_mem,
    beq_iff_eq] at member
  cases member with
  | inl old => exact admitted key old
  | inr new => exact new ▸ welcome

theorem marks_discover (source : Key) (edges : List Edge) (welcome : ∀ edge ∈ edges, mirror.Admits edge.target) :
    (mirror.renumber.marks mirror.there marks).discover mirror.there (mirror.renumber.key source)
        (edges.map mirror.renumber.edge) =
      (marks.discover mirror.here source edges).map (mirror.renumber.mark mirror.there) := by
  induction edges generalizing marks with
  | nil => rfl
  | cons edge rest ih =>
      have later := fun other member => welcome other (List.mem_cons_of_mem edge member)
      have target := welcome edge List.mem_cons_self
      have same := mirror.marks_contains marks admitted edge.target target
      rw [List.map_cons]
      by_cases held : marks.contains edge.target = true
      · rw [Marks.discover_held _ _ _ edge rest held,
          Marks.discover_held _ _ _ (mirror.renumber.edge edge) _ (same.trans held)]
        exact ih marks admitted later
      · rw [Bool.not_eq_true] at held
        have grown := mirror.insert_admitted marks admitted ⟨mirror.here, edge.target⟩ target
          (some ⟨source, edge.reason⟩)
        rw [Marks.discover_fresh _ _ _ edge rest held, List.map_cons, ← ih _ grown later,
          ← mirror.marks_insert marks admitted _ target,
          Marks.discover_fresh _ _ _ (mirror.renumber.edge edge) _ (same.trans held)]
        rfl

end Marks

theorem marks_of_roots (roots : List Node) (admitted : ∀ root ∈ roots, mirror.Admits root.key) :
    Marks.ofRoots (roots.map (mirror.renumber.node mirror.there)) =
      mirror.renumber.marks mirror.there (.ofRoots roots) := by
  suffices run : ∀ marks : Marks, (∀ key ∈ marks.keys, mirror.Admits key) →
      (roots.map (mirror.renumber.node mirror.there)).foldl (fun marks root => marks.insert root none)
          (mirror.renumber.marks mirror.there marks) =
        mirror.renumber.marks mirror.there (roots.foldl (fun marks root => marks.insert root none) marks) from
    run {} fun _ member => (nomatch member)
  induction roots with
  | nil => exact fun _ _ => rfl
  | cons root rest ih =>
      intro marks keys
      have welcome := admitted root List.mem_cons_self
      have inserted := mirror.marks_insert marks keys root welcome none
      have grown := mirror.insert_admitted marks keys root welcome none
      rw [List.map_cons, List.foldl_cons, List.foldl_cons]
      exact inserted ▸ ih (fun other member => admitted other (List.mem_cons_of_mem root member)) _ grown

theorem traits_image (method : MethodId) (held : mirror.one.catalog.hasMethod method = true) :
    mirror.two.catalog.traits? (mirror.renumber.methods method) = mirror.one.catalog.traits? method := by
  obtain ⟨form, stored⟩ := (mirror.one.catalog.has_method_iff mirror.first method).mp held
  rw [Catalog.traits?, Catalog.traits?, stored, mirror.carries.methods method form stored]
  rfl

theorem stub_needs_image (read : List MethodId) (made : Stub) (payload : Payload)
    (fits : payload.shape = made.expects) (edges : List Edge)
    (ruled : mirror.one.needs read (.stub made payload) = .ok edges) :
    mirror.two.needs (read.map mirror.renumber.methods) (mirror.renumber.key (.stub made payload)) =
      .ok (edges.map mirror.renumber.edge) := by
  cases made <;> cases payload <;> first | (rw [← Except.ok.inj ruled]; rfl) | exact nomatch fits

theorem needs_image (read : List MethodId) (held : ∀ old ∈ read, mirror.one.catalog.hasMethod old = true)
    (key : Key) (admitted : mirror.Admits key) (edges : List Edge)
    (ruled : mirror.one.needs read key = .ok edges) :
    mirror.two.needs (read.map mirror.renumber.methods) (mirror.renumber.key key) =
      .ok (edges.map mirror.renumber.edge) := by
  cases key with
  | body method =>
      have needed := mirror.translates read method held admitted.2
      rw [← Except.ok.inj ruled, ← needed]
      rfl
  | virtualUse method =>
      have traits := mirror.traits_image method admitted.2
      simp only [Compilation.needs, Renumbering.key] at ruled ⊢
      rw [traits]
      cases known : mirror.one.catalog.traits? method with
      | none => simp [known] at ruled
      | some traits =>
          simp only [known, Except.ok.injEq] at ruled
          by_cases abstract : traits.isAbstract = true <;>
            simp [← ruled, Renumbering.edge, Renumbering.key, abstract]
  | stub made payload => exact mirror.stub_needs_image read made payload admitted.1 edges ruled

structure Spaces (one two : Workspace) : Prop where
  here : one.registry.number = mirror.here
  there : two.registry.number = mirror.there
  firstClosed : one.Closed mirror.one.catalog
  secondClosed : two.Closed mirror.two.catalog
  filled : ∀ key, mirror.Admits key → two.edges.get? ⟨mirror.there, mirror.renumber.key key⟩ =
    (one.edges.get? ⟨mirror.here, key⟩).map fun edges => edges.map mirror.renumber.edge
  read : two.read = one.read.map mirror.renumber.methods
  held : ∀ method ∈ one.read, mirror.one.catalog.hasMethod method = true

section Needs

variable (one two : Workspace) (spaces : mirror.Spaces one two) (key : Key) (admitted : mirror.Admits key)
  (edges : List Edge) (answered : (one.needs mirror.one ⟨mirror.here, key⟩).1 = .ok edges)

include spaces answered

theorem needs_welcome : ∀ edge ∈ edges, mirror.Admits edge.target := by
  intro edge member
  have after := one.needs_closed mirror.one ⟨mirror.here, key⟩ spaces.firstClosed
  exact after.admitted _ (one.needs_ok mirror.one _ edges spaces.firstClosed answered edge member)

include admitted

theorem needs_answers :
    (two.needs mirror.two ⟨mirror.there, mirror.renumber.key key⟩).1 =
      .ok (edges.map mirror.renumber.edge) := by
  have welcome := mirror.needs_welcome one two spaces key edges answered
  have cells := spaces.filled key admitted
  rcases one.needs_cases mirror.one ⟨mirror.here, key⟩ with
    ⟨old, known, result⟩ | ⟨_, _, _, result⟩ | ⟨_, _, _, _, _, result⟩ | ⟨empty, old, ruled, _, result⟩ <;>
    rw [result] at answered
  · rw [known, Except.ok.inj answered] at cells
    exact congrArg Prod.fst (two.needs_filled mirror.two _ _ cells)
  · exact nomatch answered
  · exact nomatch answered
  · obtain rfl := Except.ok.inj answered
    rw [empty] at cells
    have image := mirror.needs_image one.read spaces.held key admitted old ruled
    rw [← spaces.read] at image
    refine two.needs_accepted mirror.two _ _ cells image fun edge member => ?_
    obtain ⟨source, found, rfl⟩ := List.mem_map.mp member
    exact mirror.admits_image source.target (welcome source found)

theorem needs_spaces :
    mirror.Spaces (one.needs mirror.one ⟨mirror.here, key⟩).2
      (two.needs mirror.two ⟨mirror.there, mirror.renumber.key key⟩).2 := by
  have again := mirror.needs_answers one two spaces key admitted edges answered
  have cells := spaces.filled key admitted
  obtain ⟨filled, kept, read⟩ := one.needs_fills mirror.one _ edges answered
  obtain ⟨imageFilled, imageKept, imageRead⟩ := two.needs_fills mirror.two _ _ again
  have reads : two.reads ⟨mirror.there, mirror.renumber.key key⟩ =
      (one.reads ⟨mirror.here, key⟩).map mirror.renumber.methods := by
    cases known : one.edges.get? ⟨mirror.here, key⟩ <;> rw [known] at cells <;>
      simp [Workspace.reads, known, cells, Renumbering.key_body, Option.toList_map]
  refine ⟨(one.needs_number _ _).trans spaces.here, (two.needs_number _ _).trans spaces.there,
    one.needs_closed _ _ spaces.firstClosed, two.needs_closed _ _ spaces.secondClosed, ?_, ?_, ?_⟩
  · intro other welcome
    by_cases same : other = key
    · rw [same, filled, imageFilled]
      rfl
    -- Another key has another image, so that neither cell was touched.
    · have apart : mirror.renumber.key other ≠ mirror.renumber.key key := fun equal =>
        same ((mirror.keys_apart other key welcome admitted).mp equal)
      rw [kept _ (by simpa using same), imageKept _ (by simpa using apart)]
      exact spaces.filled other welcome
  · rw [read, imageRead, spaces.read, reads, List.map_append]
  · intro method member
    rw [read, List.mem_append] at member
    cases member with
    | inl old => exact spaces.held method old
    | inr new =>
        obtain rfl := ((one.mem_reads_iff ⟨mirror.here, key⟩ method).mp new).1
        exact admitted.2

end Needs

def Owns (node : Node) : Prop := node.home = mirror.here ∧ mirror.Admits node.key

-- Sweeps that have come equally far. Whatever was marked or followed is admitted, and
-- there the renumbering makes no two keys one.
structure Sweeps (one two : Sweep) : Prop where
  spaces : mirror.Spaces one.workspace two.workspace
  marks : two.marks = mirror.renumber.marks mirror.there one.marks
  pending : two.pending = one.pending.map (mirror.renumber.node mirror.there)
  visits : two.visits = one.visits.map (mirror.renumber.visit mirror.there)
  marked : ∀ key ∈ one.marks.keys, mirror.Admits key
  waiting : ∀ node ∈ one.pending, mirror.Owns node
  followed : ∀ link ∈ one.report.links, mirror.Admits link.source ∧ mirror.Admits link.target

theorem sweeps_visit (one two next : Sweep) (sweeps : mirror.Sweeps one two) (node : Node)
    (owned : mirror.Owns node) (done : one.visit mirror.one node = .ok next) :
    ∃ image, two.visit mirror.two (mirror.renumber.node mirror.there node) = .ok image ∧
      mirror.Sweeps next image := by
  obtain ⟨home, key⟩ := node
  obtain ⟨rfl, admitted⟩ := owned
  rcases Sweep.visit_closed mirror.one one _ sweeps.spaces.firstClosed with
    ⟨_, _, result⟩ | ⟨edges, found, answered, here, result⟩
  · exact nomatch result.symm.trans done
  · have spaces := mirror.needs_spaces _ _ sweeps.spaces key admitted edges answered
    have again := mirror.needs_answers _ _ sweeps.spaces key admitted edges answered
    have welcome := mirror.needs_welcome _ _ sweeps.spaces key edges answered
    have discovered := mirror.marks_discover one.marks sweeps.marked key edges welcome
    obtain rfl := Except.ok.inj (result.symm.trans done)
    rcases Sweep.visit_closed mirror.two two (mirror.renumber.node mirror.there ⟨mirror.here, key⟩)
        sweeps.spaces.secondClosed with ⟨_, refused, _⟩ | ⟨others, met, answers, there, image⟩
    · exact nomatch again.symm.trans refused
    · obtain rfl := Except.ok.inj (again.symm.trans answers)
      rw [sweeps.spaces.here] at here
      rw [sweeps.marks, sweeps.spaces.there] at there
      have same : met = found.map (mirror.renumber.mark mirror.there) := by
        rw [there, here]
        exact discovered
      refine ⟨_, image, spaces, ?_, ?_, ?_, ?_, ?_, ?_⟩
      · simp [sweeps.marks, same, Renumbering.marks]
      · simp [sweeps.pending, same, Renumbering.mark]
      · simp [sweeps.visits, Renumbering.visit]
      · intro other member
        rw [here] at member
        rcases (Marks.discover_keys _ _ _ edges other).mp member with old | ⟨edge, leads, rfl⟩
        · exact sweeps.marked other old
        · exact welcome edge leads
      · intro other member
        rcases List.mem_append.mp member with old | new
        · exact sweeps.waiting other old
        · obtain ⟨mark, made, rfl⟩ := List.mem_map.mp new
          obtain ⟨_, edge, leads, rfl⟩ := Marks.discover_mem _ _ _ edges mark (here ▸ made)
          exact ⟨rfl, welcome edge leads⟩
      · intro link member
        simp only [Sweep.report, List.flatMap_append, List.mem_append] at member
        cases member with
        | inl old => exact sweeps.followed link old
        | inr new =>
            simp only [List.flatMap_singleton, Visit.links, List.mem_map] at new
            obtain ⟨edge, leads, rfl⟩ := new
            exact ⟨admitted, welcome edge leads⟩

theorem sweeps_visit_all (nodes : List Node) (one two next : Sweep) (sweeps : mirror.Sweeps one two)
    (owned : ∀ node ∈ nodes, mirror.Owns node)
    (done : nodes.foldlM (Sweep.visit mirror.one) one = .ok next) :
    ∃ image, (nodes.map (mirror.renumber.node mirror.there)).foldlM (Sweep.visit mirror.two) two = .ok image ∧
      mirror.Sweeps next image := by
  induction nodes generalizing one two with
  | nil => exact ⟨two, rfl, Except.ok.inj done ▸ sweeps⟩
  | cons node rest ih =>
      rw [List.foldlM_cons] at done
      obtain ⟨middle, first, later⟩ := Sweep.bind_ok _ _ next done
      obtain ⟨image, visited, reflected⟩ :=
        mirror.sweeps_visit one two middle sweeps node (owned node List.mem_cons_self) first
      obtain ⟨final, remaining, last⟩ := ih middle image reflected
        (fun other member => owned other (List.mem_cons_of_mem node member)) later
      refine ⟨final, ?_, last⟩
      rw [List.map_cons, List.foldlM_cons, visited]
      exact remaining

theorem sweeps_drain (limit round : Nat) (one two final : Sweep) (sweeps : mirror.Sweeps one two)
    (done : Sweep.drain mirror.one .worklist limit round one = .ok final) :
    ∃ image, Sweep.drain mirror.two .worklist limit round two = .ok image ∧ mirror.Sweeps final image := by
  induction limit generalizing round one two with
  | zero => exact ⟨two, rfl, Except.ok.inj done ▸ sweeps⟩
  | succ limit ih =>
      by_cases idle : one.pending = []
      · have imageIdle : two.pending = [] := by rw [sweeps.pending, idle, List.map_nil]
        rw [Sweep.drain_idle _ _ _ round one idle] at done
        exact ⟨two, Sweep.drain_idle _ _ _ round two imageIdle, Except.ok.inj done ▸ sweeps⟩
      · have imageBusy : two.pending ≠ [] := by simpa [sweeps.pending] using idle
        rw [Sweep.drain_busy _ _ limit round one idle] at done
        obtain ⟨next, visited, rest⟩ := Sweep.bind_ok _ _ final done
        have taken : mirror.Sweeps { one with pending := one.pending.drop 1 }
            { two with pending := two.pending.drop 1 } := by
          refine ⟨sweeps.spaces, sweeps.marks, ?_, sweeps.visits, sweeps.marked, ?_, sweeps.followed⟩
          · simp [sweeps.pending]
          · exact fun node member => sweeps.waiting node (List.mem_of_mem_drop member)
        obtain ⟨image, again, reflected⟩ := mirror.sweeps_visit_all (one.pending.take 1) _ _ next taken
          (fun node member => sweeps.waiting node (List.mem_of_mem_take member)) visited
        obtain ⟨last, remaining, mirrored⟩ := ih (round + 1) next image reflected rest
        refine ⟨last, ?_, mirrored⟩
        have now : (one.pending.take 1).map (mirror.renumber.node mirror.there) =
            (Schedule.worklist.batch round two.pending).1 := by
          simp [Schedule.worklist, sweeps.pending]
        rw [now] at again
        rw [Sweep.drain_busy _ _ limit round two imageBusy]
        exact again ▸ remaining

theorem sweeps_start (one two : Workspace) (spaces : mirror.Spaces one two) (roots : List Node)
    (owned : ∀ root ∈ roots, mirror.Owns root) :
    mirror.Sweeps (.start one roots) (.start two (roots.map (mirror.renumber.node mirror.there))) := by
  have marks := mirror.marks_of_roots roots fun root member => (owned root member).2
  refine ⟨spaces, marks, ?_, rfl, ?_, ?_, fun _ member => (nomatch member)⟩
  · simp only [Sweep.start, marks]
    simp [Marks.nodes, Renumbering.marks, Renumbering.mark]
  · intro key member
    obtain ⟨root, listed, rfl⟩ := List.mem_map.mp ((Marks.of_roots_keys roots key).mp member)
    exact (owned root listed).2
  · exact fun node member => owned node (Marks.of_roots_nodes roots node member)

-- The two runs may have different budgets, so both get as much as they need together.
theorem sweeps_run (one two : Workspace) (spaces : mirror.Spaces one two) (roots : List Node)
    (owned : ∀ root ∈ roots, mirror.Owns root) (final : Sweep)
    (done : Sweep.run mirror.one .worklist one roots = .ok final) :
    ∃ image, Sweep.run mirror.two .worklist two (roots.map (mirror.renumber.node mirror.there)) = .ok image ∧
      mirror.Sweeps final image := by
  have start := mirror.sweeps_start one two spaces roots owned
  rw [← Sweep.run_within mirror.one .worklist one roots _ (Nat.le_add_right _ (Sweep.budget mirror.two two
    (roots.map (mirror.renumber.node mirror.there))))] at done
  rw [← Sweep.run_within mirror.two .worklist two _ _ (Nat.le_add_left _ (Sweep.budget mirror.one one roots))]
  exact mirror.sweeps_drain _ 0 _ _ final start done

end Mirror

end ArtifactGraph
