import ArtifactGraph.Proofs.Canonicity

set_option autoImplicit false

namespace ArtifactGraph

namespace Registry

structure Gains (before after : Registry) (keys : List Key) : Prop where
  number : after.number = before.number
  kept : ∀ key made, before.find? key = some made → after.find? key = some made
  added : ∃ more : List Key, more.Nodup ∧ (∀ key, key ∈ more ↔ key ∈ keys ∧ before.contains key = false) ∧
    after.size = before.size + more.length ∧
    (∀ key, after.contains key = true ↔ before.contains key = true ∨ key ∈ more) ∧
    ∀ place key, more[place]? = some key → after.find? key = some ⟨⟨before.number, key⟩, before.size + place⟩

theorem gains_contains (before after : Registry) (keys : List Key) (gains : before.Gains after keys) (key : Key) :
    after.contains key = true ↔ before.contains key = true ∨ key ∈ keys := by
  obtain ⟨more, _, member, _, holds, _⟩ := gains.added
  rw [holds, member]
  cases before.contains key <;> simp

theorem gains_nothing (registry : Registry) (keys : List Key)
    (held : ∀ key ∈ keys, registry.contains key = true) : registry.Gains registry keys := by
  refine ⟨rfl, fun _ _ found => found, [], .nil, fun key => ?_, rfl, by simp, by simp⟩
  simp only [List.not_mem_nil, false_iff, not_and, Bool.not_eq_false]
  exact held key

theorem gains_append (before between after : Registry) (keys others : List Key) (first : before.Gains between keys)
    (second : between.Gains after others) : before.Gains after (keys ++ others) where
  number := second.number.trans first.number
  kept key made found := second.kept key made (first.kept key made found)
  added := by
    have known := gains_contains before between keys first
    obtain ⟨early, once, member, counted, holds, placed⟩ := first.added
    obtain ⟨late, onceMore, remember, recounted, stillHolds, placedMore⟩ := second.added
    refine ⟨early ++ late, ?_, fun key => ?_, ?_, fun key => ?_, fun place key stored => ?_⟩
    · refine List.nodup_append.mpr ⟨once, onceMore, fun key here other there same => ?_⟩
      have held := (known key).mpr (.inr ((member key).mp here).1)
      have missing := ((remember other).mp there).2
      rw [← same, held] at missing
      cases missing
    · have missing : between.contains key = false ↔ before.contains key = false ∧ key ∉ keys := by
        rw [← Bool.not_eq_true, known, not_or, Bool.not_eq_true]
      rw [List.mem_append, member, remember, missing, List.mem_append]
      by_cases listed : key ∈ keys <;> simp [listed, and_comm]
    · rw [recounted, counted, List.length_append, Nat.add_assoc]
    · rw [stillHolds, holds, List.mem_append, or_assoc]
    · by_cases inside : place < early.length
      · rw [List.getElem?_append_left inside] at stored
        exact second.kept key _ (placed place key stored)
      · have behind : early.length ≤ place := Nat.le_of_not_lt inside
        rw [List.getElem?_append_right behind] at stored
        have there := placedMore (place - early.length) key stored
        rwa [first.number, counted, Nat.add_assoc, Nat.add_sub_cancel' behind] at there

theorem register_gains (registry : Registry) (catalog : Catalog) (key : Key)
    (welcome : registry.contains key = true ∨ catalog.Admits key) :
    registry.Gains (registry.register catalog key).2 [key] := by
  rcases registry.register_cases catalog key with
    ⟨held, result⟩ | ⟨missing, _, result⟩ | ⟨missing, refused, _, _, _⟩
  · rw [result]
    exact registry.gains_nothing [key] fun other member => List.mem_singleton.mp member ▸ held
  · rw [result]
    have grows := registry.add_grows key ((registry.missing_iff key).mp missing)
    refine ⟨rfl, grows.kept, [key], List.pairwise_singleton _ key, fun other => ?_, rfl, fun other => ?_,
      fun place other stored => ?_⟩
    · rw [List.mem_singleton, iff_self_and]
      rintro rfl
      exact missing
    · rw [registry.contains_add, List.mem_singleton]
    · rcases (stored_concat [] place key other).mp stored with ⟨rfl, rfl⟩ | none
      · rw [registry.find_add, if_pos rfl]
        rfl
      · exact nomatch none
  · rcases welcome with held | admitted
    · exact nomatch held.symm.trans missing
    · exact absurd admitted refused

theorem register_all_gains (registry : Registry) (catalog : Catalog) (keys : List Key)
    (welcome : ∀ key ∈ keys, catalog.Admits key) :
    registry.Gains (registry.registerAll catalog keys).2 keys := by
  induction keys generalizing registry with
  | nil => exact registry.gains_nothing [] (by simp)
  | cons key rest ih =>
      have admitted := welcome key List.mem_cons_self
      have first := registry.register_gains catalog key (.inr admitted)
      obtain ⟨_, accepted⟩ := (registry.register_accepts catalog key).mpr (.inr admitted)
      rcases registry.register_all_cons catalog key rest with ⟨_, refused, _⟩ | ⟨_, _, result⟩
      · exact nomatch accepted.symm.trans refused
      · rw [result]
        have later := ih (registry.register catalog key).2 fun other member =>
          welcome other (List.mem_cons_of_mem key member)
        exact gains_append _ _ _ [key] rest first later

theorem register_all_refused (registry : Registry) (catalog : Catalog) (early late : List Key) (key : Key)
    (fault : Fault) (welcome : ∀ other ∈ early, catalog.Admits other) (missing : registry.contains key = false)
    (checked : catalog.checkKey key = .error fault) :
    registry.registerAll catalog (early ++ key :: late) = (.error fault, (registry.registerAll catalog early).2) := by
  induction early generalizing registry with
  | nil =>
      have refused := registry.register_refused catalog key fault missing checked
      simp only [List.nil_append, registerAll, refused]
  | cons other rest ih =>
      have admitted := welcome other List.mem_cons_self
      have bad : ¬ catalog.Admits key := by
        intro good
        rw [(catalog.check_key_ok key).mpr good] at checked
        cases checked
      have still : (registry.register catalog other).2.contains key = false := by
        cases held : (registry.register catalog other).2.contains key with
        | false => rfl
        | true =>
            rcases registry.register_adds catalog other key held with before | ⟨same, _⟩
            · exact absurd (missing.symm.trans before) Bool.false_ne_true
            · exact absurd (same ▸ admitted) bad
      have next := ih (registry.register catalog other).2
        (fun query member => welcome query (List.mem_cons_of_mem other member)) still
      rcases registry.register_cases catalog other with ⟨_, result⟩ | ⟨_, _, result⟩ | ⟨_, refused, _⟩
      · rw [result] at next
        simp only [List.cons_append, registerAll, result, next]
      · rw [result] at next
        simp only [List.cons_append, registerAll, result, next]
      · exact absurd admitted refused

end Registry

-- What can happen to the cells: calls in the session, each with bodies of its own, and
-- calls in other sessions that work with the same cells.
inductive Turn where
  | here (bodies : Bodies) (command : Command)
  | elsewhere (bodies : Bodies) (other : Session) (command : Command)

namespace Session

def lent (session : Session) (workspace : Workspace) : Session :=
  { session with workspace := { session.workspace with names := workspace.names, edges := workspace.edges } }

def turn (session : Session) : Turn → Session
  | .here bodies command => perform bodies session command
  | .elsewhere bodies other command =>
      session.lent (perform bodies (other.lent session.workspace) command).workspace

def turned (site : Site) (turns : List Turn) : Session := turns.foldl turn (fresh site)

theorem perform_filled (bodies : Bodies) (session : Session) (command : Command) (node : Node) (edges : List Edge)
    (filled : session.workspace.edges.get? node = some edges) :
    (perform bodies session command).workspace.edges.get? node = some edges := by
  refine perform_keeps bodies (fun _ workspace => workspace.edges.get? node = some edges) ?_ ?_ ?_ ?_ session
    command filled
  · exact fun _ _ _ _ kept => kept
  · exact fun _ _ _ kept => kept
  · exact fun catalog workspace other kept => workspace.needs_keeps_filled ⟨catalog, bodies⟩ other node edges kept
  · exact fun _ _ _ kept => kept

theorem turn_filled (session : Session) (turn : Turn) (node : Node) (edges : List Edge)
    (filled : session.workspace.edges.get? node = some edges) :
    (session.turn turn).workspace.edges.get? node = some edges := by
  cases turn with
  | here bodies command => exact perform_filled bodies session command node edges filled
  | elsewhere bodies other command =>
      exact perform_filled bodies (other.lent session.workspace) command node edges filled

theorem turn_all_filled (session : Session) (turns : List Turn) (node : Node) (edges : List Edge)
    (filled : session.workspace.edges.get? node = some edges) :
    (turns.foldl turn session).workspace.edges.get? node = some edges := by
  induction turns generalizing session with
  | nil => exact filled
  | cons first rest ih => exact ih _ (session.turn_filled first node edges filled)

-- To the registry of the session it is all the same what changes the cells elsewhere.
theorem turn_undergo (session : Session) (turn : Turn) : ∃ event, session.turn turn = session.undergo event := by
  cases turn with
  | here bodies command => exact ⟨.call bodies command, rfl⟩
  | elsewhere bodies other command => exact ⟨.elsewhere _ _ session.workspace.read, rfl⟩

theorem turn_all_undergo (session : Session) (turns : List Turn) :
    ∃ events : List Event, turns.foldl turn session = events.foldl undergo session := by
  induction turns generalizing session with
  | nil => exact ⟨[], rfl⟩
  | cons first rest ih =>
      obtain ⟨event, here⟩ := session.turn_undergo first
      obtain ⟨events, later⟩ := ih (session.turn first)
      exact ⟨event :: events, by rw [List.foldl_cons, later, here, List.foldl_cons]⟩

theorem turned_vetted (site : Site) (turns : List Turn) :
    (turned site turns).workspace.registry.Vetted (turned site turns).catalog := by
  obtain ⟨events, same⟩ := (fresh site).turn_all_undergo turns
  rw [turned, same]
  exact through_vetted site events

def Accepts (session : Session) (request : Edge) : Prop :=
  ∃ node, (session.workspace.register session.catalog request.target).1 = .ok node

instance (session : Session) (request : Edge) : Decidable (session.Accepts request) :=
  decidable_of_iff _ (session.workspace.registry.register_accepts session.catalog request.target).symm

-- Whoever asks for the needs of the node from now on is given the edges, and nothing
-- changes.
def Answered (session : Session) (node : Node) (edges : List Edge) : Prop :=
  ∀ turns : List Turn, let later := turns.foldl turn session
    (∀ bodies, later.workspace.needs (later.compilation bodies) node = (.ok edges, later.workspace)) ∧
    ∀ bodies (other : Session), let asked := other.lent later.workspace
      asked.workspace.needs (asked.compilation bodies) node = (.ok edges, asked.workspace)

theorem filled_answered (session : Session) (node : Node) (edges : List Edge)
    (filled : session.workspace.edges.get? node = some edges) : session.Answered node edges := by
  intro turns later
  have still := session.turn_all_filled turns node edges filled
  exact ⟨fun bodies => later.workspace.needs_filled _ node edges still,
    fun bodies other => Workspace.needs_filled _ _ node edges still⟩

structure Granted (session : Session) (node : Node) (requests : List Edge) (after : Workspace) : Prop where
  filled : after.edges.get? node = some requests
  elsewhere : ∀ other, other ≠ node → after.edges.get? other = session.workspace.edges.get? other
  gained : session.workspace.registry.Gains after.registry (requests.map (·.target))
  named : after.names = session.workspace.names
  lasting : Answered { session with workspace := after } node requests

structure Stopped (session : Session) (node : Node) (early : List Edge) (after : Workspace) : Prop where
  empty : after.edges.get? node = none
  cells : after.edges = session.workspace.edges
  gained : session.workspace.registry.Gains after.registry (early.map (·.target))
  named : after.names = session.workspace.names

section Requests

variable (session : Session) (bodies : Bodies) (node : Node) (requests : List Edge)
  (empty : session.workspace.edges.get? node = none)
  (ruled : (session.compilation bodies).needs session.workspace.read node.key = .ok requests)

include empty ruled

theorem needs_granted (welcome : ∀ request ∈ requests, session.catalog.Admits request.target) :
    (session.workspace.needs (session.compilation bodies) node).1 = .ok requests ∧
      session.Granted node requests (session.workspace.needs (session.compilation bodies) node).2 := by
  have gained := session.workspace.registry.register_all_gains session.catalog (requests.map (·.target))
    (List.forall_mem_map.mpr welcome)
  have answered := session.workspace.needs_accepted (session.compilation bodies) node requests empty ruled welcome
  obtain ⟨filled, elsewhere, _⟩ := session.workspace.needs_fills (session.compilation bodies) node requests answered
  have registry : (session.workspace.needs (session.compilation bodies) node).2.registry =
      (session.workspace.registry.registerAll session.catalog (requests.map (·.target))).2 := by
    rcases session.workspace.needs_cases (session.compilation bodies) node with
      ⟨_, held, _⟩ | ⟨_, _, refused, _⟩ | ⟨_, _, _, _, _, result⟩ | ⟨_, others, again, _, result⟩
    · exact nomatch empty.symm.trans held
    · exact nomatch ruled.symm.trans refused
    · exact nomatch answered.symm.trans (congrArg Prod.fst result)
    · obtain rfl := Except.ok.inj (ruled.symm.trans again)
      rw [result]
      rfl
  exact ⟨answered, filled, elsewhere, registry ▸ gained, session.workspace.needs_names _ node,
    filled_answered _ node requests filled⟩

theorem needs_stopped (early late : List Edge) (request : Edge) (fault : Fault)
    (shape : requests = early ++ request :: late) (welcome : ∀ other ∈ early, session.catalog.Admits other.target)
    (refused : (session.workspace.register session.catalog request.target).1 = .error fault) :
    (session.workspace.needs (session.compilation bodies) node).1 = .error fault ∧
      session.Stopped node early (session.workspace.needs (session.compilation bodies) node).2 := by
  have targets := List.forall_mem_map.mpr welcome
  have gained := session.workspace.registry.register_all_gains session.catalog (early.map (·.target)) targets
  have stopped : session.workspace.registry.registerAll (session.compilation bodies).catalog (requests.map (·.target)) =
      (.error fault, (session.workspace.registry.registerAll session.catalog (early.map (·.target))).2) := by
    rw [shape, List.map_append, List.map_cons]
    rcases session.workspace.registry.register_cases session.catalog request.target with
      ⟨_, result⟩ | ⟨_, _, result⟩ | ⟨missing, _, other, checked, result⟩
    · exact nomatch (congrArg Prod.fst result).symm.trans refused
    · exact nomatch (congrArg Prod.fst result).symm.trans refused
    · obtain rfl := Except.error.inj ((congrArg Prod.fst result).symm.trans refused)
      exact session.workspace.registry.register_all_refused session.catalog _ _ _ other targets missing checked
  have result : session.workspace.needs (session.compilation bodies) node = (.error fault, { session.workspace with
      registry := (session.workspace.registry.registerAll session.catalog (early.map (·.target))).2
      read := session.workspace.read ++ node.key.bodyOf?.toList }) := by
    simp only [Workspace.needs, empty, ruled, stopped]
  rw [result]
  exact ⟨rfl, empty, rfl, gained, rfl⟩

end Requests

theorem needs_exact (site : Site) (turns : List Turn) (bodies : Bodies) (node : Node)
    (known : (turned site turns).workspace.registry.lookup node.key = some node)
    (empty : (turned site turns).workspace.edges.get? node = none) :
    let session := turned site turns
    let answer := session.workspace.needs (session.compilation bodies) node
    ∃ requests, (session.compilation bodies).needs session.workspace.read node.key = .ok requests ∧
      (∀ method, node.key = .body method → requests = bodies.needs session.workspace.read method) ∧
      ((∀ request ∈ requests, session.Accepts request) →
        answer.1 = .ok requests ∧ session.Granted node requests answer.2) ∧
      ((∃ request ∈ requests, ¬ session.Accepts request) →
        ∃ early request late fault, requests = early ++ request :: late ∧ (∀ other ∈ early, session.Accepts other) ∧
          (session.workspace.register session.catalog request.target).1 = .error fault ∧
          answer.1 = .error fault ∧ session.Stopped node early answer.2) := by
  intro session answer
  have vetted : session.workspace.registry.Vetted session.catalog := turned_vetted site turns
  have accepts : ∀ request, session.Accepts request ↔ session.catalog.Admits request.target :=
    fun request => (session.workspace.registry.register_accepts session.catalog request.target).trans
      ⟨fun either => either.elim (vetted.admitted request.target) id, .inr⟩
  have held := ((Registry.lookup_self_iff _ node).mp known).1
  obtain ⟨requests, ruled⟩ := (session.compilation bodies).needs_total session.workspace.read node.key
    (vetted.admitted node.key held)
  have listed : ∀ method, node.key = .body method → requests = bodies.needs session.workspace.read method := by
    intro method body
    rw [body] at ruled
    exact (Except.ok.inj ruled).symm
  simp only [accepts]
  refine ⟨requests, ruled, listed, session.needs_granted bodies node requests empty ruled, ?_⟩
  rintro ⟨bad, made, unwelcome⟩
  obtain ⟨request, first⟩ : ∃ request, requests.find? (fun other => decide (¬ session.catalog.Admits other.target)) =
      some request := by
    rw [← Option.isSome_iff_exists, List.find?_isSome]
    exact ⟨bad, made, by simpa using unwelcome⟩
  obtain ⟨refused, early, late, shape, before⟩ := List.find?_eq_some_iff_append.mp first
  have welcome : ∀ other ∈ early, session.catalog.Admits other.target :=
    fun other member => by simpa using before other member
  cases asked : (session.workspace.register session.catalog request.target).1 with
  | ok target =>
      have good := (accepts request).mp ⟨target, asked⟩
      simp [good] at refused
  | error fault =>
      exact ⟨early, request, late, fault, shape, welcome, asked,
        session.needs_stopped bodies node requests empty ruled early late request fault shape welcome asked⟩

def lending : List Turn :=
  [.here .empty (.describe (.type (.named "App" "Loop" []))),
    .here .empty (.describe (.method { owner := ⟨0⟩, name := "Run" })), .here .empty (.register (.body ⟨0⟩)),
    .here .empty (.register (.stub .cast (.type ⟨0⟩))),
    .elsewhere .empty (fresh (.sample 1)) (.needs ⟨1, .body ⟨0⟩⟩)]

def repeating : Bodies :=
  .ofList [(⟨0⟩, [⟨.stub .cast (.type ⟨0⟩), "cast"⟩, ⟨.virtualUse ⟨0⟩, "use"⟩, ⟨.virtualUse ⟨0⟩, "again"⟩,
    ⟨.stub .cast (.type ⟨0⟩), "cast"⟩])]

def refusing : Bodies :=
  .ofList [(⟨0⟩, [⟨.virtualUse ⟨0⟩, "use"⟩, ⟨.stub .newObject (.method ⟨0⟩), "new"⟩, ⟨.body ⟨7⟩, "call"⟩,
    ⟨.stub .isInstance (.type ⟨0⟩), "test"⟩])]

theorem lent_needs_exact :
    let session := turned (.sample 0) lending
    let node : Node := ⟨0, .body ⟨0⟩⟩
    let granted := session.workspace.needs (session.compilation repeating) node
    let stopped := session.workspace.needs (session.compilation refusing) node
    session.workspace.registry.lookup node.key = some node ∧ session.workspace.edges.get? node = none ∧
    granted.1 = .ok (repeating.needs [] ⟨0⟩) ∧ session.Granted node (repeating.needs [] ⟨0⟩) granted.2 ∧
    stopped.1 = .error (.misfit (.stub .newObject) .type .method) ∧
    ∃ early request late, refusing.needs [] ⟨0⟩ = early ++ request :: late ∧
      (∀ other ∈ early, session.Accepts other) ∧ ¬ session.Accepts request ∧
      session.Stopped node early stopped.2 := by
  intro session node granted stopped
  have known : session.workspace.registry.lookup node.key = some node := by decide
  have empty : session.workspace.edges.get? node = none := by decide
  obtain ⟨requests, _, listed, good, _⟩ := needs_exact (.sample 0) lending repeating node known empty
  obtain rfl := listed ⟨0⟩ rfl
  obtain ⟨done, left⟩ := good (by decide)
  obtain ⟨others, _, relisted, _, bad⟩ := needs_exact (.sample 0) lending refusing node known empty
  obtain rfl := relisted ⟨0⟩ rfl
  obtain ⟨early, request, late, fault, shape, welcome, refused, failed, rest⟩ := bad (by decide)
  refine ⟨known, empty, done, left, rfl, early, request, late, shape, welcome, ?_, rest⟩
  rintro ⟨target, accepted⟩
  exact nomatch accepted.symm.trans refused

end Session

end ArtifactGraph
