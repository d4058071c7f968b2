import ArtifactGraph.Proofs.Sessions
import ArtifactGraph.Proofs.Visits

set_option autoImplicit false

namespace ArtifactGraph

structure Attempt where
  node : Node
  answer : Except Fault (List Edge)

def failures (log : List Attempt) (node : Node) : Nat :=
  log.countP fun attempt => attempt.node == node && !attempt.answer.isOk

theorem failures_append (log more : List Attempt) (node : Node) :
    failures (log ++ more) node = failures log node + failures more node :=
  List.countP_append

namespace Workspace

def attempts (workspace : Workspace) (compilation : Compilation) (node : Node) : List Attempt :=
  match workspace.edges.get? node with
  | some _ => []
  | none => [⟨node, (workspace.needs compilation node).1⟩]

def worked (workspace : Workspace) (node : Node) : Nat := if (workspace.edges.get? node).isSome then 1 else 0

-- Each reading is paid for by a failure or by a cell that is filled.
structure Balances (log : List Attempt) (before after : Workspace) : Prop where
  number : after.registry.number = before.registry.number
  even : ∀ method,
    after.read.count method + before.worked ⟨before.registry.number, .body method⟩ =
      before.read.count method + failures log ⟨before.registry.number, .body method⟩ +
        after.worked ⟨before.registry.number, .body method⟩

theorem balances_idle (before after : Workspace) (number : after.registry.number = before.registry.number)
    (edges : after.edges = before.edges) (read : after.read = before.read) : Balances [] before after where
  number := number
  even method := by simp only [worked, edges, read, failures, List.countP_nil, Nat.add_zero]

theorem balances_append (log more : List Attempt) (before between after : Workspace)
    (first : Balances log before between) (second : Balances more between after) :
    Balances (log ++ more) before after where
  number := second.number.trans first.number
  even method := by
    have early := first.even method
    have late := second.even method
    rw [first.number] at late
    rw [failures_append]
    omega

theorem balances_settled (log : List Attempt) (before between after : Workspace) (first : Balances log before between)
    (number : after.registry.number = between.registry.number) (edges : after.edges = between.edges)
    (read : after.read = between.read) : Balances log before after := by
  have both := balances_append log [] before between after first (balances_idle between after number edges read)
  rwa [List.append_nil] at both

theorem count_body (node : Node) (home : Nat) (here : node.home = home) (method : MethodId) :
    node.key.bodyOf?.toList.count method = if node = ⟨home, .body method⟩ then 1 else 0 := by
  obtain ⟨place, key⟩ := node
  obtain rfl : place = home := here
  cases key <;> simp [Key.bodyOf?, List.count_singleton]

theorem failed_balances (before after : Workspace) (node : Node) (fault : Fault)
    (home : node.home = before.registry.number) (number : after.registry.number = before.registry.number)
    (edges : after.edges = before.edges) (read : after.read = before.read ++ node.key.bodyOf?.toList) :
    Balances [⟨node, .error fault⟩] before after where
  number := number
  even method := by
    have body := count_body node _ home method
    have failed : failures [⟨node, .error fault⟩] ⟨before.registry.number, .body method⟩ =
        if node = ⟨before.registry.number, .body method⟩ then 1 else 0 := by
      simp [failures, List.countP_singleton, Except.isOk, Except.toBool]
    rw [read, List.count_append, body, failed, worked, worked, edges]

theorem filled_balances (before after : Workspace) (node : Node) (found : List Edge)
    (home : node.home = before.registry.number) (empty : before.edges.get? node = none)
    (number : after.registry.number = before.registry.number) (edges : after.edges = before.edges.fill node found)
    (read : after.read = before.read ++ node.key.bodyOf?.toList) :
    Balances [⟨node, .ok found⟩] before after where
  number := number
  even method := by
    have body := count_body node _ home method
    have fine : failures [⟨node, .ok found⟩] ⟨before.registry.number, .body method⟩ = 0 := by
      simp [failures, Except.isOk, Except.toBool]
    rw [read, List.count_append, body, fine, worked, worked, edges]
    by_cases here : node = ⟨before.registry.number, .body method⟩
    · rw [← here, empty, Cells.fill_here]
      simp
    · rw [Cells.fill_elsewhere _ _ _ _ (Ne.symm here), if_neg here]

theorem needs_balances (workspace : Workspace) (compilation : Compilation) (node : Node)
    (home : node.home = workspace.registry.number) :
    Balances (workspace.attempts compilation node) workspace (workspace.needs compilation node).2 := by
  have number := workspace.needs_number compilation node
  rcases workspace.needs_cases compilation node with
    ⟨_, filled, result⟩ | ⟨empty, _, _, result⟩ | ⟨empty, _, _, _, _, result⟩ | ⟨empty, _, _, _, result⟩ <;>
    rw [result] at number ⊢
  · rw [attempts, filled]
    exact balances_idle workspace workspace rfl rfl rfl
  · rw [attempts, empty, result]
    exact failed_balances workspace _ node _ home number rfl rfl
  · rw [attempts, empty, result]
    exact failed_balances workspace _ node _ home number rfl rfl
  · rw [attempts, empty, result]
    exact filled_balances workspace _ node _ home empty number rfl rfl

end Workspace

namespace Sweep

def left : Except Halt Sweep → Workspace
  | .ok sweep => sweep.workspace
  | .error halt => halt.workspace

def attempts (compilation : Compilation) : List Node → Sweep → List Attempt
  | [], _ => []
  | node :: rest, sweep =>
      sweep.workspace.attempts compilation node ++
        match sweep.visit compilation node with
        | .error _ => []
        | .ok next => attempts compilation rest next

def drainAttempts (compilation : Compilation) (schedule : Schedule) : Nat → Nat → Sweep → List Attempt
  | 0, _, _ => []
  | budget + 1, round, sweep =>
    if sweep.pending.isEmpty then []
    else
      let (now, later) := schedule.batch round sweep.pending
      attempts compilation now { sweep with pending := later } ++
        match now.foldlM (visit compilation) { sweep with pending := later } with
        | .error _ => []
        | .ok next => drainAttempts compilation schedule budget (round + 1) next

def runAttempts (compilation : Compilation) (schedule : Schedule) (workspace : Workspace) (roots : List Node) :
    List Attempt :=
  drainAttempts compilation schedule (budget compilation workspace roots) 0 (start workspace roots)

theorem follow_all_left (compilation : Compilation) (source : Node) (edges : List Edge) (sweep : Sweep) :
    let after := left (edges.foldlM (follow compilation source) sweep)
    after.registry.number = sweep.workspace.registry.number ∧ after.edges = sweep.workspace.edges ∧
      after.read = sweep.workspace.read := by
  intro after
  let same (workspace : Workspace) : Prop :=
    workspace.registry.number = sweep.workspace.registry.number ∧ workspace.edges = sweep.workspace.edges ∧
      workspace.read = sweep.workspace.read
  have step : ∀ later edge, same later.workspace → Settles (fun next => same next.workspace)
      (fun halt => same halt.workspace) (follow compilation source later edge) := by
    intro later edge ⟨number, kept⟩
    have stays := later.workspace.registry.register_number compilation.catalog edge.target
    rcases follow_cases compilation source later edge with
      ⟨_, result⟩ | ⟨_, ⟨_, _, result⟩ | ⟨_, _, result⟩⟩ <;> rw [result]
    · exact ⟨number, kept⟩
    · exact ⟨stays.trans number, kept⟩
    · exact ⟨stays.trans number, kept⟩
  have settled := follow_all_settles compilation source _ _ step edges sweep ⟨rfl, rfl, rfl⟩
  change same (left _)
  cases done : edges.foldlM (follow compilation source) sweep <;> rw [done] at settled <;> exact settled

theorem visit_balances (compilation : Compilation) (sweep : Sweep) (node : Node)
    (home : node.home = sweep.workspace.registry.number) :
    Workspace.Balances (sweep.workspace.attempts compilation node) sweep.workspace
      (left (sweep.visit compilation node)) := by
  have balances := sweep.workspace.needs_balances compilation node home
  rcases visit_cases compilation sweep node with ⟨_, _, result⟩ | ⟨edges, _, result⟩ <;> rw [result]
  · exact balances
  · obtain ⟨number, kept, read⟩ := follow_all_left compilation node edges
      { sweep with
        workspace := (sweep.workspace.needs compilation node).2
        visits := sweep.visits ++ [⟨node, edges⟩] }
    exact Workspace.balances_settled _ _ _ _ balances number kept read

theorem attempts_balance (compilation : Compilation) (nodes : List Node) (sweep : Sweep)
    (homes : ∀ node ∈ nodes, node.home = sweep.workspace.registry.number) :
    Workspace.Balances (attempts compilation nodes sweep) sweep.workspace
      (left (nodes.foldlM (visit compilation) sweep)) := by
  induction nodes generalizing sweep with
  | nil => exact Workspace.balances_idle sweep.workspace sweep.workspace rfl rfl rfl
  | cons node rest ih =>
      have first := visit_balances compilation sweep node (homes node List.mem_cons_self)
      rw [List.foldlM_cons, attempts]
      cases visited : sweep.visit compilation node with
      | error halt =>
          rw [visited] at first
          dsimp only
          rw [List.append_nil]
          exact first
      | ok next =>
          rw [visited] at first
          refine Workspace.balances_append _ _ _ _ _ first (ih next fun other member => ?_)
          exact (homes other (List.mem_cons_of_mem node member)).trans first.number.symm

def Homed (home : Nat) (sweep : Sweep) : Prop :=
  sweep.workspace.registry.number = home ∧ ∀ node ∈ sweep.pending, node.home = home

theorem homed_visit (compilation : Compilation) (home : Nat) (node : Node) (sweep : Sweep)
    (homed : Homed home sweep) :
    Settles (Homed home) (fun _ => True) (sweep.visit compilation node) := by
  cases done : sweep.visit compilation node with
  | error halt => trivial
  | ok after =>
      obtain ⟨edges, found, registry, _, here, number, rfl⟩ := visit_ok compilation sweep after node done
      refine ⟨number.trans homed.1, fun other member => ?_⟩
      rcases List.mem_append.mp member with old | new
      · exact homed.2 other old
      · obtain ⟨mark, discovered, rfl⟩ := List.mem_map.mp new
        obtain ⟨_, edge, _, rfl⟩ := sweep.marks.discover_mem _ _ edges mark (here ▸ discovered)
        exact homed.1

theorem drain_balances (compilation : Compilation) (schedule : Schedule) (home budget round : Nat) (sweep : Sweep)
    (homed : Homed home sweep) :
    Workspace.Balances (drainAttempts compilation schedule budget round sweep) sweep.workspace
      (left (drain compilation schedule budget round sweep)) := by
  induction budget generalizing round sweep with
  | zero => exact Workspace.balances_idle sweep.workspace sweep.workspace rfl rfl rfl
  | succ budget ih =>
      by_cases idle : sweep.pending = []
      · rw [drain_idle compilation schedule _ round sweep idle, drainAttempts, idle, List.isEmpty_nil, if_pos rfl]
        exact Workspace.balances_idle sweep.workspace sweep.workspace rfl rfl rfl
      · have taken : ∀ node ∈ (schedule.batch round sweep.pending).1 ++ (schedule.batch round sweep.pending).2,
            node.home = home := fun node member =>
          homed.2 node ((schedule.perm round sweep.pending).mem_iff.mp member)
        have first := attempts_balance compilation (schedule.batch round sweep.pending).1
          { sweep with pending := (schedule.batch round sweep.pending).2 }
          fun node member => (taken node (List.mem_append_left _ member)).trans homed.1.symm
        have next := visit_all_settles compilation (fun _ => Homed home) (fun _ => True)
          (fun node _ sweep homed => homed_visit compilation home node sweep homed)
          (schedule.batch round sweep.pending).1
          { sweep with pending := (schedule.batch round sweep.pending).2 }
          ⟨homed.1, fun node member => taken node (List.mem_append_right _ member)⟩
        rw [drain_busy compilation schedule budget round sweep idle, drainAttempts,
          if_neg (by simpa using idle)]
        dsimp only
        cases worked : (schedule.batch round sweep.pending).1.foldlM (visit compilation)
            { sweep with pending := (schedule.batch round sweep.pending).2 } with
        | error halt =>
            rw [worked] at first
            dsimp only
            rw [List.append_nil]
            exact first
        | ok later =>
            rw [worked] at first next
            exact Workspace.balances_append _ _ _ _ _ first (ih (round + 1) later next)

theorem run_balances (compilation : Compilation) (schedule : Schedule) (workspace : Workspace) (roots : List Node)
    (homes : ∀ root ∈ roots, root.home = workspace.registry.number) :
    workspace.Balances (runAttempts compilation schedule workspace roots)
      (left (run compilation schedule workspace roots)) :=
  drain_balances compilation schedule workspace.registry.number _ 0 (start workspace roots)
    ⟨rfl, fun node member => homes node (Marks.of_roots_nodes roots node member)⟩

end Sweep

namespace Workspace

theorem mark_by_left (workspace : Workspace) (compilation : Compilation) (schedule : Schedule) (record : Bool)
    (roots : List Node) :
    (workspace.markBy compilation schedule record roots).2 =
      Sweep.left (Sweep.run compilation schedule workspace roots) := by
  rcases workspace.mark_by_cases compilation schedule record roots with
    ⟨halt, ran, result⟩ | ⟨final, ran, result⟩ <;> rw [ran, result] <;> rfl

theorem plan_by_left (workspace : Workspace) (compilation : Compilation) (schedule : Schedule) (record : Bool)
    (roots : List Node) :
    ∃ names, (workspace.planBy compilation schedule record roots).2 =
      { (workspace.markBy compilation schedule record roots).2 with names } := by
  unfold planBy
  cases workspace.markBy compilation schedule record roots with
  | mk answer after =>
      cases answer with
      | error fault => exact ⟨after.names, rfl⟩
      | ok marking =>
          dsimp only
          split
          · exact ⟨_, rfl⟩
          · exact ⟨_, rfl⟩

end Workspace

def Command.nodes : Command → List Node
  | .describe _ | .register _ => []
  | .name node | .needs node => [node]
  | .list nodes => nodes
  | .mark _ _ roots | .plan _ _ roots => roots

namespace Session

-- All that is worked out in the course of a command. A thread that is still at work when
-- another one meets a fault works on like a command of its own.
def attempts (bodies : Bodies) (session : Session) : Command → List Attempt
  | .describe _ | .register _ | .name _ | .list _ => []
  | .needs node => session.workspace.attempts (session.compilation bodies) node
  | .mark schedule _ roots | .plan schedule _ roots =>
      Sweep.runAttempts (session.compilation bodies) schedule session.workspace roots

def log (bodies : Bodies) : Session → List Command → List Attempt
  | _, [] => []
  | session, command :: rest => session.attempts bodies command ++ log bodies (perform bodies session command) rest

theorem perform_balances (bodies : Bodies) (session : Session) (command : Command)
    (homes : ∀ node ∈ command.nodes, node.home = session.workspace.registry.number) :
    session.workspace.Balances (session.attempts bodies command) (perform bodies session command).workspace := by
  cases command with
  | describe description => exact Workspace.balances_idle _ _ rfl rfl rfl
  | register key =>
      exact Workspace.balances_idle _ _ (session.workspace.registry.register_number session.catalog key) rfl rfl
  | name node => exact Workspace.balances_idle _ _ rfl rfl rfl
  | list nodes => exact Workspace.balances_idle _ _ rfl rfl rfl
  | needs node =>
      exact session.workspace.needs_balances (session.compilation bodies) node (homes node List.mem_cons_self)
  | mark schedule record roots =>
      have balances := Sweep.run_balances (session.compilation bodies) schedule session.workspace roots homes
      rw [← Workspace.mark_by_left _ _ _ record] at balances
      exact balances
  | plan schedule record roots =>
      have balances := Sweep.run_balances (session.compilation bodies) schedule session.workspace roots homes
      rw [← Workspace.mark_by_left _ _ _ record] at balances
      obtain ⟨names, result⟩ := session.workspace.plan_by_left (session.compilation bodies) schedule record roots
      rw [perform, result]
      exact Workspace.balances_settled _ _ _ _ balances rfl rfl rfl

theorem log_balances (bodies : Bodies) (session : Session) (commands : List Command)
    (homes : ∀ command ∈ commands, ∀ node ∈ command.nodes, node.home = session.workspace.registry.number) :
    session.workspace.Balances (session.log bodies commands) (commands.foldl (perform bodies) session).workspace := by
  induction commands generalizing session with
  | nil => exact Workspace.balances_idle _ _ rfl rfl rfl
  | cons command rest ih =>
      have first := session.perform_balances bodies command (homes command List.mem_cons_self)
      refine Workspace.balances_append _ _ _ _ _ first (ih _ fun other member node given => ?_)
      exact (homes other (List.mem_cons_of_mem command member) node given).trans first.number.symm

theorem bodies_read_once (bodies : Bodies) (site : Site) (history : List Command)
    (own : ∀ command ∈ history, ∀ node ∈ command.nodes, node.home = site.number) (method : MethodId) :
    let session := after bodies site history
    let node : Node := ⟨site.number, .body method⟩
    let failed := failures ((fresh site).log bodies history) node
    session.workspace.read.count method =
      failed + (if (session.workspace.edges.get? node).isSome then 1 else 0) ∧
    (failed = 0 → session.workspace.read.count method ≤ 1) := by
  intro session node failed
  have balances := (fresh site).log_balances bodies history own
  have even : session.workspace.read.count method + (fresh site).workspace.worked node =
      (fresh site).workspace.read.count method + failed + session.workspace.worked node := balances.even method
  have empty : (fresh site).workspace.worked node = 0 := rfl
  have unread : (fresh site).workspace.read.count method = 0 := rfl
  rw [empty, unread, Workspace.worked, Nat.zero_add, Nat.add_zero] at even
  refine ⟨even, fun never => ?_⟩
  split at even <;> omega

def calling : Bodies := .ofList [(⟨0⟩, [⟨.body ⟨1⟩, "call"⟩]), (⟨1⟩, [⟨.body ⟨0⟩, "call"⟩])]

-- The first is read in vain until the second is described, by itself and in a marking.
def callingHistory : List Command :=
  [.describe (.type (.named "App" "Loop" [])), .describe (.method { owner := ⟨0⟩, name := "Run" }),
    .register (.body ⟨0⟩), .needs ⟨0, .body ⟨0⟩⟩, .mark .rounds true [⟨0, .body ⟨0⟩⟩, ⟨0, .body ⟨0⟩⟩],
    .describe (.method { owner := ⟨0⟩, name := "Stop" }), .mark .worklist false [⟨0, .body ⟨0⟩⟩],
    .needs ⟨0, .body ⟨1⟩⟩, .mark .rounds false [⟨0, .body ⟨1⟩⟩]]

theorem calling_read :
    let session := after calling (.sample 0) callingHistory
    let log := (fresh (.sample 0)).log calling callingHistory
    (∀ command ∈ callingHistory, ∀ node ∈ command.nodes, node.home = 0) ∧
    session.workspace.read = [⟨0⟩, ⟨0⟩, ⟨0⟩, ⟨1⟩] ∧
    failures log ⟨0, .body ⟨0⟩⟩ = 2 ∧ failures log ⟨0, .body ⟨1⟩⟩ = 0 ∧
    session.workspace.read.count ⟨0⟩ = failures log ⟨0, .body ⟨0⟩⟩ +
      (if (session.workspace.edges.get? ⟨0, .body ⟨0⟩⟩).isSome then 1 else 0) ∧
    session.workspace.read.count ⟨1⟩ ≤ 1 := by
  intro session log
  have own : ∀ command ∈ callingHistory, ∀ node ∈ command.nodes, node.home = 0 := by decide
  have never : failures log ⟨0, .body ⟨1⟩⟩ = 0 := by decide
  obtain ⟨first, _⟩ := bodies_read_once calling (.sample 0) callingHistory own ⟨0⟩
  obtain ⟨_, second⟩ := bodies_read_once calling (.sample 0) callingHistory own ⟨1⟩
  exact ⟨own, by decide, by decide, never, first, second never⟩

end Session

end ArtifactGraph
