import ArtifactGraph.Plan
import ArtifactGraph.Proofs.Sweeps

set_option autoImplicit false

namespace ArtifactGraph

theorem Sweep.run_keeps (compilation : Compilation) (schedule : Schedule) (keeps : Workspace → Prop)
    (needs : ∀ workspace node, keeps workspace → keeps (workspace.needs compilation node).2)
    (register : ∀ workspace key, keeps workspace → keeps (workspace.register compilation.catalog key).2)
    (workspace : Workspace) (roots : List Node) (now : keeps workspace) :
    Sweep.Settles (fun final => keeps final.workspace) (fun halt => keeps halt.workspace)
      (Sweep.run compilation schedule workspace roots) := by
  have follow : ∀ source sweep edge, keeps sweep.workspace →
      Sweep.Settles (fun next => keeps next.workspace) (fun halt => keeps halt.workspace)
        (Sweep.follow compilation source sweep edge) := by
    intro source sweep edge holds
    rcases Sweep.follow_cases compilation source sweep edge with
      ⟨_, result⟩ | ⟨_, ⟨_, _, result⟩ | ⟨_, _, result⟩⟩ <;> rw [result]
    · exact holds
    · exact register _ _ holds
    · exact register _ _ holds
  have settled := Sweep.run_settles compilation schedule workspace roots
    (fun _ sweep => keeps sweep.workspace) (fun halt => keeps halt.workspace) now
    (fun _ _ _ holds _ => holds)
    (fun node _ sweep holds => by
      rcases Sweep.visit_cases compilation sweep node with ⟨_, _, result⟩ | ⟨edges, _, result⟩ <;>
        rw [result]
      · exact needs _ _ holds
      · exact Sweep.follow_all_settles compilation node _ _ (follow node) edges _ (needs _ _ holds))
  exact Sweep.settles_imp _ _ _ _ settled fun _ final => final.1

namespace Workspace

theorem mark_by_cases (workspace : Workspace) (compilation : Compilation) (schedule : Schedule)
    (record : Bool) (roots : List Node) :
    (∃ halt, Sweep.run compilation schedule workspace roots = .error halt ∧
      workspace.markBy compilation schedule record roots = (.error halt.fault, halt.workspace)) ∨
    (∃ final, Sweep.run compilation schedule workspace roots = .ok final ∧
      workspace.markBy compilation schedule record roots =
        (.ok ⟨final.marks, if record then some final.report else none⟩, final.workspace)) := by
  cases ran : Sweep.run compilation schedule workspace roots with
  | error halt => exact .inl ⟨halt, rfl, by simp only [markBy, ran]⟩
  | ok final => exact .inr ⟨final, rfl, by simp only [markBy, ran]⟩

theorem mark_by_keeps (compilation : Compilation) (schedule : Schedule) (keeps : Workspace → Prop)
    (needs : ∀ workspace node, keeps workspace → keeps (workspace.needs compilation node).2)
    (register : ∀ workspace key, keeps workspace → keeps (workspace.register compilation.catalog key).2)
    (workspace : Workspace) (record : Bool) (roots : List Node) (now : keeps workspace) :
    keeps (workspace.markBy compilation schedule record roots).2 := by
  have settled := Sweep.run_keeps compilation schedule keeps needs register workspace roots now
  rcases workspace.mark_by_cases compilation schedule record roots with
    ⟨halt, ran, result⟩ | ⟨final, ran, result⟩ <;> rw [ran] at settled <;> rw [result]
  · exact settled
  · exact settled

theorem needs_names (workspace : Workspace) (compilation : Compilation) (node : Node) :
    (workspace.needs compilation node).2.names = workspace.names := by
  rcases workspace.needs_cases compilation node with
    ⟨_, _, result⟩ | ⟨_, _, _, result⟩ | ⟨_, _, _, _, _, result⟩ | ⟨_, _, _, _, result⟩ <;> rw [result]

theorem mark_by_names (workspace : Workspace) (compilation : Compilation) (schedule : Schedule)
    (record : Bool) (roots : List Node) :
    (workspace.markBy compilation schedule record roots).2.names = workspace.names :=
  mark_by_keeps compilation schedule (fun later => later.names = workspace.names)
    (fun later node same => (later.needs_names compilation node).trans same) (fun _ _ same => same)
    workspace record roots rfl

theorem plan_by_keeps (compilation : Compilation) (schedule : Schedule) (keeps : Workspace → Prop)
    (needs : ∀ workspace node, keeps workspace → keeps (workspace.needs compilation node).2)
    (register : ∀ workspace key, keeps workspace → keeps (workspace.register compilation.catalog key).2)
    (naming : ∀ workspace names, keeps workspace → keeps { workspace with names })
    (workspace : Workspace) (record : Bool) (roots : List Node) (now : keeps workspace) :
    keeps (workspace.planBy compilation schedule record roots).2 := by
  have marked := mark_by_keeps compilation schedule keeps needs register workspace record roots now
  unfold planBy
  cases done : workspace.markBy compilation schedule record roots with
  | mk answer after =>
      rw [done] at marked
      cases answer with
      | error fault => exact marked
      | ok marking =>
          dsimp only
          split <;> exact naming after _ marked

end Workspace

def Site.sample (number : Nat) : Site where
  number
  digest key :=
    match key.payload with
    | .type id => id.position
    | .method id => id.position + 8
    | .delegate record => record.target.position + 8

structure Session where
  catalog : Catalog
  workspace : Workspace

-- What may be done in a session. Nodes may be of other registries.
inductive Command where
  | describe (description : Description)
  | register (key : Key)
  | name (node : Node)
  | needs (node : Node)
  | mark (schedule : Schedule) (record : Bool) (roots : List Node)
  | list (nodes : List Node)
  | plan (schedule : Schedule) (record : Bool) (roots : List Node)

namespace Session

def compilation (session : Session) (bodies : Bodies) : Compilation := ⟨session.catalog, bodies⟩

def fresh (site : Site) : Session := ⟨{}, { registry := .empty site }⟩

def perform (bodies : Bodies) (session : Session) : Command → Session
  | .describe description => { session with catalog := session.catalog.describe description }
  | .register key =>
      { session with workspace := (session.workspace.register session.catalog key).2 }
  | .name node => { session with workspace := (session.workspace.name session.catalog node).2 }
  | .needs node =>
      { session with workspace := (session.workspace.needs (session.compilation bodies) node).2 }
  | .mark schedule record roots =>
      { session with
        workspace := (session.workspace.markBy (session.compilation bodies) schedule record roots).2 }
  | .list nodes =>
      { session with
        workspace.names := (SymbolTable.ofNodes session.workspace.names session.catalog nodes).2 }
  | .plan schedule record roots =>
      { session with
        workspace := (session.workspace.planBy (session.compilation bodies) schedule record roots).2 }

def after (bodies : Bodies) (site : Site) (history : List Command) : Session :=
  history.foldl (perform bodies) (fresh site)

theorem perform_all_induction (bodies : Bodies) (keeps : Session → Prop)
    (step : ∀ session command, keeps session → keeps (perform bodies session command)) (session : Session)
    (commands : List Command) (now : keeps session) : keeps (commands.foldl (perform bodies) session) := by
  induction commands generalizing session with
  | nil => exact now
  | cons command rest ih => exact ih _ (step session command now)

theorem after_induction (bodies : Bodies) (keeps : Session → Prop)
    (step : ∀ session command, keeps session → keeps (perform bodies session command)) (site : Site)
    (begin : keeps (fresh site)) (history : List Command) : keeps (after bodies site history) :=
  perform_all_induction bodies keeps step (fresh site) history begin

section Keeps

variable (bodies : Bodies) (keeps : Catalog → Workspace → Prop)
  (grow : ∀ a b workspace, a.Extends b → keeps a workspace → keeps b workspace)
  (register : ∀ catalog workspace key, keeps catalog workspace →
    keeps catalog (workspace.register catalog key).2)
  (needs : ∀ catalog workspace node, keeps catalog workspace →
    keeps catalog (workspace.needs ⟨catalog, bodies⟩ node).2)
  (naming : ∀ catalog workspace names, keeps catalog workspace →
    keeps catalog { workspace with names })

include grow register needs naming

theorem perform_keeps (session : Session) (command : Command)
    (now : keeps session.catalog session.workspace) :
    keeps (perform bodies session command).catalog (perform bodies session command).workspace := by
  cases command with
  | describe description => exact grow _ _ _ (session.catalog.describe_extends description) now
  | register key => exact register _ _ key now
  | name node => exact naming _ _ _ now
  | needs node => exact needs _ _ node now
  | mark schedule record roots =>
      exact Workspace.mark_by_keeps (session.compilation bodies) schedule (keeps session.catalog)
        (needs session.catalog) (register session.catalog) _ record roots now
  | list nodes => exact naming _ _ _ now
  | plan schedule record roots =>
      exact Workspace.plan_by_keeps (session.compilation bodies) schedule (keeps session.catalog)
        (needs session.catalog) (register session.catalog) (naming session.catalog) _ record roots now

theorem after_keeps (site : Site) (begin : keeps {} (fresh site).workspace) (history : List Command) :
    keeps (after bodies site history).catalog (after bodies site history).workspace :=
  after_induction bodies (fun session => keeps session.catalog session.workspace)
    (perform_keeps bodies keeps grow register needs naming) site begin history

end Keeps

theorem perform_sound (bodies : Bodies) (session : Session) (command : Command)
    (sound : session.catalog.Sound) : (perform bodies session command).catalog.Sound := by
  cases command with
  | describe description => exact session.catalog.describe_sound description sound
  | register | name | needs | mark | list | plan => exact sound

theorem after_sound (bodies : Bodies) (site : Site) (history : List Command) :
    (after bodies site history).catalog.Sound :=
  after_induction bodies (fun session => session.catalog.Sound) (perform_sound bodies) site
    Catalog.empty_sound history

theorem after_closed (bodies : Bodies) (site : Site) (history : List Command) :
    (after bodies site history).workspace.Closed (after bodies site history).catalog := by
  refine after_keeps bodies (fun catalog workspace => workspace.Closed catalog) ?_ ?_ ?_ ?_ site ?_ history
  · exact fun a b workspace grown closed => workspace.closed_extends a b grown closed
  · exact fun catalog workspace key closed => workspace.register_closed catalog key closed
  · exact fun catalog workspace node closed => workspace.needs_closed ⟨catalog, bodies⟩ node closed
  · exact fun _ _ _ closed => ⟨closed.admitted, closed.registered⟩
  · exact ⟨fun key held => (nomatch held.symm.trans (Registry.contains_empty site key)),
      fun _ _ filled => (nomatch filled)⟩

theorem after_faithful (bodies : Bodies) (steady : bodies.Steady) (site : Site) (history : List Command) :
    (after bodies site history).workspace.Faithful ((after bodies site history).compilation bodies) := by
  refine after_keeps bodies (fun catalog workspace => workspace.Faithful ⟨catalog, bodies⟩)
    ?_ ?_ ?_ ?_ site ?_ history
  · exact fun a b workspace grown faithful => workspace.faithful_extends ⟨a, bodies⟩ b grown faithful
  · exact fun _ _ _ faithful => faithful
  · exact fun catalog workspace node faithful =>
      workspace.needs_faithful ⟨catalog, bodies⟩ steady node faithful
  · exact fun _ _ _ faithful => faithful
  · exact fun _ _ filled => nomatch filled

end Session

end ArtifactGraph
