import ArtifactGraph.Proofs.Collisions
import ArtifactGraph.Proofs.Renumberings

set_option autoImplicit false

namespace ArtifactGraph

namespace Cells

theorem name_keeps_coherent (names : Cells String) (catalog : Catalog) (node : Node)
    (coherent : names.Coherent catalog) : (names.name catalog node).2.Coherent catalog := by
  rw [coherent_iff] at coherent ⊢
  intro other
  rw [name_keeps_called, coherent]

theorem name_all_keeps_coherent (names : Cells String) (catalog : Catalog) (nodes : List Node)
    (coherent : names.Coherent catalog) : (names.nameAll catalog nodes).2.Coherent catalog := by
  rw [coherent_iff] at coherent ⊢
  intro other
  rw [name_all_keeps_called, coherent]

theorem of_nodes_keeps_coherent (names : Cells String) (catalog : Catalog) (nodes : List Node)
    (coherent : names.Coherent catalog) : (SymbolTable.ofNodes names catalog nodes).2.Coherent catalog := by
  have kept := names.name_all_keeps_coherent catalog nodes coherent
  unfold SymbolTable.ofNodes
  cases all : names.nameAll catalog nodes with
  | mk answer after =>
      rw [all] at kept
      cases answer <;> exact kept

end Cells

namespace Workspace

theorem plan_by_keeps_coherent (workspace : Workspace) (compilation : Compilation) (schedule : Schedule)
    (record : Bool) (roots : List Node) (coherent : workspace.names.Coherent compilation.catalog) :
    (workspace.planBy compilation schedule record roots).2.names.Coherent compilation.catalog := by
  have names := workspace.mark_by_names compilation schedule record roots
  unfold planBy
  cases marked : workspace.markBy compilation schedule record roots with
  | mk answer after =>
      rw [marked] at names
      rw [← names] at coherent
      cases answer with
      | error fault => exact coherent
      | ok marking =>
          have kept := after.names.of_nodes_keeps_coherent compilation.catalog marking.marks.nodes coherent
          dsimp only
          split <;> rename_i listed <;> rw [listed] at kept <;> exact kept

end Workspace

namespace Session

theorem perform_coherent (bodies : Bodies) (session : Session) (command : Command)
    (sound : session.catalog.Sound) (coherent : session.workspace.names.Coherent session.catalog) :
    (perform bodies session command).workspace.names.Coherent (perform bodies session command).catalog := by
  cases command with
  | describe description =>
      intro node name found
      exact Catalog.extends_symbol _ _ (session.catalog.describe_extends description) sound
        (session.catalog.describe_sound description sound) node.key name (coherent node name found)
  | register key => exact coherent
  | name node => exact Cells.name_keeps_coherent _ _ node coherent
  | needs node =>
      simpa only [perform, session.workspace.needs_names] using coherent
  | mark schedule record roots =>
      simpa only [perform, session.workspace.mark_by_names] using coherent
  | list nodes => exact Cells.of_nodes_keeps_coherent _ _ nodes coherent
  | plan schedule record roots =>
      exact session.workspace.plan_by_keeps_coherent (session.compilation bodies) schedule record roots coherent

theorem after_coherent (bodies : Bodies) (site : Site) (history : List Command) :
    (after bodies site history).workspace.names.Coherent (after bodies site history).catalog := by
  refine (after_induction bodies
    (fun session => session.catalog.Sound ∧ session.workspace.names.Coherent session.catalog)
    (fun session command ⟨sound, coherent⟩ => ⟨?_, perform_coherent bodies session command sound coherent⟩)
    site ⟨Catalog.empty_sound, fun _ _ found => nomatch found⟩ history).2
  exact perform_sound bodies session command sound

end Session

structure Plan.Exact (plan : Plan) : Prop where
  once : plan.marks.keys.Nodup
  listed : (plan.table.entries.map Prod.snd).Perm plan.marks.keys
  size : plan.table.size = plan.marks.size

-- A plan that is asked for in a session. A plan that was made before with another
-- listing is a marking that was listed later.
structure Analysis where
  bodies : Bodies
  site : Site
  history : List Command
  schedule : Schedule
  record : Bool
  listing : Listing
  roots : List Node

namespace Analysis

def session (analysis : Analysis) : Session := .after analysis.bodies analysis.site analysis.history

def compilation (analysis : Analysis) : Compilation := analysis.session.compilation analysis.bodies

def marking (analysis : Analysis) : Except Fault Marking :=
  (analysis.session.workspace.markBy analysis.compilation analysis.schedule analysis.record
    analysis.roots).1

def result (analysis : Analysis) : Except Fault Plan :=
  (analysis.session.workspace.planListed analysis.compilation analysis.schedule analysis.record
    analysis.listing analysis.roots).1

def Reached (analysis : Analysis) : Key → Prop := analysis.compilation.Reaches (analysis.roots.map (·.key))

structure Proper (analysis : Analysis) : Prop where
  steady : analysis.bodies.Steady
  known : analysis.session.Holds analysis.roots

structure Alike (one another : Analysis) : Prop where
  catalogs : one.session.catalog = another.session.catalog
  roots : ∀ key, key ∈ one.roots.map (·.key) ↔ key ∈ another.roots.map (·.key)
  needs : ∀ method edge, edge ∈ one.bodies.needs [] method ↔ edge ∈ another.bodies.needs [] method

theorem alike_symm (one another : Analysis) (alike : one.Alike another) : another.Alike one where
  catalogs := alike.catalogs.symm
  roots key := (alike.roots key).symm
  needs method edge := (alike.needs method edge).symm

theorem alike_reached (one another : Analysis) (alike : one.Alike another) (key : Key)
    (reached : one.Reached key) : another.Reached key :=
  Compilation.reaches_alike one.compilation another.compilation alike.catalogs
    (fun method edge => (alike.needs method edge).mp) _ _ (fun key => (alike.roots key).mp) key reached

section Results

variable (analysis : Analysis) (proper : analysis.Proper)

include proper

theorem marking_keys (marking : Marking) (marked : analysis.marking = .ok marking) (key : Key) :
    key ∈ marking.marks.keys ↔ analysis.Reached key := by
  have closed := Session.after_closed analysis.bodies analysis.site analysis.history
  have faithful := Session.after_faithful analysis.bodies proper.steady analysis.site analysis.history
  obtain ⟨final, complete, rfl, _⟩ := Workspace.mark_by_complete _ analysis.compilation proper.steady
    _ _ _ closed faithful proper.known marking marked
  exact Sweep.complete_keys _ _ _ final complete key

theorem marking_done_iff :
    (∃ marking, analysis.marking = .ok marking) ↔
      ∀ key, analysis.Reached key → analysis.session.catalog.Admits key := by
  have closed := Session.after_closed analysis.bodies analysis.site analysis.history
  have faithful := Session.after_faithful analysis.bodies proper.steady analysis.site analysis.history
  exact (Workspace.mark_by_done_iff _ _ _ analysis.record _).trans
    (Sweep.run_done_iff analysis.compilation proper.steady analysis.schedule _ analysis.roots closed
      faithful proper.known)

theorem result_done_iff :
    (∃ plan, analysis.result = .ok plan) ↔
      (∀ key, analysis.Reached key → analysis.session.catalog.Admits key) ∧
      ∀ a b, analysis.Reached a → analysis.Reached b →
        analysis.session.catalog.symbol a = analysis.session.catalog.symbol b → a = b := by
  have closed := Session.after_closed analysis.bodies analysis.site analysis.history
  have sound := Session.after_sound analysis.bodies analysis.site analysis.history
  have coherent := Session.after_coherent analysis.bodies analysis.site analysis.history
  have planned := Workspace.plan_listed_done_iff _ analysis.compilation analysis.schedule analysis.record
    analysis.listing analysis.roots closed proper.known sound coherent
  have admitted := analysis.marking_done_iff proper
  have keys := analysis.marking_keys proper
  refine planned.trans ⟨?_, ?_⟩
  · intro ⟨marking, marked, apart⟩
    refine ⟨admitted.mp ⟨marking, marked⟩, fun a b left right shared => ?_⟩
    exact apart a ((keys marking marked a).mpr left) b ((keys marking marked b).mpr right) shared
  · intro ⟨welcome, apart⟩
    obtain ⟨marking, marked⟩ := admitted.mpr welcome
    refine ⟨marking, marked, fun a left b right shared => ?_⟩
    exact apart a b ((keys marking marked a).mp left) ((keys marking marked b).mp right) shared

theorem result_lists (plan : Plan) (done : analysis.result = .ok plan) :
    (∀ key, key ∈ plan.marks.keys ↔ analysis.Reached key) ∧ plan.marks.keys.Nodup ∧
      plan.table.Lists analysis.session.catalog plan.marks.keys := by
  have closed := Session.after_closed analysis.bodies analysis.site analysis.history
  have sound := Session.after_sound analysis.bodies analysis.site analysis.history
  have coherent := Session.after_coherent analysis.bodies analysis.site analysis.history
  have marked := ((Workspace.plan_listed_iff _ _ _ _ _ _ plan).mp done).1
  exact ⟨analysis.marking_keys proper _ marked,
    Workspace.plan_listed_lists _ analysis.compilation _ _ _ _ closed proper.known sound coherent plan done⟩

theorem result_exact (plan : Plan) (done : analysis.result = .ok plan) : plan.Exact := by
  obtain ⟨_, once, lists⟩ := analysis.result_lists proper plan done
  refine ⟨once, lists.each, ?_⟩
  have lengths := lists.each.length_eq
  simpa [SymbolTable.entries, SymbolTable.size, Marks.keys, Marks.size] using lengths

end Results

theorem analyses_agree (one another : Analysis) (left : one.Proper) (right : another.Proper)
    (alike : one.Alike another) :
    ((∃ plan, one.result = .ok plan) ↔ ∃ plan, another.result = .ok plan) ∧
    ∀ plan, one.result = .ok plan → plan.Exact ∧
      ∀ repeated, another.result = .ok repeated → plan.table.entries = repeated.table.entries := by
  have reached : ∀ key, one.Reached key ↔ another.Reached key := fun key =>
    ⟨alike_reached one another alike key, alike_reached another one (alike_symm one another alike) key⟩
  constructor
  · rw [one.result_done_iff left, another.result_done_iff right]
    simp only [reached, alike.catalogs]
  · intro plan done
    refine ⟨one.result_exact left plan done, fun repeated again => ?_⟩
    obtain ⟨marked, _, lists⟩ := one.result_lists left plan done
    obtain ⟨remarked, _, relists⟩ := another.result_lists right repeated again
    rw [← alike.catalogs] at relists
    have entries := SymbolTable.lists_correspond _ _ _ _ _ _ relists lists id
      (fun key => by rw [List.map_id, marked, remarked, reached]) fun _ _ => rfl
    simpa using entries

def selfCalling : Analysis where
  bodies := Session.selfCalling
  site := .sample 0
  history := Session.selfCallingHistory
  schedule := .worklist
  record := false
  listing := .made
  roots := [⟨0, .virtualUse ⟨0⟩⟩]

def callingSelf : Analysis where
  bodies := .ofList [(⟨0⟩, [⟨.stub .virtualCall (.method ⟨0⟩), "call"⟩,
    ⟨.stub .newObject (.type ⟨0⟩), "new"⟩, ⟨.stub .virtualCall (.method ⟨0⟩), "call"⟩])]
  site := .sample 3
  history := Session.selfCallingHistory ++ [.mark .rounds false [⟨3, .virtualUse ⟨8⟩⟩],
    .list [⟨3, .body ⟨0⟩⟩, ⟨3, .body ⟨5⟩⟩], .register (.body ⟨0⟩)]
  schedule := .frontier (fun _ pending => pending.reverse) fun _ _ => List.reverse_perm _
  record := true
  listing := ⟨fun marks => marks.nodes.reverse, fun _ => List.reverse_perm _⟩
  roots := [⟨3, .virtualUse ⟨0⟩⟩, ⟨3, .virtualUse ⟨0⟩⟩]

theorem calling_self_agrees :
    selfCalling.Proper ∧ callingSelf.Proper ∧ selfCalling.Alike callingSelf ∧
    ∃ plan repeated, selfCalling.result = .ok plan ∧ callingSelf.result = .ok repeated ∧
      plan.marks.keys ≠ repeated.marks.keys ∧ plan.Exact ∧ plan.table.entries = repeated.table.entries := by
  have left : selfCalling.Proper := ⟨Bodies.of_list_steady _, by decide⟩
  have right : callingSelf.Proper := ⟨Bodies.of_list_steady _, by decide⟩
  have alike : selfCalling.Alike callingSelf := by
    refine ⟨rfl, fun key => by simp [selfCalling, callingSelf], fun method edge => ?_⟩
    by_cases first : method = ⟨0⟩
    · simp [selfCalling, callingSelf, Session.selfCalling, Bodies.ofList, first, or_comm]
    · have miss : (method == ⟨0⟩) = false := beq_false_of_ne first
      simp [selfCalling, callingSelf, Session.selfCalling, Bodies.ofList, miss, List.lookup_cons]
  have apart := Catalog.single_apart selfCalling.session.catalog (Nat.le_refl 1)
  have planned := Workspace.plan_listed_marked_iff _ selfCalling.compilation selfCalling.schedule
    selfCalling.record selfCalling.listing selfCalling.roots (Session.after_closed _ _ _) left.known
    (Session.after_sound _ _ _) (Session.after_coherent _ _ _) apart
  obtain ⟨plan, done⟩ := planned.mpr ⟨_, rfl⟩
  obtain ⟨agreed, same⟩ := analyses_agree selfCalling callingSelf left right alike
  obtain ⟨repeated, again⟩ := agreed.mp ⟨plan, done⟩
  obtain ⟨exactly, entries⟩ := same plan done
  refine ⟨left, right, alike, plan, repeated, done, again, ?_, exactly, entries repeated again⟩
  let keys (answer : Except Fault Marking) := answer.toOption.map fun marking => marking.marks.keys
  have first := congrArg keys ((Workspace.plan_listed_iff _ _ _ _ _ _ plan).mp done).1
  have second := congrArg keys ((Workspace.plan_listed_iff _ _ _ _ _ _ repeated).mp again).1
  have straight : plan.marks.keys = [.virtualUse ⟨0⟩, .body ⟨0⟩, .stub .newObject (.type ⟨0⟩),
    .stub .virtualCall (.method ⟨0⟩)] := Option.some.inj first.symm
  have turned : repeated.marks.keys = [.virtualUse ⟨0⟩, .body ⟨0⟩, .stub .virtualCall (.method ⟨0⟩),
    .stub .newObject (.type ⟨0⟩)] := Option.some.inj second.symm
  rw [straight, turned]
  decide

end Analysis

end ArtifactGraph
