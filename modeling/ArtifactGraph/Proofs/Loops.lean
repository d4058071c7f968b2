import ArtifactGraph.Proofs.Canonicity
import ArtifactGraph.Proofs.Closure
import ArtifactGraph.Proofs.Faults

set_option autoImplicit false

namespace ArtifactGraph

theorem Catalog.admitted_bound (catalog : Catalog) (keys : List Key) (once : keys.Nodup)
    (admitted : ∀ key ∈ keys, catalog.Admits key) :
    keys.length ≤ 7 * (catalog.types.size + catalog.methods.size) := by
  rw [← catalog.candidates_length]
  exact once.length_le_of_subset fun key member => catalog.admitted_candidate key (admitted key member)

namespace Sweep

def turn (compilation : Compilation) (schedule : Schedule) (round : Nat) (sweep : Sweep) : Except Halt Sweep :=
  (schedule.batch round sweep.pending).1.foldlM (visit compilation)
    { sweep with pending := (schedule.batch round sweep.pending).2 }

-- The loop, with what each of its rounds takes, and how it ends.
inductive Loops (compilation : Compilation) (schedule : Schedule) :
    Nat → Sweep → List (List Node) → Except Halt Sweep → Prop where
  | idle (round : Nat) (sweep : Sweep) (drained : sweep.pending = []) :
      Loops compilation schedule round sweep [] (.ok sweep)
  | halt (round : Nat) (sweep : Sweep) (halt : Halt) (busy : sweep.pending ≠ [])
      (met : turn compilation schedule round sweep = .error halt) :
      Loops compilation schedule round sweep [(schedule.batch round sweep.pending).1] (.error halt)
  | next (round : Nat) (sweep next : Sweep) (batches : List (List Node)) (result : Except Halt Sweep)
      (busy : sweep.pending ≠ []) (worked : turn compilation schedule round sweep = .ok next)
      (rest : Loops compilation schedule (round + 1) next batches result) :
      Loops compilation schedule round sweep ((schedule.batch round sweep.pending).1 :: batches) result

section Loops

variable (compilation : Compilation) (schedule : Schedule)

theorem loops_unique (round : Nat) (sweep : Sweep) (batches others : List (List Node))
    (result another : Except Halt Sweep) (first : Loops compilation schedule round sweep batches result)
    (second : Loops compilation schedule round sweep others another) : others = batches ∧ another = result := by
  induction first generalizing others with
  | idle round sweep drained =>
      cases second with
      | idle => exact ⟨rfl, rfl⟩
      | halt _ _ _ busy => exact absurd drained busy
      | next _ _ _ _ _ busy => exact absurd drained busy
  | halt round sweep halt busy met =>
      cases second with
      | idle _ _ drained => exact absurd drained busy
      | halt _ _ _ _ again => exact ⟨rfl, again.symm.trans met⟩
      | next _ _ _ _ _ _ worked => cases met.symm.trans worked
  | next round sweep next batches result busy worked _ ih =>
      cases second with
      | idle _ _ drained => exact absurd drained busy
      | halt _ _ _ _ met => cases met.symm.trans worked
      | next _ _ _ _ _ _ again rest =>
          obtain rfl := Except.ok.inj (worked.symm.trans again)
          obtain ⟨rfl, rfl⟩ := ih _ rest
          exact ⟨rfl, rfl⟩

-- A budget that was enough is not to be seen in the loop.
theorem drain_loops (limit round : Nat) (sweep : Sweep)
    (enough : ∀ final, drain compilation schedule limit round sweep = .ok final → final.pending = []) :
    ∃ batches, Loops compilation schedule round sweep batches (drain compilation schedule limit round sweep) := by
  induction limit generalizing round sweep with
  | zero => exact ⟨[], .idle round sweep (enough sweep rfl)⟩
  | succ limit ih =>
      by_cases idle : sweep.pending = []
      · rw [drain_idle compilation schedule _ round sweep idle]
        exact ⟨[], .idle round sweep idle⟩
      · rw [drain_busy compilation schedule limit round sweep idle, ← turn] at enough ⊢
        cases worked : turn compilation schedule round sweep with
        | error halt => exact ⟨_, .halt round sweep halt idle worked⟩
        | ok next =>
            rw [worked] at enough
            obtain ⟨batches, loops⟩ := ih (round + 1) next enough
            exact ⟨_, .next round sweep next batches _ idle worked loops⟩

theorem run_loops (workspace : Workspace) (roots : List Node) :
    ∃ batches, Loops compilation schedule 0 (start workspace roots) batches (run compilation schedule workspace roots) :=
  drain_loops compilation schedule _ 0 (start workspace roots) (run_drained compilation schedule workspace roots)

theorem loops_visits (round : Nat) (sweep final : Sweep) (batches : List (List Node))
    (loops : Loops compilation schedule round sweep batches (.ok final)) :
    final.visits.map (·.node) = sweep.visits.map (·.node) ++ batches.flatten := by
  generalize ended : Except.ok final = result at loops
  induction loops with
  | idle round sweep drained =>
      obtain rfl := Except.ok.inj ended
      simp
  | halt => cases ended
  | next round sweep next batches result busy worked _ ih =>
      obtain ⟨made, taken, grown⟩ := round_visits compilation _ _ next worked
      rw [ih ended, grown, List.map_append, taken, List.flatten_cons, List.append_assoc]

theorem loops_marked (workspace : Workspace) (roots : List Node) (final : Sweep) (batches : List (List Node))
    (tally : Tally compilation workspace roots [] final) (drained : final.pending = [])
    (loops : Loops compilation schedule 0 (start workspace roots) batches (.ok final)) :
    batches.flatten.Perm final.marks.nodes := by
  have visited := loops_visits compilation schedule 0 (start workspace roots) final batches loops
  have order := tally_visited compilation workspace roots final tally drained
  rwa [visited] at order

theorem worklist_single (round : Nat) (sweep : Sweep) (batches : List (List Node)) (result : Except Halt Sweep)
    (loops : Loops compilation .worklist round sweep batches result) : batches.length = batches.flatten.length := by
  have single : ∀ (round : Nat) (pending : List Node), pending ≠ [] →
      (Schedule.worklist.batch round pending).1.length = 1 := by
    intro round pending busy
    cases pending with
    | nil => exact absurd rfl busy
    | cons node rest => rfl
  induction loops with
  | idle => rfl
  | halt round sweep halt busy met => simp [single round _ busy]
  | next round sweep next batches result busy worked _ ih =>
      rw [List.flatten_cons, List.length_append, single round _ busy, List.length_cons, ih, Nat.add_comm]

end Loops

end Sweep

namespace Session

theorem marking_ends (site : Site) (events : List Event) (bodies : Bodies) (schedule : Schedule)
    (roots : List Node) (known : (through site events).Holds roots) :
    let session := through site events
    let compilation := session.compilation bodies
    let begun := Sweep.start session.workspace roots
    let ended := Sweep.run compilation schedule session.workspace roots
    ∃ batches, Sweep.Loops compilation schedule 0 begun batches ended ∧
      (∀ others another, Sweep.Loops compilation schedule 0 begun others another →
        others = batches ∧ another = ended) ∧
      ∀ final, ended = .ok final →
        batches.flatten.Nodup ∧ (∀ node, node ∈ batches.flatten ↔ node ∈ final.marks.nodes) ∧
        (schedule = .worklist → batches.length = final.marks.size) ∧
        final.marks.size ≤ 7 * (session.catalog.types.size + session.catalog.methods.size) := by
  intro session compilation begun ended
  obtain ⟨batches, loops⟩ := Sweep.run_loops compilation schedule session.workspace roots
  refine ⟨batches, loops, fun others another => Sweep.loops_unique compilation schedule 0 begun batches others ended
    another loops, fun final done => ?_⟩
  have settled := Sweep.run_tally compilation schedule session.workspace roots
  change Sweep.Settles _ _ ended at settled
  rw [done] at settled
  obtain ⟨tally, drained⟩ := settled
  change Sweep.Loops compilation schedule 0 begun batches ended at loops
  rw [done] at loops
  have order := Sweep.loops_marked compilation schedule session.workspace roots final batches tally drained loops
  have admitted := Sweep.tally_admitted compilation session.workspace roots [] final tally
    (through_vetted site events).admitted known
  refine ⟨order.nodup_iff.mpr (final.marks.nodes_once tally.once), fun node => order.mem_iff, ?_, ?_⟩
  · rintro rfl
    have lengths := order.length_eq
    rw [← Sweep.worklist_single compilation 0 begun batches _ loops] at lengths
    simpa [Marks.nodes, Marks.size] using lengths
  · have bound := session.catalog.admitted_bound final.marks.keys tally.once admitted
    simpa [Marks.keys, Marks.size] using bound

theorem self_call_ends :
    let bodies : Bodies := ⟨fun read method =>
      (selfCalling.needs read method) ++ read.map fun _ => ⟨.stub .cast (.type ⟨0⟩), "cast"⟩⟩
    let events : List Event := selfCallingHistory.map (.call selfCalling) ++
      [.elsewhere {} {} [⟨0⟩, ⟨0⟩], .call bodies (.register (.stub .newArray (.type ⟨0⟩)))]
    let roots : List Node := [⟨0, .virtualUse ⟨0⟩⟩, ⟨0, .virtualUse ⟨0⟩⟩]
    let session := through (.sample 0) events
    let begun := Sweep.start session.workspace roots
    let ended := Sweep.run (session.compilation bodies) .worklist session.workspace roots
    session.Holds roots ∧
    ∃ batches final, Sweep.Loops (session.compilation bodies) .worklist 0 begun batches ended ∧ ended = .ok final ∧
      batches.flatten.Nodup ∧ (∀ node, node ∈ batches.flatten ↔ node ∈ final.marks.nodes) ∧
      batches.length = final.marks.size ∧ final.marks.size = 5 ∧
      final.marks.size ≤ 7 * (session.catalog.types.size + session.catalog.methods.size) := by
  intro bodies events roots session begun ended
  have known : session.Holds roots := by decide
  obtain ⟨batches, loops, _, counted⟩ := marking_ends (.sample 0) events bodies .worklist roots known
  obtain ⟨once, visited, turns, bound⟩ := counted _ rfl
  exact ⟨known, batches, _, loops, rfl, once, visited, turns rfl, rfl, bound⟩

end Session

end ArtifactGraph
