import ArtifactGraph.Proofs.Sweeps

set_option autoImplicit false

namespace ArtifactGraph

def Fault.Early (fault : Fault) : Prop :=
  ∀ symbol one another, fault ≠ .collision symbol one another

theorem Fault.misfit_early (kind : Kind) (expected found : PayloadShape) :
    (Fault.misfit kind expected found).Early :=
  fun _ _ _ same => nomatch same

theorem Fault.unknown_early (kind : Kind) (payload : Payload) : (Fault.unknownPayload kind payload).Early :=
  fun _ _ _ same => nomatch same

theorem Fault.undescribed_early (handle : Handle) : (Fault.undescribed handle).Early :=
  fun _ _ _ same => nomatch same

theorem Key.check_fit_early (key : Key) (fault : Fault) (refused : key.checkFit = .error fault) :
    fault.Early := by
  unfold Key.checkFit at refused
  split at refused
  · exact nomatch refused
  · exact Except.error.inj refused ▸ Fault.misfit_early _ _ _

theorem Catalog.check_key_early (catalog : Catalog) (key : Key) (fault : Fault)
    (refused : catalog.checkKey key = .error fault) : fault.Early := by
  unfold Catalog.checkKey at refused
  cases fits : key.checkFit with
  | error other =>
      rw [fits] at refused
      exact Except.error.inj refused ▸ key.check_fit_early other fits
  | ok done =>
      rw [fits] at refused
      change (if catalog.hasPayload key.payload = true then _ else _) = _ at refused
      split at refused
      · exact nomatch refused
      · exact Except.error.inj refused ▸ Fault.unknown_early _ _

theorem Registry.register_early (registry : Registry) (catalog : Catalog) (key : Key) (fault : Fault)
    (refused : (registry.register catalog key).1 = .error fault) : fault.Early := by
  rcases registry.register_cases catalog key with
    ⟨_, result⟩ | ⟨_, _, result⟩ | ⟨_, _, other, checked, result⟩ <;> rw [result] at refused
  · exact nomatch refused
  · exact nomatch refused
  · exact Except.error.inj refused ▸ catalog.check_key_early key other checked

theorem Registry.register_all_early (registry : Registry) (catalog : Catalog) (keys : List Key)
    (fault : Fault) (refused : (registry.registerAll catalog keys).1 = .error fault) : fault.Early := by
  induction keys generalizing registry with
  | nil => exact nomatch refused
  | cons key rest ih =>
      rcases registry.register_all_cons catalog key rest with ⟨other, first, result⟩ | ⟨_, _, result⟩ <;>
        rw [result] at refused
      · exact Except.error.inj refused ▸ registry.register_early catalog key other first
      · exact ih _ refused

theorem Compilation.needs_early (compilation : Compilation) (history : List MethodId) (key : Key)
    (fault : Fault) (refused : compilation.needs history key = .error fault) : fault.Early := by
  cases key with
  | body method => simp [needs] at refused
  | virtualUse method =>
      cases known : compilation.catalog.traits? method with
      | some traits => simp [needs, known] at refused
      | none =>
          simp only [needs, known, Except.error.injEq] at refused
          exact refused ▸ Fault.undescribed_early _
  | stub made payload =>
      cases fits : (Key.stub made payload).checkFit with
      | ok done =>
          cases made <;> cases payload <;>
            simp only [needs, fits, bind, Except.bind, pure, Except.pure, reduceCtorEq] at refused
      | error other =>
          have early := (Key.stub made payload).check_fit_early other fits
          cases made <;> cases payload <;>
            simp only [needs, fits, bind, Except.bind, reduceCtorEq, Except.error.injEq] at refused <;>
            exact refused ▸ early

theorem Workspace.needs_early (workspace : Workspace) (compilation : Compilation) (node : Node)
    (fault : Fault) (refused : (workspace.needs compilation node).1 = .error fault) : fault.Early := by
  rcases workspace.needs_cases compilation node with
    ⟨_, _, result⟩ | ⟨_, other, ruled, result⟩ | ⟨_, _, _, other, asked, result⟩ | ⟨_, _, _, _, result⟩ <;>
    rw [result] at refused
  · exact nomatch refused
  · exact Except.error.inj refused ▸ compilation.needs_early _ _ other ruled
  · exact Except.error.inj refused ▸ workspace.registry.register_all_early _ _ other asked
  · exact nomatch refused

theorem Sweep.visit_early (compilation : Compilation) (sweep : Sweep) (node : Node) :
    Settles (fun _ => True) (fun halt => halt.fault.Early) (sweep.visit compilation node) := by
  rcases visit_cases compilation sweep node with ⟨fault, refused, result⟩ | ⟨edges, _, result⟩ <;> rw [result]
  · exact sweep.workspace.needs_early compilation node fault refused
  · refine follow_all_settles compilation node _ _ (fun sweep edge _ => ?_) edges _ trivial
    rcases follow_cases compilation node sweep edge with
      ⟨_, answer⟩ | ⟨_, ⟨fault, refused, answer⟩ | ⟨_, _, answer⟩⟩ <;> rw [answer]
    · trivial
    · exact sweep.workspace.registry.register_early _ _ fault refused
    · trivial

theorem Sweep.run_tally (compilation : Compilation) (schedule : Schedule) (workspace : Workspace)
    (roots : List Node) :
    Settles (fun final => Tally compilation workspace roots [] final ∧ final.pending = [])
      (fun halt => halt.fault.Early) (run compilation schedule workspace roots) := by
  have settled := run_settles_marked compilation schedule workspace roots (fun _ => True)
    (fun halt => halt.fault.Early) trivial (fun _ _ _ => trivial)
    (fun node sweep _ _ => visit_early compilation sweep node)
  exact settles_imp _ _ _ _ settled fun _ final => final.2

end ArtifactGraph
