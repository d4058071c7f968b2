import ArtifactGraph.Proofs.Catalogs

set_option autoImplicit false

namespace ArtifactGraph

def TypeForm.WellFormed : TypeForm → Prop
  | .named _ name _ => name ≠ ""
  | .array _ rank => 1 ≤ rank
  | _ => True

theorem TypeForm.well_formed (form : TypeForm) (right : form.defect? = none) : form.WellFormed := by
  cases form with
  | named space name arguments =>
      intro empty
      simp [TypeForm.defect?, empty] at right
  | array element rank =>
      apply Nat.one_le_iff_ne_zero.mpr
      intro zero
      simp [TypeForm.defect?, zero] at right
  | vector | pointer | byRef | typeParameter | methodParameter => trivial

theorem MethodForm.named (form : MethodForm) (right : form.defect? = none) : form.name ≠ "" := by
  intro empty
  simp [MethodForm.defect?, empty] at right

namespace Catalog

structure Tabulated (catalog : Catalog) : Prop where
  typesInverse : catalog.types.Inverse
  methodsInverse : catalog.methods.Inverse
  typesHeld : ∀ id, catalog.hasType id = true ↔ id.position < catalog.types.size
  methodsHeld : ∀ id, catalog.hasMethod id = true ↔ id.position < catalog.methods.size
  typesAnswer : ∀ id, (∃ form, catalog.type? id = some form) ↔ catalog.hasType id = true
  methodsAnswer : ∀ id, (∃ form, catalog.method? id = some form) ↔ catalog.hasMethod id = true
  typesAgain : ∀ id form, catalog.type? id = some form → catalog.describeType form = (.ok id, catalog)
  methodsAgain : ∀ id form, catalog.method? id = some form →
    catalog.describeMethod form = (.ok id, catalog)
  typesGiven : ∀ form id, (catalog.describeType form).1 = .ok id →
    (catalog.describeType form).2.type? id = some form
  methodsGiven : ∀ form id, (catalog.describeMethod form).1 = .ok id →
    (catalog.describeMethod form).2.method? id = some form
  typesApart : ∀ a b form, catalog.type? a = some form → catalog.type? b = some form → a = b
  methodsApart : ∀ a b form, catalog.method? a = some form → catalog.method? b = some form → a = b
  partsEarlier : ∀ id form, catalog.type? id = some form → ∀ part ∈ form.parts, part.position < id.position
  partsHeld : ∀ id form, catalog.method? id = some form →
    ∀ part ∈ form.parts, catalog.hasType part = true
  typesFormed : ∀ id form, catalog.type? id = some form → form.WellFormed
  methodsNamed : ∀ id form, catalog.method? id = some form → form.name ≠ ""

theorem has_type_bound (catalog : Catalog) (sound : catalog.Sound) (id : TypeId) :
    catalog.hasType id = true ↔ id.position < catalog.types.size := by
  rw [catalog.has_type_iff sound id, type?, ← Option.isSome_iff_exists, Ledger.get_bound]

theorem has_method_bound (catalog : Catalog) (sound : catalog.Sound) (id : MethodId) :
    catalog.hasMethod id = true ↔ id.position < catalog.methods.size := by
  rw [catalog.has_method_iff sound id, method?, ← Option.isSome_iff_exists, Ledger.get_bound]

theorem describe_type_again (catalog : Catalog) (sound : catalog.Sound) (id : TypeId) (form : TypeForm)
    (stored : catalog.type? id = some form) : catalog.describeType form = (.ok id, catalog) := by
  have found := (sound.typesInverse form id.position).mpr stored
  simp only [describeType, found]

theorem describe_method_again (catalog : Catalog) (sound : catalog.Sound) (id : MethodId)
    (form : MethodForm) (stored : catalog.method? id = some form) :
    catalog.describeMethod form = (.ok id, catalog) := by
  have found := (sound.methodsInverse form id.position).mpr stored
  simp only [describeMethod, found]

theorem describe_type_given (catalog : Catalog) (sound : catalog.Sound) (form : TypeForm) (id : TypeId)
    (given : (catalog.describeType form).1 = .ok id) :
    (catalog.describeType form).2.type? id = some form := by
  rcases catalog.describe_type_cases form with ⟨position, found, result⟩ | ⟨_, _, _, result⟩ |
    ⟨_, _, _, result⟩ | ⟨_, _, _, result⟩ <;> rw [result] at given ⊢
  · rw [← Except.ok.inj given]
    exact (sound.typesInverse form position).mp found
  · exact nomatch given
  · exact nomatch given
  · rw [← Except.ok.inj given]
    exact catalog.types.get_push_here form

theorem describe_method_given (catalog : Catalog) (sound : catalog.Sound) (form : MethodForm) (id : MethodId)
    (given : (catalog.describeMethod form).1 = .ok id) :
    (catalog.describeMethod form).2.method? id = some form := by
  rcases catalog.describe_method_cases form with ⟨position, found, result⟩ | ⟨_, _, _, result⟩ |
    ⟨_, _, _, result⟩ | ⟨_, _, _, result⟩ <;> rw [result] at given ⊢
  · rw [← Except.ok.inj given]
    exact (sound.methodsInverse form position).mp found
  · exact nomatch given
  · exact nomatch given
  · rw [← Except.ok.inj given]
    exact catalog.methods.get_push_here form

theorem sound_tabulated (catalog : Catalog) (sound : catalog.Sound) : catalog.Tabulated where
  typesInverse := sound.typesInverse
  methodsInverse := sound.methodsInverse
  typesHeld := catalog.has_type_bound sound
  methodsHeld := catalog.has_method_bound sound
  typesAnswer id := (catalog.has_type_iff sound id).symm
  methodsAnswer id := (catalog.has_method_iff sound id).symm
  typesAgain := catalog.describe_type_again sound
  methodsAgain := catalog.describe_method_again sound
  typesGiven := catalog.describe_type_given sound
  methodsGiven := catalog.describe_method_given sound
  typesApart a b form left right := by
    have same := catalog.describe_type_again sound a form left
    rw [catalog.describe_type_again sound b form right] at same
    exact (Except.ok.inj (congrArg Prod.fst same)).symm
  methodsApart a b form left right := by
    have same := catalog.describe_method_again sound a form left
    rw [catalog.describe_method_again sound b form right] at same
    exact (Except.ok.inj (congrArg Prod.fst same)).symm
  partsEarlier id form stored := sound.earlier id.position form stored
  partsHeld id form stored := sound.described form (Ledger.get_mem _ _ _ stored)
  typesFormed id form stored := form.well_formed (sound.typesFormed form (Ledger.get_mem _ _ _ stored))
  methodsNamed id form stored := form.named (sound.methodsFormed form (Ledger.get_mem _ _ _ stored))

theorem history_extends (history later : List Description) :
    (ofHistory history).Extends (ofHistory (history ++ later)) := by
  suffices run : ∀ catalog : Catalog, catalog.Extends (later.foldl describe catalog) by
    simpa only [ofHistory, List.foldl_append] using run (ofHistory history)
  induction later with
  | nil => exact fun catalog => catalog.extends_refl
  | cons description rest ih =>
      intro catalog
      exact extends_trans _ _ _ (catalog.describe_extends description) (ih (catalog.describe description))

theorem handles_faithful (history : List Description) :
    (ofHistory history).Tabulated ∧ ∀ later,
      (∀ id form, (ofHistory history).type? id = some form →
        (ofHistory (history ++ later)).type? id = some form) ∧
      (∀ id form, (ofHistory history).method? id = some form →
        (ofHistory (history ++ later)).method? id = some form) := by
  refine ⟨sound_tabulated _ (history_sound history), fun later => ?_⟩
  have grown := history_extends history later
  exact ⟨extends_type _ _ grown, extends_method _ _ grown⟩

-- What was refused leaves no trace and may be described later.
example : ofHistory [.type (.pointer ⟨0⟩), .type (.named "A" "B" []), .type (.pointer ⟨0⟩),
    .type (.array ⟨0⟩ 0), .type (.named "A" "B" [])] =
    ⟨⟨⟨[(.pointer ⟨0⟩, 1), (.named "A" "B" [], 0)]⟩, [.named "A" "B" [], .pointer ⟨0⟩]⟩, {}⟩ := by decide

end Catalog

end ArtifactGraph
