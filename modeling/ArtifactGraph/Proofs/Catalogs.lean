import ArtifactGraph.Description.Catalog

set_option autoImplicit false

namespace ArtifactGraph

namespace Ledger

section Entries

variable {Entry : Type} (ledger : Ledger Entry) (position : Nat) (entry : Entry)

theorem get_mem (stored : ledger.get? position = some entry) : entry ∈ ledger.entries :=
  List.mem_of_getElem? stored

theorem get_size (stored : ledger.get? position = some entry) : position < ledger.size :=
  (ledger.get_bound position).mp (by simp [stored])

theorem get_of_size (bound : position < ledger.size) : ∃ entry, ledger.get? position = some entry :=
  Option.isSome_iff_exists.mp ((ledger.get_bound position).mpr bound)

theorem get_prefix (other : Ledger Entry) (grown : ledger.entries <+: other.entries)
    (stored : ledger.get? position = some entry) : other.get? position = some entry := by
  obtain ⟨more, same⟩ := grown
  rw [get?, ← same, List.getElem?_append_left (ledger.get_size position entry stored)]
  exact stored

end Entries

variable {Entry : Type} [DecidableEq Entry]

def Inverse (ledger : Ledger Entry) : Prop :=
  ∀ entry position, ledger.find? entry = some position ↔ ledger.get? position = some entry

theorem empty_inverse : ({} : Ledger Entry).Inverse := fun _ _ => ⟨nofun, nofun⟩

theorem Inverse.push {ledger : Ledger Entry} (inverse : ledger.Inverse) (entry : Entry)
    (fresh : ledger.find? entry = none) : (ledger.push entry).Inverse := by
  intro query position
  rw [find_push, get_push]
  by_cases same : query = entry
  · subst same
    have unstored : ledger.get? position ≠ some query := fun stored =>
      nomatch fresh.symm.trans ((inverse query position).mpr stored)
    simp [unstored, eq_comm]
  · simp [same, inverse query position]

theorem Inverse.injective {ledger : Ledger Entry} (inverse : ledger.Inverse) (a b : Nat) (entry : Entry)
    (left : ledger.get? a = some entry) (right : ledger.get? b = some entry) : a = b :=
  Option.some.inj (((inverse entry a).mpr left).symm.trans ((inverse entry b).mpr right))

theorem insert_cases (ledger : Ledger Entry) (entry : Entry) :
    (∃ position, ledger.find? entry = some position ∧ ledger.insert entry = (.ok position, ledger)) ∨
    (ledger.find? entry = none ∧ nullPosition ≤ ledger.size ∧
      ledger.insert entry = (.error ledger.size, ledger)) ∨
    (ledger.find? entry = none ∧ ledger.size < nullPosition ∧
      ledger.insert entry = (.ok ledger.size, ledger.push entry)) := by
  rw [insert]
  cases found : ledger.find? entry with
  | some position => exact .inl ⟨position, rfl, rfl⟩
  | none =>
      by_cases room : ledger.size < nullPosition
      · exact .inr (.inr ⟨rfl, room, if_pos room⟩)
      · exact .inr (.inl ⟨rfl, Nat.le_of_not_lt room, if_neg room⟩)

end Ledger

inductive Description where
  | type (form : TypeForm)
  | method (form : MethodForm)

namespace Catalog

def describe (catalog : Catalog) : Description → Catalog
  | .type form => (catalog.describeType form).2
  | .method form => (catalog.describeMethod form).2

def ofHistory (history : List Description) : Catalog := history.foldl describe {}

structure Extends (a b : Catalog) : Prop where
  types : a.types.entries <+: b.types.entries
  methods : a.methods.entries <+: b.methods.entries

theorem extends_refl (catalog : Catalog) : catalog.Extends catalog :=
  ⟨List.prefix_refl _, List.prefix_refl _⟩

theorem extends_trans (a b c : Catalog) (first : a.Extends b) (second : b.Extends c) : a.Extends c :=
  ⟨first.types.trans second.types, first.methods.trans second.methods⟩

theorem extends_type (a b : Catalog) (grown : a.Extends b) (id : TypeId) (form : TypeForm)
    (stored : a.type? id = some form) : b.type? id = some form :=
  Ledger.get_prefix _ _ _ _ grown.types stored

theorem extends_method (a b : Catalog) (grown : a.Extends b) (id : MethodId) (form : MethodForm)
    (stored : a.method? id = some form) : b.method? id = some form :=
  Ledger.get_prefix _ _ _ _ grown.methods stored

theorem extends_has_type (a b : Catalog) (grown : a.Extends b) (id : TypeId)
    (held : a.hasType id = true) : b.hasType id = true := by
  have longer : a.types.size ≤ b.types.size := grown.types.length_le
  simp only [hasType, Bool.and_eq_true, decide_eq_true_eq] at held ⊢
  exact ⟨held.1, by omega⟩

theorem extends_has_method (a b : Catalog) (grown : a.Extends b) (id : MethodId)
    (held : a.hasMethod id = true) : b.hasMethod id = true := by
  have longer : a.methods.size ≤ b.methods.size := grown.methods.length_le
  simp only [hasMethod, Bool.and_eq_true, decide_eq_true_eq] at held ⊢
  exact ⟨held.1, by omega⟩

theorem describe_type_cases (catalog : Catalog) (form : TypeForm) :
    (∃ position, catalog.types.find? form = some position ∧
      catalog.describeType form = (.ok ⟨position⟩, catalog)) ∨
    (∃ error, catalog.types.find? form = none ∧ catalog.typeError? form = some error ∧
      catalog.describeType form = (.error error, catalog)) ∨
    (catalog.types.find? form = none ∧ catalog.typeError? form = none ∧
      nullPosition ≤ catalog.types.size ∧
      catalog.describeType form = (.error (.full catalog.types.size), catalog)) ∨
    (catalog.types.find? form = none ∧ catalog.typeError? form = none ∧
      catalog.types.size < nullPosition ∧
      catalog.describeType form =
        (.ok ⟨catalog.types.size⟩, { catalog with types := catalog.types.push form })) := by
  rw [describeType]
  cases known : catalog.types.find? form with
  | some position => exact .inl ⟨position, rfl, rfl⟩
  | none =>
      cases wrong : catalog.typeError? form with
      | some error => exact .inr (.inl ⟨error, rfl, rfl, rfl⟩)
      | none =>
          rcases catalog.types.insert_cases form with ⟨_, found, _⟩ | ⟨_, full, result⟩ | ⟨_, room, result⟩
          · exact nomatch known.symm.trans found
          · exact .inr (.inr (.inl ⟨rfl, rfl, full, by rw [result]⟩))
          · exact .inr (.inr (.inr ⟨rfl, rfl, room, by rw [result]⟩))

theorem describe_method_cases (catalog : Catalog) (form : MethodForm) :
    (∃ position, catalog.methods.find? form = some position ∧
      catalog.describeMethod form = (.ok ⟨position⟩, catalog)) ∨
    (∃ error, catalog.methods.find? form = none ∧ catalog.methodError? form = some error ∧
      catalog.describeMethod form = (.error error, catalog)) ∨
    (catalog.methods.find? form = none ∧ catalog.methodError? form = none ∧
      nullPosition ≤ catalog.methods.size ∧
      catalog.describeMethod form = (.error (.full catalog.methods.size), catalog)) ∨
    (catalog.methods.find? form = none ∧ catalog.methodError? form = none ∧
      catalog.methods.size < nullPosition ∧
      catalog.describeMethod form =
        (.ok ⟨catalog.methods.size⟩, { catalog with methods := catalog.methods.push form })) := by
  rw [describeMethod]
  cases known : catalog.methods.find? form with
  | some position => exact .inl ⟨position, rfl, rfl⟩
  | none =>
      cases wrong : catalog.methodError? form with
      | some error => exact .inr (.inl ⟨error, rfl, rfl, rfl⟩)
      | none =>
          rcases catalog.methods.insert_cases form with ⟨_, found, _⟩ | ⟨_, full, result⟩ | ⟨_, room, result⟩
          · exact nomatch known.symm.trans found
          · exact .inr (.inr (.inl ⟨rfl, rfl, full, by rw [result]⟩))
          · exact .inr (.inr (.inr ⟨rfl, rfl, room, by rw [result]⟩))

theorem describe_extends (catalog : Catalog) (description : Description) :
    catalog.Extends (catalog.describe description) := by
  cases description with
  | type form =>
      rcases catalog.describe_type_cases form with ⟨_, _, result⟩ | ⟨_, _, _, result⟩ |
        ⟨_, _, _, result⟩ | ⟨_, _, _, result⟩ <;>
        simp only [describe, result, extends_refl]
      exact ⟨List.prefix_append _ _, List.prefix_refl _⟩
  | method form =>
      rcases catalog.describe_method_cases form with ⟨_, _, result⟩ | ⟨_, _, _, result⟩ |
        ⟨_, _, _, result⟩ | ⟨_, _, _, result⟩ <;>
        simp only [describe, result, extends_refl]
      exact ⟨List.prefix_refl _, List.prefix_append _ _⟩

-- The parts of a type are earlier than the type, so no type is a part of itself.
structure Sound (catalog : Catalog) : Prop where
  typesInverse : catalog.types.Inverse
  methodsInverse : catalog.methods.Inverse
  typesFit : catalog.types.size ≤ nullPosition
  methodsFit : catalog.methods.size ≤ nullPosition
  typesFormed : ∀ form ∈ catalog.types.entries, form.defect? = none
  methodsFormed : ∀ form ∈ catalog.methods.entries, form.defect? = none
  earlier : ∀ position form, catalog.types.get? position = some form →
    ∀ part ∈ form.parts, part.position < position
  described : ∀ form ∈ catalog.methods.entries, ∀ part ∈ form.parts, catalog.hasType part = true

theorem has_type_iff (catalog : Catalog) (sound : catalog.Sound) (id : TypeId) :
    catalog.hasType id = true ↔ ∃ form, catalog.type? id = some form := by
  have fit := sound.typesFit
  rw [← Option.isSome_iff_exists, type?, Ledger.get_bound]
  simp only [hasType, TypeId.isValid, Bool.and_eq_true, bne_iff_ne, decide_eq_true_eq]
  omega

theorem has_method_iff (catalog : Catalog) (sound : catalog.Sound) (id : MethodId) :
    catalog.hasMethod id = true ↔ ∃ form, catalog.method? id = some form := by
  have fit := sound.methodsFit
  rw [← Option.isSome_iff_exists, method?, Ledger.get_bound]
  simp only [hasMethod, MethodId.isValid, Bool.and_eq_true, bne_iff_ne, decide_eq_true_eq]
  omega

theorem type_missing (catalog : Catalog) (sound : catalog.Sound) (id : TypeId)
    (missing : catalog.hasType id = false) : catalog.type? id = none := by
  cases stored : catalog.type? id with
  | none => rfl
  | some form => exact absurd ((catalog.has_type_iff sound id).mpr ⟨form, stored⟩) (by simp [missing])

theorem method_missing (catalog : Catalog) (sound : catalog.Sound) (id : MethodId)
    (missing : catalog.hasMethod id = false) : catalog.method? id = none := by
  cases stored : catalog.method? id with
  | none => rfl
  | some form => exact absurd ((catalog.has_method_iff sound id).mpr ⟨form, stored⟩) (by simp [missing])

theorem parts_held (catalog : Catalog) (parts : List TypeId) (known : catalog.unknownPart? parts = none) :
    ∀ part ∈ parts, catalog.hasType part = true := by
  simpa [unknownPart?] using known

theorem push_type_sound (catalog : Catalog) (form : TypeForm) (sound : catalog.Sound)
    (fresh : catalog.types.find? form = none) (right : catalog.typeError? form = none)
    (room : catalog.types.size < nullPosition) :
    Sound { catalog with types := catalog.types.push form } := by
  obtain ⟨formed, known⟩ := Option.or_eq_none_iff.mp right
  have held := catalog.parts_held form.parts known
  have grown : catalog.Extends { catalog with types := catalog.types.push form } :=
    ⟨List.prefix_append _ _, List.prefix_refl _⟩
  refine ⟨sound.typesInverse.push form fresh, sound.methodsInverse, ?_, sound.methodsFit, ?_, sound.methodsFormed,
    ?_, ?_⟩
  · rw [Ledger.size_push]
    exact room
  · intro other member
    rcases List.mem_append.mp member with old | new
    · exact sound.typesFormed other old
    · rw [List.mem_singleton.mp new]
      exact formed
  · intro position other stored part member
    rcases (catalog.types.get_push position form other).mp stored with ⟨rfl, rfl⟩ | old
    · have partHeld := held part member
      simp only [hasType, Bool.and_eq_true, decide_eq_true_eq] at partHeld
      exact partHeld.2
    · exact sound.earlier position other old part member
  · intro other member part partMember
    exact extends_has_type _ _ grown part (sound.described other member part partMember)

theorem push_method_sound (catalog : Catalog) (form : MethodForm) (sound : catalog.Sound)
    (fresh : catalog.methods.find? form = none) (right : catalog.methodError? form = none)
    (room : catalog.methods.size < nullPosition) :
    Sound { catalog with methods := catalog.methods.push form } := by
  obtain ⟨formed, known⟩ := Option.or_eq_none_iff.mp right
  have held := catalog.parts_held form.parts known
  refine ⟨sound.typesInverse, sound.methodsInverse.push form fresh, sound.typesFit, ?_, sound.typesFormed, ?_,
    sound.earlier, ?_⟩
  · rw [Ledger.size_push]
    exact room
  · intro other member
    rcases List.mem_append.mp member with old | new
    · exact sound.methodsFormed other old
    · rw [List.mem_singleton.mp new]
      exact formed
  · intro other member part partMember
    rcases List.mem_append.mp member with old | new
    · exact sound.described other old part partMember
    · rw [List.mem_singleton.mp new] at partMember
      exact held part partMember

theorem describe_sound (catalog : Catalog) (description : Description) (sound : catalog.Sound) :
    (catalog.describe description).Sound := by
  cases description with
  | type form =>
      rcases catalog.describe_type_cases form with ⟨_, _, result⟩ | ⟨_, _, _, result⟩ |
        ⟨_, _, _, result⟩ | ⟨fresh, right, room, result⟩
      · simpa only [describe, result] using sound
      · simpa only [describe, result] using sound
      · simpa only [describe, result] using sound
      · simpa only [describe, result] using catalog.push_type_sound form sound fresh right room
  | method form =>
      rcases catalog.describe_method_cases form with ⟨_, _, result⟩ | ⟨_, _, _, result⟩ |
        ⟨_, _, _, result⟩ | ⟨fresh, right, room, result⟩
      · simpa only [describe, result] using sound
      · simpa only [describe, result] using sound
      · simpa only [describe, result] using sound
      · simpa only [describe, result] using catalog.push_method_sound form sound fresh right room

theorem empty_sound : ({} : Catalog).Sound := by
  refine ⟨Ledger.empty_inverse, Ledger.empty_inverse, Nat.zero_le _, Nat.zero_le _, ?_, ?_, ?_, ?_⟩ <;>
    simp [Ledger.get?]

theorem history_sound (history : List Description) : (ofHistory history).Sound := by
  suffices run : ∀ catalog : Catalog, catalog.Sound → (history.foldl describe catalog).Sound from
    run {} empty_sound
  induction history with
  | nil => exact fun _ sound => sound
  | cons description rest ih => exact fun catalog sound => ih _ (catalog.describe_sound description sound)

end Catalog

end ArtifactGraph
