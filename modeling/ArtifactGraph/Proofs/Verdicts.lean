import ArtifactGraph.Artifact.Fault
import ArtifactGraph.Proofs.Handles

set_option autoImplicit false

namespace ArtifactGraph

namespace Description

def parts : Description → List TypeId
  | .type form => form.parts
  | .method form => form.parts

def WellFormed : Description → Prop
  | .type form => form.WellFormed
  | .method form => form.name ≠ ""

inductive Flawed : Description → CatalogError → Prop where
  | unnamedType (space : String) (arguments : List TypeId) :
      Flawed (.type (.named space "" arguments)) .unnamed
  | flatArray (element : TypeId) : Flawed (.type (.array element 0)) (.badRank 0)
  | unnamedMethod (form : MethodForm) (empty : form.name = "") : Flawed (.method form) .unnamed

def defect? : Description → Option CatalogError
  | .type form => form.defect?
  | .method form => form.defect?

theorem flawed_defect (description : Description) (error : CatalogError)
    (flawed : description.Flawed error) : description.defect? = some error := by
  cases flawed with
  | unnamedType | flatArray => rfl
  | unnamedMethod form empty => simp [defect?, MethodForm.defect?, empty]

theorem well_formed_iff (description : Description) :
    description.WellFormed ↔ description.defect? = none := by
  cases description with
  | type form =>
      cases form <;> simp [WellFormed, TypeForm.WellFormed, defect?, TypeForm.defect?, Nat.one_le_iff_ne_zero]
  | method form => simp [WellFormed, defect?, MethodForm.defect?]

end Description

namespace Catalog

def answer (catalog : Catalog) : Description → Except CatalogError Handle
  | .type form => (catalog.describeType form).1.map .type
  | .method form => (catalog.describeMethod form).1.map .method

def Holds (catalog : Catalog) : Handle → Description → Prop
  | .type id, .type form => catalog.type? id = some form
  | .method id, .method form => catalog.method? id = some form
  | _, _ => False

def has (catalog : Catalog) : Handle → Bool
  | .type id => catalog.hasType id
  | .method id => catalog.hasMethod id

def count (catalog : Catalog) : Description → Nat
  | .type _ => catalog.types.size
  | .method _ => catalog.methods.size

def next (catalog : Catalog) : Description → Handle
  | .type _ => .type ⟨catalog.types.size⟩
  | .method _ => .method ⟨catalog.methods.size⟩

def append (catalog : Catalog) : Description → Catalog
  | .type form => { catalog with types := catalog.types.push form }
  | .method form => { catalog with methods := catalog.methods.push form }

def error? (catalog : Catalog) (description : Description) : Option CatalogError :=
  description.defect?.or (catalog.unknownPart? description.parts)

theorem holds_known (catalog : Catalog) (sound : catalog.Sound) (handle : Handle)
    (description : Description) (held : catalog.Holds handle description) :
    catalog.answer description = .ok handle ∧ catalog.describe description = catalog := by
  cases handle <;> cases description
  case type.type id form =>
      rw [answer, describe, catalog.describe_type_again sound id form held]
      exact ⟨rfl, rfl⟩
  case method.method id form =>
      rw [answer, describe, catalog.describe_method_again sound id form held]
      exact ⟨rfl, rfl⟩
  all_goals exact absurd held not_false

-- What is held was checked when it came in, and no check that passed fails later.
theorem holds_right (catalog : Catalog) (sound : catalog.Sound) (handle : Handle)
    (description : Description) (held : catalog.Holds handle description) :
    description.WellFormed ∧ ∀ part ∈ description.parts, catalog.hasType part = true := by
  rw [description.well_formed_iff]
  cases handle <;> cases description
  case type.type id form =>
      refine ⟨sound.typesFormed form (Ledger.get_mem _ _ _ held), fun part member => ?_⟩
      have before := sound.earlier id.position form held part member
      exact (catalog.has_type_bound sound part).mpr (Nat.lt_trans before (Ledger.get_size _ _ _ held))
  case method.method id form =>
      have member := Ledger.get_mem _ _ _ held
      exact ⟨sound.methodsFormed form member, sound.described form member⟩
  all_goals exact absurd held not_false

theorem error_none_iff (catalog : Catalog) (description : Description) :
    catalog.error? description = none ↔
      description.WellFormed ∧ ∀ part ∈ description.parts, catalog.hasType part = true := by
  rw [error?, Option.or_eq_none_iff, description.well_formed_iff]
  simp [unknownPart?]

theorem first_unknown (catalog : Catalog) (before after : List TypeId) (part : TypeId)
    (held : ∀ earlier ∈ before, catalog.hasType earlier = true) (missing : catalog.hasType part = false) :
    catalog.unknownPart? (before ++ part :: after) = some (.unknownPart part) := by
  have skipped : before.find? (fun id => !catalog.hasType id) = none :=
    List.find?_eq_none.mpr fun earlier member => by simp [held earlier member]
  rw [unknownPart?, List.find?_append, skipped, Option.none_or, List.find?_cons_of_pos (by simp [missing])]
  rfl

structure Added (before : Catalog) (description : Description) (handle : Handle) (after : Catalog) : Prop where
  placed : handle = before.next description
  appended : after = before.append description
  counted : after.count description = before.count description + 1
  contained : after.has handle = true
  holds : ∀ other form, after.Holds other form ↔
    (other = handle ∧ form = description) ∨ before.Holds other form

theorem append_holds (catalog : Catalog) (description form : Description) (handle : Handle) :
    (catalog.append description).Holds handle form ↔
      (handle = catalog.next description ∧ form = description) ∨ catalog.Holds handle form := by
  cases description <;> cases handle <;> cases form
  case type.type.type new id old =>
      obtain ⟨position⟩ := id
      simpa [append, Holds, next, type?] using catalog.types.get_push position new old
  case method.method.method new id old =>
      obtain ⟨position⟩ := id
      simpa [append, Holds, next, method?] using catalog.methods.get_push position new old
  all_goals simp [append, Holds, next, type?, method?]

theorem append_added (catalog : Catalog) (description : Description)
    (room : catalog.count description < nullPosition) :
    catalog.Added description (catalog.next description) (catalog.append description) where
  placed := rfl
  appended := rfl
  counted := by
    cases description with
    | type form => exact catalog.types.size_push form
    | method form => exact catalog.methods.size_push form
  contained := by
    cases description with
    | type form =>
        have fresh : catalog.types.size ≠ nullPosition := Nat.ne_of_lt room
        simp [append, next, has, hasType, TypeId.isValid, fresh, Ledger.size_push]
    | method form =>
        have fresh : catalog.methods.size ≠ nullPosition := Nat.ne_of_lt room
        simp [append, next, has, hasMethod, MethodId.isValid, fresh, Ledger.size_push]
  holds other form := catalog.append_holds description form other

structure Judges (catalog : Catalog) (description : Description) : Prop where
  accepted : catalog.count description < nullPosition →
    ((∃ handle, catalog.answer description = .ok handle) ↔
      description.WellFormed ∧ ∀ part ∈ description.parts, catalog.hasType part = true)
  flawed : ∀ error, description.Flawed error → catalog.answer description = .error error
  unknown : description.WellFormed → ∀ before part after, description.parts = before ++ part :: after →
    (∀ earlier ∈ before, catalog.hasType earlier = true) → catalog.hasType part = false →
    catalog.answer description = .error (.unknownPart part)
  refused : ∀ error, catalog.answer description = .error error → catalog.describe description = catalog
  known : ∀ handle, catalog.Holds handle description →
    catalog.answer description = .ok handle ∧ catalog.describe description = catalog
  added : (∀ handle, ¬ catalog.Holds handle description) →
    ∀ handle, catalog.answer description = .ok handle →
      catalog.Added description handle (catalog.describe description)
  full : nullPosition ≤ catalog.count description → (∀ handle, ¬ catalog.Holds handle description) →
    description.WellFormed → (∀ part ∈ description.parts, catalog.hasType part = true) →
    catalog.answer description = .error (.full (catalog.count description))

section Sound

variable (catalog : Catalog) (sound : catalog.Sound) (description : Description)

include sound

theorem describe_cases :
    (∃ handle, catalog.Holds handle description) ∨
    (∃ error, catalog.error? description = some error ∧
      catalog.answer description = .error error ∧ catalog.describe description = catalog) ∨
    (catalog.error? description = none ∧ nullPosition ≤ catalog.count description ∧
      catalog.answer description = .error (.full (catalog.count description)) ∧
      catalog.describe description = catalog) ∨
    (catalog.error? description = none ∧ catalog.count description < nullPosition ∧
      catalog.answer description = .ok (catalog.next description) ∧
      catalog.describe description = catalog.append description) := by
  cases description with
  | type form =>
      simp only [answer, describe]
      rcases catalog.describe_type_cases form with ⟨position, found, _⟩ | ⟨error, _, wrong, result⟩ |
        ⟨_, right, room, result⟩ | ⟨_, right, room, result⟩
      · exact .inl ⟨.type ⟨position⟩, (sound.typesInverse form position).mp found⟩
      · exact .inr (.inl ⟨error, wrong, by rw [result]; rfl, by rw [result]⟩)
      · exact .inr (.inr (.inl ⟨right, room, by rw [result]; rfl, by rw [result]⟩))
      · exact .inr (.inr (.inr ⟨right, room, by rw [result]; rfl, by rw [result]; rfl⟩))
  | method form =>
      simp only [answer, describe]
      rcases catalog.describe_method_cases form with ⟨position, found, _⟩ | ⟨error, _, wrong, result⟩ |
        ⟨_, right, room, result⟩ | ⟨_, right, room, result⟩
      · exact .inl ⟨.method ⟨position⟩, (sound.methodsInverse form position).mp found⟩
      · exact .inr (.inl ⟨error, wrong, by rw [result]; rfl, by rw [result]⟩)
      · exact .inr (.inr (.inl ⟨right, room, by rw [result]; rfl, by rw [result]⟩))
      · exact .inr (.inr (.inr ⟨right, room, by rw [result]; rfl, by rw [result]; rfl⟩))

theorem error_answer (error : CatalogError) (wrong : catalog.error? description = some error) :
    catalog.answer description = .error error := by
  rcases describe_cases catalog sound description with ⟨handle, held⟩ | ⟨other, found, result, _⟩ |
    ⟨right, _⟩ | ⟨right, _⟩
  · have right := (catalog.error_none_iff description).mpr (catalog.holds_right sound handle description held)
    exact nomatch right.symm.trans wrong
  · rw [result, Option.some.inj (found.symm.trans wrong)]
  · exact nomatch right.symm.trans wrong
  · exact nomatch right.symm.trans wrong

theorem answer_ok_iff (room : catalog.count description < nullPosition) :
    (∃ handle, catalog.answer description = .ok handle) ↔ catalog.error? description = none := by
  rcases describe_cases catalog sound description with ⟨handle, held⟩ | ⟨error, wrong, result, _⟩ |
    ⟨_, full, _⟩ | ⟨right, _, result, _⟩
  · have right := (catalog.error_none_iff description).mpr (catalog.holds_right sound handle description held)
    exact iff_of_true ⟨handle, (catalog.holds_known sound handle description held).1⟩ right
  · simp [wrong, result]
  · omega
  · exact iff_of_true ⟨_, result⟩ right

theorem sound_judges : catalog.Judges description where
  accepted room := (answer_ok_iff catalog sound description room).trans (catalog.error_none_iff description)
  flawed error flawed := by
    apply error_answer catalog sound description error
    rw [error?, description.flawed_defect error flawed, Option.some_or]
  unknown formed before part after split held missing := by
    apply error_answer catalog sound description (.unknownPart part)
    rw [error?, description.well_formed_iff.mp formed, Option.none_or, split]
    exact catalog.first_unknown before after part held missing
  refused error answered := by
    rcases describe_cases catalog sound description with ⟨handle, held⟩ | ⟨_, _, _, same⟩ |
      ⟨_, _, _, same⟩ | ⟨_, _, result, _⟩
    · exact (catalog.holds_known sound handle description held).2
    · exact same
    · exact same
    · exact nomatch result.symm.trans answered
  known handle held := catalog.holds_known sound handle description held
  added fresh handle answered := by
    rcases describe_cases catalog sound description with ⟨other, held⟩ | ⟨_, _, result, _⟩ |
      ⟨_, _, result, _⟩ | ⟨_, room, result, grown⟩
    · exact absurd held (fresh other)
    · exact nomatch result.symm.trans answered
    · exact nomatch result.symm.trans answered
    · rw [grown, ← Except.ok.inj (result.symm.trans answered)]
      exact catalog.append_added description room
  full spent fresh formed held := by
    have right := (catalog.error_none_iff description).mpr ⟨formed, held⟩
    rcases describe_cases catalog sound description with ⟨other, found⟩ | ⟨_, wrong, _⟩ |
      ⟨_, _, result, _⟩ | ⟨_, room, _⟩
    · exact absurd found (fresh other)
    · exact nomatch right.symm.trans wrong
    · exact result
    · omega

end Sound

theorem descriptions_judged (history : List Description) (description : Description) :
    (ofHistory history).Judges description :=
  sound_judges _ (history_sound history) description

example : (ofHistory [.type (.named "A" "B" [])]).answer (.type (.named "A" "C" [⟨0⟩, ⟨7⟩, ⟨1⟩])) =
    .error (.unknownPart ⟨7⟩) := rfl

-- The element is unknown too, which is not told.
example : (ofHistory []).answer (.type (.array ⟨7⟩ 0)) = .error (.badRank 0) := rfl

end Catalog

end ArtifactGraph
