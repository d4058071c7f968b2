import ArtifactGraph.Proofs.Encodings
import ArtifactGraph.Proofs.Lettering

set_option autoImplicit false

/-! No part of a name tells how long it is: an array is known as one only when its
element has been read. But what a name has after a part cannot be taken for more of
that part, so every part is found again. -/
namespace ArtifactGraph

open ArtifactGraph.Symbol

namespace Symbol

def Resumes (letters : List Char) (text : String) : Prop := Follows letters text.toList

def Opens (letter : Char) (text : String) : Prop := marker letter <+: text.toList

end Symbol

def Legible {Item : Type} (write : Item → Except Fault String) (held : Item → Prop)
    (same : Item → Item → Prop) (after : String → Prop) : Prop :=
  ∀ a b, held a → held b → ∃ one another, write a = .ok one ∧ write b = .ok another ∧
    ∀ rest more, after rest → after more → (one ++ rest = another ++ more ↔ same a b ∧ rest = more)

section Trees

variable {Item Tree : Type} (unfold : Item → Except Fault Tree)

theorem same_of_injective (distinct : ∀ a b tree, unfold a = .ok tree → unfold b = .ok tree → a = b) (a b : Item)
    (tree other : Tree) (first : unfold a = .ok tree) (second : unfold b = .ok other) :
    tree = other ↔ a = b := by
  constructor
  · rintro rfl
    exact distinct a b tree first second
  · rintro rfl
    exact Except.ok.inj (first.symm.trans second)

theorem legible_of_trees (spell : Tree → List Char) (held : Item → Prop) (same : Item → Item → Prop)
    (after : String → Prop) (total : ∀ item, held item → ∃ tree, unfold item = .ok tree)
    (shared : ∀ a b tree other, unfold a = .ok tree → unfold b = .ok other → (tree = other ↔ same a b))
    (read : ∀ a b tree other, unfold a = .ok tree → unfold b = .ok other → ∀ rest more, after rest → after more →
      spell tree ++ rest.toList = spell other ++ more.toList → tree = other ∧ rest.toList = more.toList) :
    Legible (fun item => (unfold item).map fun tree => String.ofList (spell tree)) held same after := by
  intro a b left right
  obtain ⟨tree, first⟩ := total a left
  obtain ⟨other, second⟩ := total b right
  have trees := shared a b tree other first second
  refine ⟨_, _, congrArg _ first, congrArg _ second, fun rest more follows goes => ?_⟩
  constructor
  · intro texts
    have letters := congrArg String.toList texts
    rw [String.toList_append, String.toList_append, String.toList_ofList, String.toList_ofList] at letters
    obtain ⟨equal, ends⟩ := read a b tree other first second rest more follows goes letters
    exact ⟨trees.mp equal, String.toList_injective ends⟩
  · rintro ⟨alike, rfl⟩
    rw [trees.mpr alike]

end Trees

namespace Catalog

def HasTypes (catalog : Catalog) (ids : List TypeId) : Prop := ∀ id ∈ ids, catalog.hasType id = true

def listName (catalog : Catalog) (ids : List TypeId) : Except Fault String :=
  (ids.mapM catalog.typeName).map fun names => "$$C".intercalate names

-- What comes after a name that takes arguments, and nothing after one that takes none.
def argumentsName (catalog : Catalog) (ids : List TypeId) : Except Fault String :=
  if ids.isEmpty then .ok "" else (catalog.listName ids).map fun text => "$$G" ++ text ++ "$$E"

structure Composed (catalog : Catalog) : Prop where
  named (id : TypeId) (space name : String) (arguments : List TypeId)
    (found : catalog.type? id = some (.named space name arguments)) :
    catalog.typeName id = do
      let list ← catalog.argumentsName arguments
      return String.ofList (spellSpace space) ++ identifier name ++ list
  method (id : MethodId) (form : MethodForm) (found : catalog.method? id = some form) :
    catalog.methodName id = do
      let owner ← catalog.typeName form.owner
      let arguments ← catalog.argumentsName form.arguments
      let parameters ← catalog.listName form.parameters
      let result ← catalog.listName form.result.toList
      return owner ++ "$$F" ++ identifier form.name ++ arguments ++ "$$S" ++ parameters ++ "$$V" ++ result ++ "$$E"

theorem names_of_trees (catalog : Catalog) (ids : List TypeId) :
    ids.mapM catalog.typeName =
      (ids.mapM catalog.unfoldType).map (List.map fun tree => String.ofList tree.spell) := by
  induction ids with
  | nil => rfl
  | cons id rest ih =>
      rw [List.mapM_cons, List.mapM_cons, ih, typeName]
      cases catalog.unfoldType id with
      | error fault => rfl
      | ok tree => cases rest.mapM catalog.unfoldType <;> rfl

theorem joined_names (trees : List TypeTree) :
    "$$C".intercalate (trees.map fun tree => String.ofList tree.spell) =
      String.ofList (TypeTree.spellList trees) := by
  have texts : String.toList ∘ (fun tree : TypeTree => String.ofList tree.spell) = TypeTree.spell := by
    funext tree
    exact String.toList_ofList
  have separator : "$$C".toList = marker 'C' := rfl
  apply String.toList_injective
  rw [String.toList_intercalate, List.map_map, texts, separator, String.toList_ofList]
  exact joined_spell trees

theorem list_name_spelled (catalog : Catalog) (ids : List TypeId) :
    catalog.listName ids =
      (ids.mapM catalog.unfoldType).map fun trees => String.ofList (TypeTree.spellList trees) := by
  rw [listName, names_of_trees]
  cases ids.mapM catalog.unfoldType with
  | error fault => rfl
  | ok trees => exact congrArg Except.ok (joined_names trees)

theorem arguments_name_spelled (catalog : Catalog) (ids : List TypeId) :
    catalog.argumentsName ids =
      (ids.mapM catalog.unfoldType).map fun trees => String.ofList (TypeTree.spellArguments trees) := by
  cases ids with
  | nil => rfl
  | cons id rest =>
      rw [argumentsName, list_name_spelled, if_neg (by simp)]
      cases done : (id :: rest).mapM catalog.unfoldType with
      | error fault => rfl
      | ok trees =>
          obtain ⟨first, more, _, _, rfl⟩ := (map_cons_ok_iff _ _ _ _).mp done
          refine congrArg Except.ok (String.toList_injective ?_)
          simp [TypeTree.spellArguments, TypeTree.spellList, marker]

section Sound

variable (catalog : Catalog) (sound : catalog.Sound)

include sound

theorem types_legible :
    Legible catalog.typeName (fun id => catalog.hasType id = true) Eq (Resumes TypeTree.closers) := by
  refine legible_of_trees catalog.unfoldType TypeTree.spell _ _ _ (catalog.unfold_type_total sound)
    (same_of_injective _ (unfold_type_injective catalog sound)) ?_
  intro _ _ tree other _ _ rest more follows goes same
  exact tree.readable other rest.toList more.toList follows goes same

theorem lists_legible (closer : Char) (member : closer ∈ TypeTree.closers) (last : closer ≠ 'C') :
    Legible catalog.listName catalog.HasTypes Eq (Opens closer) := by
  rw [funext catalog.list_name_spelled]
  refine legible_of_trees _ TypeTree.spellList _ _ _ (unfold_list_total catalog sound)
    (same_of_injective _ (unfold_list_injective catalog sound)) ?_
  intro ids others trees branches first second rest more ⟨s, closed⟩ ⟨t, ended⟩ same
  rw [← closed, ← ended] at same ⊢
  obtain ⟨lists, ends⟩ := TypeTree.list_injective trees branches
    (unfold_list_named catalog sound ids trees first) (unfold_list_named catalog sound others branches second)
    closer s t member last same
  exact ⟨lists, congrArg _ ends⟩

theorem arguments_legible :
    Legible catalog.argumentsName catalog.HasTypes Eq (Resumes ('S' :: TypeTree.enders)) := by
  rw [funext catalog.arguments_name_spelled]
  refine legible_of_trees _ TypeTree.spellArguments _ _ _ (unfold_list_total catalog sound)
    (same_of_injective _ (unfold_list_injective catalog sound)) ?_
  intro _ _ trees branches _ _ rest more follows goes same
  exact TypeTree.arguments_injective trees (TypeTree.all_readable trees) branches _ _ _ (by decide) follows goes same

-- A method has a closing marker of its own, so anything may come after it.
theorem methods_legible :
    Legible catalog.methodName (fun id => catalog.hasMethod id = true) catalog.MethodsAgree (fun _ => True) := by
  refine legible_of_trees catalog.unfoldMethod MethodTree.spell _ _ _ (catalog.unfold_method_total sound)
    (unfold_method_same catalog sound) ?_
  intro a b tree other first second rest more _ _ same
  exact MethodTree.spell_injective tree other (catalog.unfold_method_named sound a tree first)
    (catalog.unfold_method_named sound b other second) rest.toList more.toList same

theorem type_name_opens (id : TypeId) (name : String) (named : catalog.typeName id = .ok name) :
    ¬ Resumes TypeTree.closers name := by
  intro closed
  cases done : catalog.unfoldType id with
  | error fault => simp [typeName, done, Except.map] at named
  | ok tree =>
      obtain rfl := Except.ok.inj ((catalog.type_name_spell id tree done).symm.trans named)
      rw [Resumes, String.toList_ofList] at closed
      exact tree.named_not_closed (catalog.unfold_type_named sound id tree done) [] _ closed (List.append_nil _)

theorem sound_composed : catalog.Composed where
  named id space name arguments found := by
    have parts : catalog.HasTypes arguments := fun part member => (part_held catalog sound id part _ found member).2
    obtain ⟨trees, done⟩ := unfold_list_total catalog sound arguments parts
    -- A list unfolds each type to the depth of its own handle, which what it depicts does not show.
    have inner := catalog.map_depicts catalog.unfoldType (fun id tree => (catalog.depicts_iff sound id tree).mpr)
      arguments trees done
    have whole := (catalog.depicts_iff sound id _).mp (.named id space name arguments trees found inner)
    rw [catalog.type_name_spell id _ whole, arguments_name_spelled, done]
    refine congrArg Except.ok (String.toList_injective ?_)
    simp [TypeTree.spell, to_list_identifier]
  method id form found := by
    obtain ⟨tree, done⟩ := catalog.unfold_method_total sound id ((catalog.has_method_iff sound id).mpr ⟨form, found⟩)
    obtain ⟨other, here, unfolds⟩ := (catalog.unfold_method_iff id tree).mp done
    obtain rfl := Option.some.inj (here.symm.trans found)
    have owner := catalog.type_name_spell other.owner tree.owner unfolds.owner
    have arguments := catalog.arguments_name_spelled other.arguments
    have parameters := catalog.list_name_spelled other.parameters
    have result := catalog.list_name_spelled other.result.toList
    rw [unfolds.arguments] at arguments
    rw [unfolds.parameters] at parameters
    rw [(option_map_ok_iff _ _ _).mp unfolds.result] at result
    have last : TypeTree.spellList tree.result.toList = tree.result.elim [] TypeTree.spell := by
      cases tree.result <;> simp [TypeTree.spellList, TypeTree.spellMore]
    rw [catalog.method_name_spell id tree done, owner, arguments, parameters, result]
    refine congrArg Except.ok (String.toList_injective ?_)
    simp [MethodTree.spell, unfolds.name, to_list_identifier, marker, last]

end Sound

theorem encodings_legible (history : List Description) :
    let catalog := ofHistory history
    Legible catalog.typeName (fun id => catalog.hasType id = true) Eq (Resumes TypeTree.closers) ∧
    (∀ closer ∈ ['E', 'V'], Legible catalog.listName catalog.HasTypes Eq (Opens closer)) ∧
    Legible catalog.argumentsName catalog.HasTypes Eq (Resumes ('S' :: TypeTree.enders)) ∧
    Legible catalog.methodName (fun id => catalog.hasMethod id = true) catalog.MethodsAgree (fun _ => True) ∧
    (∀ id name, catalog.typeName id = .ok name → ¬ Resumes TypeTree.closers name) ∧
    catalog.Composed := by
  have sound := history_sound history
  refine ⟨types_legible _ sound, fun closer member => ?_, arguments_legible _ sound, methods_legible _ sound,
    type_name_opens _ sound, sound_composed _ sound⟩
  have either : closer = 'E' ∨ closer = 'V' := by simpa using member
  rcases either with rfl | rfl
  · exact lists_legible _ sound 'E' (by decide) (by decide)
  · exact lists_legible _ sound 'V' (by decide) (by decide)

def nested : List Description :=
  [.type (.named "" "T" []), .type (.named "A..B" "Map" [⟨0⟩, ⟨0⟩]), .type (.array ⟨1⟩ 12), .type (.pointer ⟨0⟩)]

def nestedText : String := "A$$_$$_B$$_Map$$GT$$CT$$E$$A12$$CT$$P$$V$$E"

theorem nested_text_read :
    (∀ id name rest, (ofHistory nested).hasType id = true → (ofHistory nested).typeName id = .ok name →
      Resumes TypeTree.closers rest → name ++ rest = nestedText → id = ⟨2⟩ ∧ rest = "$$CT$$P$$V$$E") ∧
    ∀ ids text rest, (ofHistory nested).HasTypes ids → (ofHistory nested).listName ids = .ok text →
      Opens 'V' rest → text ++ rest = nestedText → ids = [⟨2⟩, ⟨3⟩] ∧ rest = "$$V$$E" := by
  constructor
  · intro id name rest held named follows same
    have first : (ofHistory nested).hasType ⟨2⟩ = true := by decide
    have ending : Resumes TypeTree.closers "$$CT$$P$$V$$E" := .marker 'C' _ (by decide)
    obtain ⟨one, another, here, there, read⟩ := (encodings_legible nested).1 id ⟨2⟩ held first
    obtain rfl := Except.ok.inj (here.symm.trans named)
    obtain rfl : "A$$_$$_B$$_Map$$GT$$CT$$E$$A12" = another := Except.ok.inj there
    exact (read rest _ follows ending).mp same
  · intro ids text rest held named opens same
    have both : (ofHistory nested).HasTypes [⟨2⟩, ⟨3⟩] := by
      unfold HasTypes
      decide
    have ending : Opens 'V' "$$V$$E" := ⟨_, rfl⟩
    obtain ⟨one, another, here, there, read⟩ := (encodings_legible nested).2.1 'V' (by decide) ids _ held both
    obtain rfl := Except.ok.inj (here.symm.trans named)
    obtain rfl : "A$$_$$_B$$_Map$$GT$$CT$$E$$A12$$CT$$P" = another := Except.ok.inj there
    exact (read rest _ opens ending).mp same

end Catalog

end ArtifactGraph
