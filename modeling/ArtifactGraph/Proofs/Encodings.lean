import ArtifactGraph.Proofs.Depictions

set_option autoImplicit false

namespace ArtifactGraph

open ArtifactGraph.Symbol

def joined (texts : List (List Char)) : List Char := List.intercalate (marker 'C') texts

def bracketed (texts : List (List Char)) : List Char :=
  if texts.isEmpty then [] else marker 'G' ++ joined texts ++ marker 'E'

def TypeForm.suffix? : TypeForm → Option (TypeId × Suffix)
  | .vector element => some (element, .vector)
  | .array element rank => some (element, .array rank)
  | .pointer element => some (element, .pointer)
  | .byRef element => some (element, .byRef)
  | _ => none

theorem TypeForm.suffix_parts (form : TypeForm) (element : TypeId) (suffix : Suffix)
    (shape : form.suffix? = some (element, suffix)) : form.parts = [element] := by
  cases form <;> simp_all [TypeForm.suffix?, TypeForm.parts]

theorem Suffix.wrap_spell (tree : TypeTree) (suffix : Suffix) :
    (wrap tree suffix).spell = tree.spell ++ suffix.spell := by
  cases suffix <;> simp [wrap, TypeTree.spell, spell]

namespace Catalog

mutual

inductive Encodes (catalog : Catalog) : TypeId → Except Fault (List Char) → Prop where
  | missing (id : TypeId) (absent : catalog.type? id = none) :
      Encodes catalog id (.error (.undescribed (.type id)))
  | stored (id : TypeId) (form : TypeForm) (answer : Except Fault (List Char))
      (found : catalog.type? id = some form) (layer : EncodesForm catalog form answer) :
      Encodes catalog id answer

inductive EncodesForm (catalog : Catalog) : TypeForm → Except Fault (List Char) → Prop where
  | named (space name : String) (arguments : List TypeId) (answer : Except Fault (List (List Char)))
      (parts : EncodesAll catalog arguments answer) :
      EncodesForm catalog (.named space name arguments)
        (answer.map fun texts => spellSpace space ++ escape name.toList ++ bracketed texts)
  | suffixed (form : TypeForm) (element : TypeId) (suffix : Suffix) (answer : Except Fault (List Char))
      (shape : form.suffix? = some (element, suffix)) (part : Encodes catalog element answer) :
      EncodesForm catalog form (answer.map (· ++ suffix.spell))
  | typeParameter (position : Nat) :
      EncodesForm catalog (.typeParameter position) (.ok (marker 'T' ++ digits position))
  | methodParameter (position : Nat) :
      EncodesForm catalog (.methodParameter position) (.ok (marker 'M' ++ digits position))

inductive EncodesAll (catalog : Catalog) : List TypeId → Except Fault (List (List Char)) → Prop where
  | nil : EncodesAll catalog [] (.ok [])
  | stops (id : TypeId) (ids : List TypeId) (fault : Fault) (first : Encodes catalog id (.error fault)) :
      EncodesAll catalog (id :: ids) (.error fault)
  | cons (id : TypeId) (ids : List TypeId) (text : List Char) (answer : Except Fault (List (List Char)))
      (first : Encodes catalog id (.ok text)) (rest : EncodesAll catalog ids answer) :
      EncodesAll catalog (id :: ids) (answer.map (text :: ·))

end

inductive EncodesMethod (catalog : Catalog) (id : MethodId) : Except Fault (List Char) → Prop where
  | missing (absent : catalog.method? id = none) : EncodesMethod catalog id (.error (.undescribed (.method id)))
  | stops (form : MethodForm) (fault : Fault) (found : catalog.method? id = some form)
      (parts : EncodesAll catalog form.parts (.error fault)) : EncodesMethod catalog id (.error fault)
  | done (form : MethodForm) (owner : List Char) (arguments parameters results : List (List Char))
      (found : catalog.method? id = some form)
      (first : Encodes catalog form.owner (.ok owner))
      (second : EncodesAll catalog form.arguments (.ok arguments))
      (third : EncodesAll catalog form.parameters (.ok parameters))
      (last : EncodesAll catalog form.result.toList (.ok results)) :
      EncodesMethod catalog id (.ok (owner ++ marker 'F' ++ escape form.name.toList ++ bracketed arguments
        ++ marker 'S' ++ joined parameters ++ marker 'V' ++ results.flatten ++ marker 'E'))

inductive EncodesPayload (catalog : Catalog) : Payload → Except Fault (List Char) → Prop where
  | type (id : TypeId) (answer : Except Fault (List Char)) (part : catalog.Encodes id answer) :
      EncodesPayload catalog (.type id) answer
  | method (id : MethodId) (answer : Except Fault (List Char)) (part : catalog.EncodesMethod id answer) :
      EncodesPayload catalog (.method id) answer
  | delegate (record : Delegate) (answer : Except Fault (List Char))
      (part : catalog.EncodesMethod record.target answer) :
      EncodesPayload catalog (.delegate record) (answer.map (· ++ marker 'D' ++ record.binding.code.toList))

inductive EncodesKey (catalog : Catalog) (key : Key) : Except Fault (List Char) → Prop where
  | tagged (answer : Except Fault (List Char)) (part : catalog.EncodesPayload key.payload answer) :
      EncodesKey catalog key (answer.map (key.kind.tag.toList ++ ·))

-- The first part is encoded first. Where each first part has a first part again, no
-- call ends.
theorem endless_unanswered (catalog : Catalog) (endless : TypeId → Prop)
    (goes : ∀ id, endless id → ∃ form part, catalog.type? id = some form ∧ form.parts.head? = some part ∧
      endless part)
    (id : TypeId) (answer : Except Fault (List Char)) (ends : catalog.Encodes id answer) : ¬ endless id := by
  apply @Encodes.rec catalog (fun id _ _ => ¬ endless id)
    (fun form _ _ => ∀ part, form.parts.head? = some part → ¬ endless part)
    (fun ids _ _ => ∀ part, ids.head? = some part → ¬ endless part)
  case missing =>
    intro id absent deep
    obtain ⟨_, _, here, _⟩ := goes id deep
    exact nomatch here.symm.trans absent
  case stored =>
    intro id form _ found _ ended deep
    obtain ⟨other, part, here, first, deeper⟩ := goes id deep
    obtain rfl := Option.some.inj (found.symm.trans here)
    exact ended part first deeper
  case named => exact fun _ _ _ _ _ ended => ended
  case suffixed =>
    intro form element suffix _ shape _ ended part first
    rw [form.suffix_parts element suffix shape] at first
    exact Option.some.inj first ▸ ended
  case typeParameter => exact fun _ _ first => nomatch first
  case methodParameter => exact fun _ _ first => nomatch first
  case nil => exact fun _ first => nomatch first
  case stops => exact fun _ _ _ _ ended part first => Option.some.inj first ▸ ended
  case cons => exact fun _ _ _ _ _ _ ended _ part first => Option.some.inj first ▸ ended
  exact ends

theorem joined_more (first : List Char) (trees : List TypeTree) :
    joined (first :: trees.map TypeTree.spell) = first ++ TypeTree.spellMore trees := by
  induction trees generalizing first with
  | nil => simp [joined, TypeTree.spellMore]
  | cons tree rest ih =>
      rw [TypeTree.spellMore, List.append_assoc, ← ih tree.spell, List.map_cons]
      simp [joined]

theorem joined_spell (trees : List TypeTree) :
    joined (trees.map TypeTree.spell) = TypeTree.spellList trees := by
  cases trees with
  | nil => rfl
  | cons first rest => exact joined_more first.spell rest

theorem bracketed_spell (trees : List TypeTree) :
    bracketed (trees.map TypeTree.spell) = TypeTree.spellArguments trees := by
  cases trees with
  | nil => rfl
  | cons first rest =>
      rw [List.map_cons, bracketed, if_neg (by simp), joined_more, TypeTree.spellArguments,
        List.append_assoc _ first.spell]

theorem stored_encodes (catalog : Catalog) (id : TypeId) (form : TypeForm)
    (found : catalog.type? id = some form) (answer : Except Fault (List Char)) :
    catalog.Encodes id answer ↔ catalog.EncodesForm form answer := by
  constructor
  · intro ends
    cases ends with
    | missing _ absent => exact nomatch found.symm.trans absent
    | stored _ other _ here layer => exact Option.some.inj (here.symm.trans found) ▸ layer
  · exact .stored id form answer found

theorem missing_encodes (catalog : Catalog) (id : TypeId) (absent : catalog.type? id = none)
    (answer : Except Fault (List Char)) :
    catalog.Encodes id answer ↔ answer = .error (.undescribed (.type id)) := by
  constructor
  · intro ends
    cases ends with
    | missing => rfl
    | stored _ _ _ found => exact nomatch absent.symm.trans found
  · rintro rfl
    exact .missing id absent

theorem named_encodes (catalog : Catalog) (space name : String) (arguments : List TypeId) (trees : List TypeTree)
    (inner : ∀ answer, catalog.EncodesAll arguments answer ↔ answer = .ok (trees.map TypeTree.spell))
    (answer : Except Fault (List Char)) :
    catalog.EncodesForm (.named space name arguments) answer ↔
      answer = .ok (TypeTree.named space name trees).spell := by
  have text : (Except.ok (trees.map TypeTree.spell) : Except Fault _).map
      (fun texts => spellSpace space ++ escape name.toList ++ bracketed texts) =
      .ok (TypeTree.named space name trees).spell := by
    rw [Except.map, bracketed_spell, TypeTree.spell]
  constructor
  · intro layer
    cases layer with
    | named _ _ _ part ends => rw [(inner part).mp ends, text]
    | suffixed _ _ _ _ shape => cases shape
  · rintro rfl
    exact text ▸ .named space name arguments _ ((inner _).mpr rfl)

theorem suffixed_encodes (catalog : Catalog) (form : TypeForm) (element : TypeId) (suffix : Suffix)
    (tree : TypeTree) (shape : form.suffix? = some (element, suffix))
    (inner : ∀ answer, catalog.Encodes element answer ↔ answer = .ok tree.spell)
    (answer : Except Fault (List Char)) :
    catalog.EncodesForm form answer ↔ answer = .ok (Suffix.wrap tree suffix).spell := by
  rw [Suffix.wrap_spell]
  constructor
  · intro layer
    cases layer with
    | suffixed _ other another part same ends =>
        obtain ⟨rfl, rfl⟩ := Prod.mk.inj (Option.some.inj (shape.symm.trans same))
        rw [(inner part).mp ends]
        rfl
    | named | typeParameter | methodParameter => cases shape
  · rintro rfl
    exact .suffixed form element suffix _ shape ((inner _).mpr rfl)

mutual

theorem depicted_encodes (catalog : Catalog) (id : TypeId) (tree : TypeTree) (shown : catalog.Depicts id tree)
    (answer : Except Fault (List Char)) : catalog.Encodes id answer ↔ answer = .ok tree.spell := by
  cases shown with
  | named _ space name arguments trees found parts =>
      have inner := all_depicted_encode catalog arguments trees parts
      rw [catalog.stored_encodes id _ found]
      exact catalog.named_encodes space name arguments trees inner answer
  | vector _ element tree found part =>
      have inner := depicted_encodes catalog element tree part
      rw [catalog.stored_encodes id _ found]
      exact catalog.suffixed_encodes _ element .vector tree rfl inner answer
  | array _ element rank tree found part =>
      have inner := depicted_encodes catalog element tree part
      rw [catalog.stored_encodes id _ found]
      exact catalog.suffixed_encodes _ element (.array rank) tree rfl inner answer
  | pointer _ element tree found part =>
      have inner := depicted_encodes catalog element tree part
      rw [catalog.stored_encodes id _ found]
      exact catalog.suffixed_encodes _ element .pointer tree rfl inner answer
  | byRef _ element tree found part =>
      have inner := depicted_encodes catalog element tree part
      rw [catalog.stored_encodes id _ found]
      exact catalog.suffixed_encodes _ element .byRef tree rfl inner answer
  | typeParameter _ position found =>
      rw [catalog.stored_encodes id _ found]
      constructor
      · intro layer
        cases layer with
        | typeParameter => rfl
        | suffixed _ _ _ _ shape => cases shape
      · rintro rfl
        exact .typeParameter position
  | methodParameter _ position found =>
      rw [catalog.stored_encodes id _ found]
      constructor
      · intro layer
        cases layer with
        | methodParameter => rfl
        | suffixed _ _ _ _ shape => cases shape
      · rintro rfl
        exact .methodParameter position

theorem all_depicted_encode (catalog : Catalog) (ids : List TypeId) (trees : List TypeTree)
    (shown : catalog.DepictsAll ids trees) (answer : Except Fault (List (List Char))) :
    catalog.EncodesAll ids answer ↔ answer = .ok (trees.map TypeTree.spell) := by
  cases shown with
  | nil =>
      constructor
      · rintro ⟨⟩
        rfl
      · rintro rfl
        exact .nil
  | cons id tree ids trees first rest =>
      have head := depicted_encodes catalog id tree first
      have tail := all_depicted_encode catalog ids trees rest
      constructor
      · intro ends
        cases ends with
        | stops _ _ fault failed => exact nomatch (head _).mp failed
        | cons _ _ text part done more =>
            rw [(tail part).mp more, Except.ok.inj ((head _).mp done)]
            rfl
      · rintro rfl
        exact .cons id ids tree.spell _ ((head _).mpr rfl) ((tail _).mpr rfl)

end

theorem type_payload_encodes (catalog : Catalog) (id : TypeId) (answer : Except Fault (List Char)) :
    catalog.EncodesPayload (.type id) answer ↔ catalog.Encodes id answer := by
  constructor
  · rintro ⟨⟩
    assumption
  · exact .type id answer

theorem method_payload_encodes (catalog : Catalog) (id : MethodId) (answer : Except Fault (List Char)) :
    catalog.EncodesPayload (.method id) answer ↔ catalog.EncodesMethod id answer := by
  constructor
  · rintro ⟨⟩
    assumption
  · exact .method id answer

structure Concludes (encodes : Except Fault (List Char) → Prop) (given : Except Fault String) (held : Bool)
    (handle : Handle) : Prop where
  once : ∃ answer, (∀ other, encodes other ↔ other = answer) ∧ given = answer.map String.ofList
  named : (∃ name, given = .ok name) ↔ held = true
  refused : ∀ fault, given = .error fault ↔ held = false ∧ fault = .undescribed handle

theorem concludes_of (encodes : Except Fault (List Char) → Prop) (given : Except Fault String) (held : Bool)
    (handle : Handle) (answer : Except Fault (List Char)) (only : ∀ other, encodes other ↔ other = answer)
    (shown : given = answer.map String.ofList) (total : held = true → ∃ name, given = .ok name)
    (missing : held = false → given = .error (.undescribed handle)) : Concludes encodes given held handle := by
  refine ⟨⟨answer, only, shown⟩, ?_, fun fault => ?_⟩
  · cases held with
    | true => simpa using total rfl
    | false => simp [missing rfl]
  · cases held with
    | true =>
        obtain ⟨name, named⟩ := total rfl
        simp [named]
    | false => simp [missing rfl, eq_comm]

section Sound

variable (catalog : Catalog) (sound : catalog.Sound)

include sound

theorem encodes_iff (id : TypeId) (answer : Except Fault (List Char)) :
    catalog.Encodes id answer ↔ answer = (catalog.unfoldType id).map TypeTree.spell := by
  cases held : catalog.hasType id with
  | true =>
      obtain ⟨tree, done⟩ := catalog.unfold_type_total sound id held
      rw [catalog.depicted_encodes id tree ((catalog.depicts_iff sound id tree).mpr done) answer, done]
      rfl
  | false =>
      have absent := catalog.type_missing sound id held
      rw [catalog.missing_encodes id absent, catalog.unfold_type_missing sound id held]
      rfl

theorem encodes_all_iff (ids : List TypeId) (trees : List TypeTree)
    (done : ids.mapM catalog.unfoldType = .ok trees) (answer : Except Fault (List (List Char))) :
    catalog.EncodesAll ids answer ↔ answer = .ok (trees.map TypeTree.spell) := by
  refine catalog.all_depicted_encode ids trees ?_ answer
  exact catalog.map_depicts catalog.unfoldType (fun id tree => (catalog.depicts_iff sound id tree).mpr) ids trees done

theorem parts_encoded (id : MethodId) (form : MethodForm) (found : catalog.method? id = some form)
    (fault : Fault) : ¬ catalog.EncodesAll form.parts (.error fault) := by
  intro stopped
  obtain ⟨trees, done⟩ := catalog.unfold_list_total sound form.parts
    (sound.described form (Ledger.get_mem _ _ _ found))
  exact nomatch (encodes_all_iff catalog sound form.parts trees done _).mp stopped

theorem unfolded_method_encodes (id : MethodId) (tree : MethodTree) (done : catalog.unfoldMethod id = .ok tree)
    (answer : Except Fault (List Char)) : catalog.EncodesMethod id answer ↔ answer = .ok tree.spell := by
  obtain ⟨form, found, unfolds⟩ := (catalog.unfold_method_iff id tree).mp done
  have owner := encodes_iff catalog sound form.owner
  rw [unfolds.owner] at owner
  have arguments := encodes_all_iff catalog sound form.arguments tree.arguments unfolds.arguments
  have parameters := encodes_all_iff catalog sound form.parameters tree.parameters unfolds.parameters
  have result := encodes_all_iff catalog sound form.result.toList tree.result.toList
    ((option_map_ok_iff _ _ _).mp unfolds.result)
  have last : (tree.result.toList.map TypeTree.spell).flatten = tree.result.elim [] TypeTree.spell := by
    cases tree.result <;> simp
  have text : tree.spell = tree.owner.spell ++ marker 'F' ++ escape form.name.toList
      ++ bracketed (tree.arguments.map TypeTree.spell) ++ marker 'S'
      ++ joined (tree.parameters.map TypeTree.spell) ++ marker 'V'
      ++ (tree.result.toList.map TypeTree.spell).flatten ++ marker 'E' := by
    rw [MethodTree.spell, unfolds.name, bracketed_spell, joined_spell, last]
  constructor
  · intro ends
    cases ends with
    | missing absent => cases found.symm.trans absent
    | stops other fault here stopped => exact absurd stopped (parts_encoded catalog sound id other here fault)
    | done other ownerText argumentTexts parameterTexts resultTexts here first second third fourth =>
        obtain rfl := Option.some.inj (here.symm.trans found)
        rw [text, Except.ok.inj ((owner _).mp first), Except.ok.inj ((arguments _).mp second),
          Except.ok.inj ((parameters _).mp third), Except.ok.inj ((result _).mp fourth)]
  · rintro rfl
    rw [text]
    exact .done form _ _ _ _ found ((owner _).mpr rfl) ((arguments _).mpr rfl) ((parameters _).mpr rfl)
      ((result _).mpr rfl)

theorem encodes_method_iff (id : MethodId) (answer : Except Fault (List Char)) :
    catalog.EncodesMethod id answer ↔ answer = (catalog.unfoldMethod id).map MethodTree.spell := by
  cases held : catalog.hasMethod id with
  | true =>
      obtain ⟨tree, done⟩ := catalog.unfold_method_total sound id held
      rw [unfolded_method_encodes catalog sound id tree done, done]
      rfl
  | false =>
      have absent := catalog.method_missing sound id held
      rw [catalog.unfold_method_missing sound id held]
      constructor
      · intro ends
        cases ends with
        | missing => rfl
        | stops _ _ found | done _ _ _ _ _ found => exact nomatch absent.symm.trans found
      · rintro rfl
        exact .missing absent

theorem encodes_payload_iff (payload : Payload) (answer : Except Fault (List Char)) :
    catalog.EncodesPayload payload answer ↔ answer = (catalog.unfoldPayload payload).map PayloadTree.spell := by
  cases payload with
  | type id =>
      rw [type_payload_encodes, encodes_iff catalog sound, unfoldPayload]
      cases catalog.unfoldType id <;> rfl
  | method id =>
      rw [method_payload_encodes, encodes_method_iff catalog sound, unfoldPayload]
      cases catalog.unfoldMethod id <;> rfl
  | delegate record =>
      have inner := encodes_method_iff catalog sound record.target
      have mapped : (catalog.unfoldPayload (.delegate record)).map PayloadTree.spell =
          ((catalog.unfoldMethod record.target).map MethodTree.spell).map
            (· ++ marker 'D' ++ record.binding.code.toList) := by
        rw [unfoldPayload]
        cases catalog.unfoldMethod record.target <;> rfl
      rw [mapped]
      constructor
      · intro ends
        cases ends with
        | delegate _ text part => rw [(inner text).mp part]
      · rintro rfl
        exact .delegate record _ ((inner _).mpr rfl)

theorem encodes_key_iff (key : Key) (answer : Except Fault (List Char)) :
    catalog.EncodesKey key answer ↔ answer = (catalog.label key).map Label.spell := by
  have inner := encodes_payload_iff catalog sound key.payload
  have mapped : (catalog.label key).map Label.spell =
      ((catalog.unfoldPayload key.payload).map PayloadTree.spell).map (key.kind.tag.toList ++ ·) := by
    rw [label]
    cases catalog.unfoldPayload key.payload <;> rfl
  rw [mapped]
  constructor
  · rintro ⟨text, part⟩
    rw [(inner text).mp part]
  · rintro rfl
    exact .tagged _ ((inner _).mpr rfl)

theorem type_concludes (id : TypeId) :
    Concludes (catalog.Encodes id) (catalog.typeName id) (catalog.hasType id) (.type id) := by
  refine concludes_of _ _ _ _ _ (encodes_iff catalog sound id) ?_ (fun held => ?_) (fun missing => ?_)
  · rw [typeName]
    cases catalog.unfoldType id <;> rfl
  · obtain ⟨tree, done⟩ := catalog.unfold_type_total sound id held
    exact ⟨String.ofList tree.spell, catalog.type_name_spell id tree done⟩
  · rw [typeName, catalog.unfold_type_missing sound id missing]
    rfl

theorem method_concludes (id : MethodId) :
    Concludes (catalog.EncodesMethod id) (catalog.methodName id) (catalog.hasMethod id) (.method id) := by
  refine concludes_of _ _ _ _ _ (encodes_method_iff catalog sound id) ?_ (fun held => ?_) (fun missing => ?_)
  · rw [methodName]
    cases catalog.unfoldMethod id <;> rfl
  · obtain ⟨tree, done⟩ := catalog.unfold_method_total sound id held
    exact ⟨String.ofList tree.spell, catalog.method_name_spell id tree done⟩
  · rw [methodName, catalog.unfold_method_missing sound id missing]
    rfl

theorem key_concludes (key : Key) :
    Concludes (catalog.EncodesKey key) (catalog.symbol key) (catalog.hasPayload key.payload)
      key.payload.handle := by
  refine concludes_of _ _ _ _ _ (encodes_key_iff catalog sound key) ?_ (catalog.symbol_total sound key)
    (catalog.symbol_missing sound key)
  rw [symbol]
  cases catalog.label key <;> rfl

end Sound

theorem naming_concludes (history : List Description) :
    let catalog := ofHistory history
    (∀ id, Concludes (catalog.Encodes id) (catalog.typeName id) (catalog.hasType id) (.type id)) ∧
    (∀ id, Concludes (catalog.EncodesMethod id) (catalog.methodName id) (catalog.hasMethod id) (.method id)) ∧
    (∀ key, Concludes (catalog.EncodesKey key) (catalog.symbol key) (catalog.hasPayload key.payload)
      key.payload.handle) :=
  ⟨type_concludes _ (history_sound history), method_concludes _ (history_sound history),
    key_concludes _ (history_sound history)⟩

end Catalog

end ArtifactGraph
