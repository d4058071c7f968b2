import ArtifactGraph.Proofs.Depictions

set_option autoImplicit false

namespace ArtifactGraph

structure Renumbering where
  types : TypeId → TypeId
  methods : MethodId → MethodId

namespace Renumbering

def typeForm (renumber : Renumbering) : TypeForm → TypeForm
  | .named space name arguments => .named space name (arguments.map renumber.types)
  | .vector element => .vector (renumber.types element)
  | .array element rank => .array (renumber.types element) rank
  | .pointer element => .pointer (renumber.types element)
  | .byRef element => .byRef (renumber.types element)
  | .typeParameter position => .typeParameter position
  | .methodParameter position => .methodParameter position

def methodForm (renumber : Renumbering) (form : MethodForm) : MethodForm :=
  { form with
    owner := renumber.types form.owner
    arguments := form.arguments.map renumber.types
    parameters := form.parameters.map renumber.types
    result := form.result.map renumber.types }

def payload (renumber : Renumbering) : Payload → Payload
  | .type id => .type (renumber.types id)
  | .method id => .method (renumber.methods id)
  | .delegate record => .delegate ⟨renumber.methods record.target, record.binding⟩

def key (renumber : Renumbering) : Key → Key
  | .stub made target => .stub made (renumber.payload target)
  | .virtualUse method => .virtualUse (renumber.methods method)
  | .body method => .body (renumber.methods method)

theorem key_kind (renumber : Renumbering) (key : Key) : (renumber.key key).kind = key.kind := by
  cases key <;> rfl

theorem key_payload (renumber : Renumbering) (key : Key) :
    (renumber.key key).payload = renumber.payload key.payload := by
  cases key <;> rfl

theorem key_expects (renumber : Renumbering) (key : Key) : (renumber.key key).expects = key.expects := by
  cases key <;> rfl

theorem payload_shape (renumber : Renumbering) (payload : Payload) :
    (renumber.payload payload).shape = payload.shape := by
  cases payload <;> rfl

structure Carries (renumber : Renumbering) (one two : Catalog) : Prop where
  types : ∀ id form, one.type? id = some form →
    two.type? (renumber.types id) = some (renumber.typeForm form)
  methods : ∀ id form, one.method? id = some form →
    two.method? (renumber.methods id) = some (renumber.methodForm form)

-- Catalogs are finite, so that this can be checked handle by handle.
theorem carries_iff (renumber : Renumbering) (one two : Catalog) :
    renumber.Carries one two ↔
      (∀ position < one.types.size,
        two.type? (renumber.types ⟨position⟩) = (one.type? ⟨position⟩).map renumber.typeForm) ∧
      ∀ position < one.methods.size,
        two.method? (renumber.methods ⟨position⟩) = (one.method? ⟨position⟩).map renumber.methodForm := by
  constructor
  · intro carries
    refine ⟨fun position bound => ?_, fun position bound => ?_⟩
    · obtain ⟨form, stored⟩ := one.types.get_of_size position bound
      have found : one.type? ⟨position⟩ = some form := stored
      rw [found, carries.types _ form found, Option.map_some]
    · obtain ⟨form, stored⟩ := one.methods.get_of_size position bound
      have found : one.method? ⟨position⟩ = some form := stored
      rw [found, carries.methods _ form found, Option.map_some]
  · intro ⟨types, methods⟩
    refine ⟨fun id form stored => ?_, fun id form stored => ?_⟩
    · rw [types id.position (one.types.get_size id.position form stored), stored, Option.map_some]
    · rw [methods id.position (one.methods.get_size id.position form stored), stored, Option.map_some]

instance (renumber : Renumbering) (one two : Catalog) : Decidable (renumber.Carries one two) :=
  decidable_of_iff' _ (renumber.carries_iff one two)

mutual

theorem carries_depicts (renumber : Renumbering) (one two : Catalog) (carries : renumber.Carries one two)
    (id : TypeId) (tree : TypeTree) (shown : one.Depicts id tree) :
    two.Depicts (renumber.types id) tree := by
  cases shown with
  | named _ space name arguments trees stored parts =>
      exact .named _ space name _ trees (carries.types _ _ stored)
        (carries_depicts_all renumber one two carries arguments trees parts)
  | vector _ element tree stored part =>
      exact .vector _ _ tree (carries.types _ _ stored)
        (carries_depicts renumber one two carries element tree part)
  | array _ element rank tree stored part =>
      exact .array _ _ rank tree (carries.types _ _ stored)
        (carries_depicts renumber one two carries element tree part)
  | pointer _ element tree stored part =>
      exact .pointer _ _ tree (carries.types _ _ stored)
        (carries_depicts renumber one two carries element tree part)
  | byRef _ element tree stored part =>
      exact .byRef _ _ tree (carries.types _ _ stored)
        (carries_depicts renumber one two carries element tree part)
  | typeParameter _ position stored => exact .typeParameter _ position (carries.types _ _ stored)
  | methodParameter _ position stored => exact .methodParameter _ position (carries.types _ _ stored)

theorem carries_depicts_all (renumber : Renumbering) (one two : Catalog) (carries : renumber.Carries one two)
    (ids : List TypeId) (trees : List TypeTree) (shown : one.DepictsAll ids trees) :
    two.DepictsAll (ids.map renumber.types) trees := by
  cases shown with
  | nil => exact .nil
  | cons id tree ids trees first rest =>
      exact .cons _ tree _ trees (carries_depicts renumber one two carries id tree first)
        (carries_depicts_all renumber one two carries ids trees rest)

end

section Carried

variable (renumber : Renumbering) (one two : Catalog) (carries : renumber.Carries one two)
  (first : one.Sound) (second : two.Sound)

include carries first second

theorem carries_unfold (id : TypeId) (tree : TypeTree) (done : one.unfoldType id = .ok tree) :
    two.unfoldType (renumber.types id) = .ok tree :=
  (two.depicts_iff second _ tree).mp
    (carries_depicts renumber one two carries id tree ((one.depicts_iff first id tree).mpr done))

theorem carries_unfold_all (ids : List TypeId) (trees : List TypeTree)
    (done : ids.mapM one.unfoldType = .ok trees) :
    (ids.map renumber.types).mapM two.unfoldType = .ok trees := by
  induction ids generalizing trees with
  | nil => exact done
  | cons id rest ih =>
      obtain ⟨tree, more, here, later, rfl⟩ := (map_cons_ok_iff _ id rest trees).mp done
      exact (map_cons_ok_iff _ _ _ _).mpr ⟨tree, more,
        carries_unfold renumber one two carries first second id tree here, ih more later, rfl⟩

theorem carries_unfold_method (id : MethodId) (tree : MethodTree) (done : one.unfoldMethod id = .ok tree) :
    two.unfoldMethod (renumber.methods id) = .ok tree := by
  obtain ⟨form, stored, unfolds⟩ := (one.unfold_method_iff id tree).mp done
  have lists := carries_unfold_all renumber one two carries first second
  refine (two.unfold_method_iff _ tree).mpr ⟨_, carries.methods id form stored, ?_⟩
  refine ⟨carries_unfold renumber one two carries first second _ _ unfolds.owner, unfolds.name,
    lists _ _ unfolds.arguments, lists _ _ unfolds.parameters, ?_⟩
  have result := lists _ _ ((option_map_ok_iff _ _ _).mp unfolds.result)
  rw [← Option.toList_map] at result
  exact (option_map_ok_iff _ _ _).mpr result

theorem carries_unfold_payload (payload : Payload) (tree : PayloadTree)
    (unfolds : one.UnfoldsPayload payload tree) : two.UnfoldsPayload (renumber.payload payload) tree := by
  cases unfolds with
  | type id tree done => exact .type _ tree (carries_unfold renumber one two carries first second id tree done)
  | method id tree done =>
      exact .method _ tree (carries_unfold_method renumber one two carries first second id tree done)
  | delegate id binding tree done =>
      exact .delegate _ binding tree (carries_unfold_method renumber one two carries first second id tree done)

theorem carries_symbol (key : Key) (name : String) (named : one.symbol key = .ok name) :
    two.symbol (renumber.key key) = .ok name := by
  obtain ⟨tree, unfolds, rfl⟩ := one.symbol_unfolds key name named
  have carried := carries_unfold_payload renumber one two carries first second key.payload tree unfolds
  rw [← renumber.key_payload] at carried
  rw [two.symbol_spell _ tree carried, renumber.key_kind]

theorem carries_has_method (id : MethodId) (held : one.hasMethod id = true) :
    two.hasMethod (renumber.methods id) = true := by
  obtain ⟨form, stored⟩ := (one.has_method_iff first id).mp held
  exact (two.has_method_iff second _).mpr ⟨_, carries.methods id form stored⟩

theorem carries_has_payload (payload : Payload) (held : one.hasPayload payload = true) :
    two.hasPayload (renumber.payload payload) = true := by
  cases payload with
  | type id =>
      obtain ⟨form, stored⟩ := (one.has_type_iff first id).mp held
      exact (two.has_type_iff second _).mpr ⟨_, carries.types id form stored⟩
  | method id => exact carries_has_method renumber one two carries first second id held
  | delegate record => exact carries_has_method renumber one two carries first second record.target held

theorem carries_admits (key : Key) (admitted : one.Admits key) : two.Admits (renumber.key key) := by
  refine ⟨?_, ?_⟩
  · rw [key_payload, payload_shape, key_expects]
    exact admitted.1
  · rw [key_payload]
    exact carries_has_payload renumber one two carries first second key.payload admitted.2

omit second in
-- Methods that get one handle agree, as symbols show, and they have the same traits.
theorem methods_apart (a b : MethodId) (agree : one.MethodsAgree a b)
    (same : renumber.methods a = renumber.methods b) : a = b := by
  obtain ⟨form, other, left, right, agrees⟩ := agree
  have forms := (carries.methods a form left).symm.trans (same ▸ carries.methods b other right)
  have traits : (renumber.methodForm form).traits = (renumber.methodForm other).traits :=
    congrArg MethodForm.traits (Option.some.inj forms)
  have equal : form = other := by
    obtain ⟨owner, name, arguments, parameters, result⟩ := agrees
    cases form
    cases other
    simp_all [methodForm]
  have positions := first.methodsInverse.injective a.position b.position form left (equal ▸ right)
  cases a
  cases b
  exact congrArg MethodId.mk positions

theorem key_injective (a b : Key) (left : one.hasPayload a.payload = true)
    (right : one.hasPayload b.payload = true) (same : renumber.key a = renumber.key b) : a = b := by
  obtain ⟨name, named⟩ := one.symbol_total first a left
  obtain ⟨other, also⟩ := one.symbol_total first b right
  have shared : one.symbol a = one.symbol b := by
    have image := carries_symbol renumber one two carries first second a name named
    rw [same, carries_symbol renumber one two carries first second b other also] at image
    rw [named, also, Except.ok.inj image]
  obtain ⟨kinds, agree⟩ := (one.symbol_same first a b left right).mp shared
  have payloads : renumber.payload a.payload = renumber.payload b.payload := by
    rw [← key_payload, ← key_payload, same]
  refine Catalog.key_of_kind a b kinds ?_
  generalize a.payload = source at agree payloads
  generalize b.payload = target at agree payloads
  cases agree with
  | type id => rfl
  | method a b agree =>
      rw [methods_apart renumber one two carries first a b agree (Payload.method.inj payloads)]
  | delegate a b binding agree =>
      have targets := congrArg Delegate.target (Payload.delegate.inj payloads)
      rw [methods_apart renumber one two carries first a b agree targets]

end Carried

def same : Renumbering := ⟨id, id⟩

theorem same_key (key : Key) : same.key key = key := by
  cases key with
  | stub made target => cases target <;> rfl
  | virtualUse method | body method => rfl

theorem same_type_form (form : TypeForm) : same.typeForm form = form := by
  cases form <;> simp [typeForm, same]

theorem same_method_form (form : MethodForm) : same.methodForm form = form := by
  simp [methodForm, same]

theorem same_carries (one two : Catalog) (grown : one.Extends two) : same.Carries one two where
  types id form stored := by
    rw [same_type_form]
    exact Catalog.extends_type one two grown id form stored
  methods id form stored := by
    rw [same_method_form]
    exact Catalog.extends_method one two grown id form stored

end Renumbering

theorem Catalog.extends_symbol (one two : Catalog) (grown : one.Extends two) (first : one.Sound)
    (second : two.Sound) (key : Key) (name : String) (named : one.symbol key = .ok name) :
    two.symbol key = .ok name := by
  have carried := Renumbering.carries_symbol .same one two (Renumbering.same_carries one two grown) first
    second key name named
  rwa [Renumbering.same_key] at carried

end ArtifactGraph
