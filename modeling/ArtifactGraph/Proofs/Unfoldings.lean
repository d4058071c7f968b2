import ArtifactGraph.Proofs.Catalogs
import ArtifactGraph.Proofs.Spellings

set_option autoImplicit false

namespace ArtifactGraph

section Answers

variable {Item Value Result : Type}

theorem bind_ok_iff (answer : Except Fault Value) (next : Value → Except Fault Result) (result : Result) :
    (answer >>= next) = .ok result ↔ ∃ value, answer = .ok value ∧ next value = .ok result := by
  cases answer with
  | error fault => simp [bind, Except.bind]
  | ok value => simp [bind, Except.bind]

theorem map_cons_ok_iff (find : Item → Except Fault Value) (first : Item) (rest : List Item)
    (values : List Value) :
    (first :: rest).mapM find = .ok values ↔
      ∃ value more, find first = .ok value ∧ rest.mapM find = .ok more ∧ values = value :: more := by
  simp only [List.mapM_cons, bind_ok_iff, pure, Except.pure, Except.ok.injEq]
  constructor
  · rintro ⟨value, head, more, tail, rfl⟩
    exact ⟨value, more, head, tail, rfl⟩
  · rintro ⟨value, more, head, tail, rfl⟩
    exact ⟨value, head, more, tail, rfl⟩

theorem map_total (find : Item → Except Fault Value) (items : List Item)
    (total : ∀ item ∈ items, ∃ value, find item = .ok value) : ∃ values, items.mapM find = .ok values := by
  induction items with
  | nil => exact ⟨[], rfl⟩
  | cons first rest ih =>
      obtain ⟨value, head⟩ := total first (by simp)
      obtain ⟨more, tail⟩ := ih fun item member => total item (List.mem_cons_of_mem first member)
      exact ⟨value :: more, (map_cons_ok_iff find first rest _).mpr ⟨value, more, head, tail, rfl⟩⟩

theorem map_members (find : Item → Except Fault Value) (items : List Item) (values : List Value)
    (done : items.mapM find = .ok values) : ∀ value ∈ values, ∃ item ∈ items, find item = .ok value := by
  induction items generalizing values with
  | nil =>
      rw [← Except.ok.inj done]
      exact fun _ member => nomatch member
  | cons first rest ih =>
      obtain ⟨head, more, here, later, rfl⟩ := (map_cons_ok_iff find first rest values).mp done
      intro value member
      rcases List.mem_cons.mp member with same | after
      · exact ⟨first, by simp, same ▸ here⟩
      · obtain ⟨item, within, found⟩ := ih more later value after
        exact ⟨item, List.mem_cons_of_mem first within, found⟩

theorem map_covers (find : Item → Except Fault Value) (items : List Item) (values : List Value)
    (done : items.mapM find = .ok values) : ∀ item ∈ items, ∃ value ∈ values, find item = .ok value := by
  induction items generalizing values with
  | nil => exact fun _ member => nomatch member
  | cons first rest ih =>
      obtain ⟨head, more, here, later, rfl⟩ := (map_cons_ok_iff find first rest values).mp done
      intro item member
      rcases List.mem_cons.mp member with same | after
      · exact ⟨head, by simp, same ▸ here⟩
      · obtain ⟨value, within, found⟩ := ih more later item after
        exact ⟨value, List.mem_cons_of_mem head within, found⟩

theorem map_error (find : Item → Except Fault Value) (items : List Item) (fault : Fault)
    (refused : items.mapM find = .error fault) : ∃ item ∈ items, find item = .error fault := by
  induction items with
  | nil => exact nomatch refused
  | cons first rest ih =>
      rw [List.mapM_cons] at refused
      cases head : find first with
      | error other =>
          rw [head] at refused
          exact ⟨first, by simp, head.trans (congrArg Except.error (Except.error.inj refused))⟩
      | ok value =>
          cases tail : rest.mapM find with
          | error other =>
              rw [head, tail] at refused
              obtain ⟨item, member, found⟩ := ih (tail.trans (congrArg Except.error (Except.error.inj refused)))
              exact ⟨item, List.mem_cons_of_mem first member, found⟩
          | ok more =>
              rw [head, tail] at refused
              exact nomatch refused

theorem map_injective (find seek : Item → Except Fault Value)
    (distinct : ∀ a b value, find a = .ok value → seek b = .ok value → a = b) (items others : List Item)
    (values : List Value) (left : items.mapM find = .ok values) (right : others.mapM seek = .ok values) :
    items = others := by
  induction items generalizing others values with
  | nil =>
      have empty : values = [] := (Except.ok.inj left).symm
      cases others with
      | nil => rfl
      | cons other more =>
          obtain ⟨_, _, _, _, shape⟩ := (map_cons_ok_iff seek other more values).mp right
          exact nomatch empty.symm.trans shape
  | cons first rest ih =>
      obtain ⟨value, trees, here, later, rfl⟩ := (map_cons_ok_iff find first rest values).mp left
      cases others with
      | nil => exact nomatch Except.ok.inj right
      | cons other more =>
          obtain ⟨_, _, found, remaining, shape⟩ := (map_cons_ok_iff seek other more _).mp right
          obtain ⟨rfl, rfl⟩ := List.cons.inj shape
          rw [distinct first other value here found, ih more trees later remaining]

theorem option_map_ok_iff (find : Item → Except Fault Value) (item : Option Item) (value : Option Value) :
    item.mapM find = .ok value ↔ item.toList.mapM find = .ok value.toList := by
  cases item with
  | none => cases value <;> simp [pure, Except.pure]
  | some item =>
      cases found : find item <;> cases value <;>
        simp [found, bind, Except.bind, pure, Except.pure, Functor.map, Except.map]

theorem option_map_injective (find seek : Item → Except Fault Value)
    (distinct : ∀ a b value, find a = .ok value → seek b = .ok value → a = b) (item other : Option Item)
    (value : Option Value) (left : item.mapM find = .ok value) (right : other.mapM seek = .ok value) :
    item = other := by
  have lists := map_injective find seek distinct item.toList other.toList value.toList
    ((option_map_ok_iff find item value).mp left) ((option_map_ok_iff seek other value).mp right)
  cases item <;> cases other <;> simp_all

end Answers

inductive TypeForm.Unfolds (find : TypeId → Except Fault TypeTree) : TypeForm → TypeTree → Prop where
  | named (space name : String) (arguments : List TypeId) (trees : List TypeTree)
      (parts : arguments.mapM find = .ok trees) :
      Unfolds find (.named space name arguments) (.named space name trees)
  | vector (element : TypeId) (tree : TypeTree) (part : find element = .ok tree) :
      Unfolds find (.vector element) (.vector tree)
  | array (element : TypeId) (rank : Nat) (tree : TypeTree) (part : find element = .ok tree) :
      Unfolds find (.array element rank) (.array tree rank)
  | pointer (element : TypeId) (tree : TypeTree) (part : find element = .ok tree) :
      Unfolds find (.pointer element) (.pointer tree)
  | byRef (element : TypeId) (tree : TypeTree) (part : find element = .ok tree) :
      Unfolds find (.byRef element) (.byRef tree)
  | typeParameter (position : Nat) : Unfolds find (.typeParameter position) (.typeParameter position)
  | methodParameter (position : Nat) :
      Unfolds find (.methodParameter position) (.methodParameter position)

namespace Catalog

theorem unfold_within_iff (catalog : Catalog) (depth : Nat) (id : TypeId) (tree : TypeTree) :
    catalog.unfoldWithin (depth + 1) id = .ok tree ↔
      ∃ form, catalog.type? id = some form ∧ form.Unfolds (catalog.unfoldWithin depth) tree := by
  cases stored : catalog.type? id with
  | none => simp [unfoldWithin, stored]
  | some form =>
      constructor
      · intro done
        refine ⟨form, rfl, ?_⟩
        cases form <;>
          simp only [unfoldWithin, stored, bind_ok_iff, pure, Except.pure, Except.ok.injEq] at done
        · obtain ⟨trees, parts, rfl⟩ := done
          exact .named _ _ _ trees parts
        · obtain ⟨element, part, rfl⟩ := done
          exact .vector _ element part
        · obtain ⟨element, part, rfl⟩ := done
          exact .array _ _ element part
        · obtain ⟨element, part, rfl⟩ := done
          exact .pointer _ element part
        · obtain ⟨element, part, rfl⟩ := done
          exact .byRef _ element part
        · exact done ▸ .typeParameter _
        · exact done ▸ .methodParameter _
      · rintro ⟨other, same, unfolds⟩
        obtain rfl := Option.some.inj same
        cases unfolds <;>
          simp only [unfoldWithin, stored, bind_ok_iff, pure, Except.pure, Except.ok.injEq]
        all_goals exact ⟨_, ‹_›, rfl⟩

theorem unfolds_total (find : TypeId → Except Fault TypeTree) (form : TypeForm)
    (total : ∀ part ∈ form.parts, ∃ tree, find part = .ok tree) : ∃ tree, form.Unfolds find tree := by
  cases form with
  | named space name arguments =>
      obtain ⟨trees, parts⟩ := map_total find arguments total
      exact ⟨_, .named space name arguments trees parts⟩
  | vector element =>
      obtain ⟨tree, part⟩ := total element (by simp [TypeForm.parts])
      exact ⟨_, .vector element tree part⟩
  | array element rank =>
      obtain ⟨tree, part⟩ := total element (by simp [TypeForm.parts])
      exact ⟨_, .array element rank tree part⟩
  | pointer element =>
      obtain ⟨tree, part⟩ := total element (by simp [TypeForm.parts])
      exact ⟨_, .pointer element tree part⟩
  | byRef element =>
      obtain ⟨tree, part⟩ := total element (by simp [TypeForm.parts])
      exact ⟨_, .byRef element tree part⟩
  | typeParameter position => exact ⟨_, .typeParameter position⟩
  | methodParameter position => exact ⟨_, .methodParameter position⟩

theorem unfolds_injective (find seek : TypeId → Except Fault TypeTree)
    (distinct : ∀ a b tree, find a = .ok tree → seek b = .ok tree → a = b) (form other : TypeForm)
    (tree : TypeTree) (left : form.Unfolds find tree) (right : other.Unfolds seek tree) :
    form = other := by
  cases left with
  | named space name arguments trees parts =>
      cases right with
      | named _ _ others _ found => rw [map_injective find seek distinct arguments others trees parts found]
  | vector element tree part =>
      cases right with
      | vector other _ found => rw [distinct element other tree part found]
  | array element rank tree part =>
      cases right with
      | array other _ _ found => rw [distinct element other tree part found]
  | pointer element tree part =>
      cases right with
      | pointer other _ found => rw [distinct element other tree part found]
  | byRef element tree part =>
      cases right with
      | byRef other _ found => rw [distinct element other tree part found]
  | typeParameter position =>
      cases right
      rfl
  | methodParameter position =>
      cases right
      rfl

section Sound

variable (catalog : Catalog) (sound : catalog.Sound)

include sound

theorem type_injective (a b : TypeId) (form : TypeForm) (left : catalog.type? a = some form)
    (right : catalog.type? b = some form) : a = b := by
  have positions := sound.typesInverse.injective a.position b.position form left right
  cases a
  cases b
  exact congrArg TypeId.mk positions

theorem part_held (id part : TypeId) (form : TypeForm) (stored : catalog.type? id = some form)
    (member : part ∈ form.parts) : part.position < id.position ∧ catalog.hasType part = true := by
  have before := sound.earlier id.position form stored part member
  have bound := Ledger.get_size _ _ _ stored
  have fit := sound.typesFit
  refine ⟨before, ?_⟩
  simp only [hasType, TypeId.isValid, Bool.and_eq_true, bne_iff_ne, decide_eq_true_eq]
  omega

theorem unfold_within_total (depth : Nat) (id : TypeId) (deep : id.position < depth)
    (held : catalog.hasType id = true) : ∃ tree, catalog.unfoldWithin depth id = .ok tree := by
  induction depth generalizing id with
  | zero => exact absurd deep (Nat.not_lt_zero _)
  | succ depth ih =>
      obtain ⟨form, stored⟩ := (catalog.has_type_iff sound id).mp held
      obtain ⟨tree, unfolds⟩ := unfolds_total (catalog.unfoldWithin depth) form fun part member => by
        obtain ⟨before, partHeld⟩ := part_held catalog sound id part form stored member
        exact ih part (by omega) partHeld
      exact ⟨tree, (catalog.unfold_within_iff depth id tree).mpr ⟨form, stored, unfolds⟩⟩

theorem unfold_within_injective (depth : Nat) (a b : TypeId) (other : Nat) (tree : TypeTree)
    (left : catalog.unfoldWithin depth a = .ok tree) (right : catalog.unfoldWithin other b = .ok tree) :
    a = b := by
  induction depth generalizing a b other tree with
  | zero => exact nomatch left
  | succ depth ih =>
      cases other with
      | zero => exact nomatch right
      | succ other =>
          obtain ⟨form, stored, unfolds⟩ := (catalog.unfold_within_iff depth a tree).mp left
          obtain ⟨another, found, same⟩ := (catalog.unfold_within_iff other b tree).mp right
          have forms := unfolds_injective _ _ (fun a b part first second => ih a b other part first second)
            form another tree unfolds same
          exact type_injective catalog sound a b form stored (forms ▸ found)

theorem unfold_within_named (depth : Nat) (id : TypeId) (tree : TypeTree)
    (done : catalog.unfoldWithin depth id = .ok tree) : tree.Named := by
  induction depth generalizing id tree with
  | zero => exact nomatch done
  | succ depth ih =>
      obtain ⟨form, stored, unfolds⟩ := (catalog.unfold_within_iff depth id tree).mp done
      have formed := sound.typesFormed form (Ledger.get_mem _ _ _ stored)
      cases unfolds with
      | named space name arguments trees parts =>
          intro _ given _ shape empty
          obtain ⟨_, rfl, _⟩ := TypeTree.named.inj shape
          simp [TypeForm.defect?, empty] at formed
      | vector element tree part => exact ih element tree part
      | array element rank tree part => exact ih element tree part
      | pointer element tree part => exact ih element tree part
      | byRef element tree part => exact ih element tree part
      | typeParameter position => exact fun _ _ _ shape => nomatch shape
      | methodParameter position => exact fun _ _ _ shape => nomatch shape

theorem unfold_type_total (id : TypeId) (held : catalog.hasType id = true) :
    ∃ tree, catalog.unfoldType id = .ok tree :=
  unfold_within_total catalog sound _ id (Nat.lt_succ_self _) held

theorem unfold_type_missing (id : TypeId) (missing : catalog.hasType id = false) :
    catalog.unfoldType id = .error (.undescribed (.type id)) := by
  simp only [unfoldType, unfoldWithin, catalog.type_missing sound id missing]

theorem unfold_type_injective (a b : TypeId) (tree : TypeTree) (left : catalog.unfoldType a = .ok tree)
    (right : catalog.unfoldType b = .ok tree) : a = b :=
  unfold_within_injective catalog sound _ a b _ tree left right

theorem unfold_type_named (id : TypeId) (tree : TypeTree) (done : catalog.unfoldType id = .ok tree) :
    tree.Named :=
  unfold_within_named catalog sound _ id tree done

theorem unfold_list_total (ids : List TypeId) (held : ∀ id ∈ ids, catalog.hasType id = true) :
    ∃ trees, ids.mapM catalog.unfoldType = .ok trees :=
  map_total catalog.unfoldType ids fun id member => unfold_type_total catalog sound id (held id member)

theorem unfold_list_injective (ids others : List TypeId) (trees : List TypeTree)
    (left : ids.mapM catalog.unfoldType = .ok trees) (right : others.mapM catalog.unfoldType = .ok trees) :
    ids = others :=
  map_injective _ _ (unfold_type_injective catalog sound) ids others trees left right

theorem unfold_list_named (ids : List TypeId) (trees : List TypeTree)
    (done : ids.mapM catalog.unfoldType = .ok trees) : ∀ tree ∈ trees, tree.Named := by
  intro tree member
  obtain ⟨id, _, found⟩ := map_members _ _ _ done tree member
  exact unfold_type_named catalog sound id tree found

end Sound

end Catalog

structure MethodForm.Unfolds (find : TypeId → Except Fault TypeTree) (form : MethodForm)
    (tree : MethodTree) : Prop where
  owner : find form.owner = .ok tree.owner
  name : form.name = tree.name
  arguments : form.arguments.mapM find = .ok tree.arguments
  parameters : form.parameters.mapM find = .ok tree.parameters
  result : form.result.mapM find = .ok tree.result

structure MethodForm.Agrees (a b : MethodForm) : Prop where
  owner : a.owner = b.owner
  name : a.name = b.name
  arguments : a.arguments = b.arguments
  parameters : a.parameters = b.parameters
  result : a.result = b.result

namespace Catalog

theorem unfold_method_iff (catalog : Catalog) (id : MethodId) (tree : MethodTree) :
    catalog.unfoldMethod id = .ok tree ↔
      ∃ form, catalog.method? id = some form ∧ form.Unfolds catalog.unfoldType tree := by
  unfold unfoldMethod
  cases stored : catalog.method? id with
  | none => simp
  | some form =>
      simp only [bind_ok_iff, pure, Except.pure, Except.ok.injEq, Option.some.injEq, exists_eq_left']
      constructor
      · rintro ⟨_, owner, _, arguments, _, parameters, _, result, rfl⟩
        exact ⟨owner, rfl, arguments, parameters, result⟩
      · intro unfolds
        exact ⟨_, unfolds.owner, _, unfolds.arguments, _, unfolds.parameters, _, unfolds.result,
          by rw [unfolds.name]⟩

section Sound

variable (catalog : Catalog) (sound : catalog.Sound)

include sound

theorem unfold_method_total (id : MethodId) (held : catalog.hasMethod id = true) :
    ∃ tree, catalog.unfoldMethod id = .ok tree := by
  obtain ⟨form, stored⟩ := (catalog.has_method_iff sound id).mp held
  have described := sound.described form (Ledger.get_mem _ _ _ stored)
  obtain ⟨owner, first⟩ := unfold_type_total catalog sound form.owner
    (described form.owner (by simp [MethodForm.parts]))
  obtain ⟨arguments, second⟩ := unfold_list_total catalog sound form.arguments fun part member =>
    described part (by simp [MethodForm.parts, member])
  obtain ⟨parameters, third⟩ := unfold_list_total catalog sound form.parameters fun part member =>
    described part (by simp [MethodForm.parts, member])
  have last : ∃ result, form.result.mapM catalog.unfoldType = .ok result := by
    cases given : form.result with
    | none => exact ⟨none, rfl⟩
    | some part =>
        obtain ⟨tree, found⟩ := unfold_type_total catalog sound part
          (described part (by simp [MethodForm.parts, given]))
        exact ⟨some tree, (option_map_ok_iff _ _ _).mpr ((map_cons_ok_iff _ _ _ _).mpr
          ⟨tree, [], found, rfl, rfl⟩)⟩
  obtain ⟨result, fourth⟩ := last
  exact ⟨⟨owner, form.name, arguments, parameters, result⟩,
    (catalog.unfold_method_iff id _).mpr ⟨form, stored, first, rfl, second, third, fourth⟩⟩

theorem unfold_method_missing (id : MethodId) (missing : catalog.hasMethod id = false) :
    catalog.unfoldMethod id = .error (.undescribed (.method id)) := by
  simp only [unfoldMethod, catalog.method_missing sound id missing]

theorem unfold_method_named (id : MethodId) (tree : MethodTree)
    (done : catalog.unfoldMethod id = .ok tree) : tree.Named := by
  obtain ⟨form, _, unfolds⟩ := (catalog.unfold_method_iff id tree).mp done
  have results := (option_map_ok_iff _ _ _).mp unfolds.result
  refine ⟨unfold_list_named catalog sound _ _ unfolds.parameters, fun result member => ?_⟩
  exact unfold_list_named catalog sound _ _ results result (by simpa using member)

theorem unfolds_agree (form other : MethodForm) (tree another : MethodTree)
    (left : form.Unfolds catalog.unfoldType tree) (right : other.Unfolds catalog.unfoldType another) :
    tree = another ↔ form.Agrees other := by
  have distinct := unfold_type_injective catalog sound
  constructor
  · rintro rfl
    refine ⟨distinct _ _ _ left.owner right.owner, left.name.trans right.name.symm,
      unfold_list_injective catalog sound _ _ _ left.arguments right.arguments,
      unfold_list_injective catalog sound _ _ _ left.parameters right.parameters,
      option_map_injective _ _ distinct _ _ _ left.result right.result⟩
  · rintro ⟨owner, name, arguments, parameters, result⟩
    obtain ⟨owner', name', arguments', parameters', result'⟩ := left
    rw [owner, right.owner] at owner'
    rw [arguments, right.arguments] at arguments'
    rw [parameters, right.parameters] at parameters'
    rw [result, right.result] at result'
    cases tree
    cases another
    simp only [MethodTree.mk.injEq]
    exact ⟨(Except.ok.inj owner').symm, (name'.symm.trans name).trans right.name,
      (Except.ok.inj arguments').symm, (Except.ok.inj parameters').symm, (Except.ok.inj result').symm⟩

end Sound

end Catalog

end ArtifactGraph
