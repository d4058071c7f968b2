import ArtifactGraph.Proofs.Symbols

set_option autoImplicit false

namespace ArtifactGraph

namespace Catalog

mutual

inductive Depicts (catalog : Catalog) : TypeId → TypeTree → Prop where
  | named (id : TypeId) (space name : String) (arguments : List TypeId) (trees : List TypeTree)
      (stored : catalog.type? id = some (.named space name arguments))
      (parts : DepictsAll catalog arguments trees) : Depicts catalog id (.named space name trees)
  | vector (id element : TypeId) (tree : TypeTree) (stored : catalog.type? id = some (.vector element))
      (part : Depicts catalog element tree) : Depicts catalog id (.vector tree)
  | array (id element : TypeId) (rank : Nat) (tree : TypeTree)
      (stored : catalog.type? id = some (.array element rank)) (part : Depicts catalog element tree) :
      Depicts catalog id (.array tree rank)
  | pointer (id element : TypeId) (tree : TypeTree) (stored : catalog.type? id = some (.pointer element))
      (part : Depicts catalog element tree) : Depicts catalog id (.pointer tree)
  | byRef (id element : TypeId) (tree : TypeTree) (stored : catalog.type? id = some (.byRef element))
      (part : Depicts catalog element tree) : Depicts catalog id (.byRef tree)
  | typeParameter (id : TypeId) (position : Nat)
      (stored : catalog.type? id = some (.typeParameter position)) :
      Depicts catalog id (.typeParameter position)
  | methodParameter (id : TypeId) (position : Nat)
      (stored : catalog.type? id = some (.methodParameter position)) :
      Depicts catalog id (.methodParameter position)

inductive DepictsAll (catalog : Catalog) : List TypeId → List TypeTree → Prop where
  | nil : DepictsAll catalog [] []
  | cons (id : TypeId) (tree : TypeTree) (ids : List TypeId) (trees : List TypeTree)
      (first : Depicts catalog id tree) (rest : DepictsAll catalog ids trees) :
      DepictsAll catalog (id :: ids) (tree :: trees)

end

theorem map_depicts (catalog : Catalog) (find : TypeId → Except Fault TypeTree)
    (shown : ∀ id tree, find id = .ok tree → catalog.Depicts id tree) (ids : List TypeId)
    (trees : List TypeTree) (done : ids.mapM find = .ok trees) : catalog.DepictsAll ids trees := by
  induction ids generalizing trees with
  | nil =>
      obtain rfl : [] = trees := Except.ok.inj done
      exact .nil
  | cons first rest ih =>
      obtain ⟨tree, more, here, later, rfl⟩ := (map_cons_ok_iff find first rest trees).mp done
      exact .cons first tree rest more (shown first tree here) (ih more later)

theorem unfold_within_depicts (catalog : Catalog) (depth : Nat) (id : TypeId) (tree : TypeTree)
    (done : catalog.unfoldWithin depth id = .ok tree) : catalog.Depicts id tree := by
  induction depth generalizing id tree with
  | zero => exact nomatch done
  | succ depth ih =>
      obtain ⟨form, stored, unfolds⟩ := (catalog.unfold_within_iff depth id tree).mp done
      cases unfolds with
      | named space name arguments trees parts =>
          exact .named id space name arguments trees stored (map_depicts catalog _ ih arguments trees parts)
      | vector element tree part => exact .vector id element tree stored (ih element tree part)
      | array element rank tree part => exact .array id element rank tree stored (ih element tree part)
      | pointer element tree part => exact .pointer id element tree stored (ih element tree part)
      | byRef element tree part => exact .byRef id element tree stored (ih element tree part)
      | typeParameter position => exact .typeParameter id position stored
      | methodParameter position => exact .methodParameter id position stored

-- The parts of a type come before it, so no tree is deeper than its handle.
mutual

theorem depicts_unfold_within (catalog : Catalog) (sound : catalog.Sound) (id : TypeId) (tree : TypeTree)
    (shown : catalog.Depicts id tree) (depth : Nat) (deep : id.position < depth) :
    catalog.unfoldWithin depth id = .ok tree := by
  cases depth with
  | zero => exact absurd deep (Nat.not_lt_zero _)
  | succ depth =>
      apply (catalog.unfold_within_iff depth id tree).mpr
      have below : ∀ form, catalog.type? id = some form → ∀ part ∈ form.parts, part.position < depth :=
        fun form stored part member =>
          Nat.lt_of_lt_of_le (sound.earlier id.position form stored part member) (Nat.le_of_lt_succ deep)
      cases shown with
      | named _ space name arguments trees stored parts =>
          have inner := depicts_all_map catalog sound arguments trees parts depth (below _ stored)
          exact ⟨_, stored, .named space name arguments trees inner⟩
      | vector _ element tree stored part =>
          have before := below _ stored element (List.mem_singleton_self element)
          exact ⟨_, stored, .vector element tree
            (depicts_unfold_within catalog sound element tree part depth before)⟩
      | array _ element rank tree stored part =>
          have before := below _ stored element (List.mem_singleton_self element)
          exact ⟨_, stored, .array element rank tree
            (depicts_unfold_within catalog sound element tree part depth before)⟩
      | pointer _ element tree stored part =>
          have before := below _ stored element (List.mem_singleton_self element)
          exact ⟨_, stored, .pointer element tree
            (depicts_unfold_within catalog sound element tree part depth before)⟩
      | byRef _ element tree stored part =>
          have before := below _ stored element (List.mem_singleton_self element)
          exact ⟨_, stored, .byRef element tree
            (depicts_unfold_within catalog sound element tree part depth before)⟩
      | typeParameter _ position stored => exact ⟨_, stored, .typeParameter position⟩
      | methodParameter _ position stored => exact ⟨_, stored, .methodParameter position⟩

theorem depicts_all_map (catalog : Catalog) (sound : catalog.Sound) (ids : List TypeId)
    (trees : List TypeTree) (shown : catalog.DepictsAll ids trees) (depth : Nat)
    (deep : ∀ id ∈ ids, id.position < depth) : ids.mapM (catalog.unfoldWithin depth) = .ok trees := by
  cases shown with
  | nil => rfl
  | cons id tree ids trees first rest =>
      have head := depicts_unfold_within catalog sound id tree first depth (deep id List.mem_cons_self)
      have tail := depicts_all_map catalog sound ids trees rest depth fun other member =>
        deep other (List.mem_cons_of_mem id member)
      exact (map_cons_ok_iff _ id ids _).mpr ⟨tree, trees, head, tail, rfl⟩

end

theorem depicts_iff (catalog : Catalog) (sound : catalog.Sound) (id : TypeId) (tree : TypeTree) :
    catalog.Depicts id tree ↔ catalog.unfoldType id = .ok tree :=
  ⟨fun shown => catalog.depicts_unfold_within sound id tree shown _ (Nat.lt_succ_self _),
    catalog.unfold_within_depicts _ id tree⟩

theorem depicts_held (catalog : Catalog) (sound : catalog.Sound) (id : TypeId)
    (held : catalog.hasType id = true) :
    ∃ tree, (∀ shown, catalog.Depicts id shown ↔ shown = tree) ∧
      catalog.typeName id = .ok (String.ofList tree.spell) := by
  obtain ⟨tree, done⟩ := catalog.unfold_type_total sound id held
  refine ⟨tree, fun shown => ?_, catalog.type_name_spell id tree done⟩
  rw [catalog.depicts_iff sound, done, Except.ok.injEq, eq_comm]

theorem spelling_injective (tree other : TypeTree)
    (same : String.ofList tree.spell = String.ofList other.spell) : tree = other := by
  apply And.left
  apply tree.readable other [] [] .finished .finished
  rw [String.ofList_injective same]

theorem type_names_show_structure (history past : List Description) (a b : TypeId)
    (left : (ofHistory history).hasType a = true) (right : (ofHistory past).hasType b = true) :
    ∃ tree other name another,
      (∀ shown, (ofHistory history).Depicts a shown ↔ shown = tree) ∧
      (∀ shown, (ofHistory past).Depicts b shown ↔ shown = other) ∧
      (ofHistory history).typeName a = .ok name ∧ (ofHistory past).typeName b = .ok another ∧
      (name = another ↔ tree = other) := by
  obtain ⟨tree, shown, first⟩ := depicts_held _ (history_sound history) a left
  obtain ⟨other, seen, second⟩ := depicts_held _ (history_sound past) b right
  refine ⟨tree, other, _, _, shown, seen, first, second, spelling_injective tree other, ?_⟩
  rintro rfl
  rfl

def pairs : List Description :=
  [.type (.named "" "Pair" []), .type (.named "A..B" "Key" []), .type (.named "" "Pair" [⟨1⟩, ⟨1⟩]),
    .type (.pointer ⟨2⟩), .type (.array ⟨3⟩ 12)]

def latePairs : List Description :=
  [.type (.named "A..B" "Key" []), .type (.typeParameter 12), .type (.array ⟨0⟩ 0),
    .type (.named "" "Pair" [⟨0⟩, ⟨1⟩]), .type (.named "" "Pair" [⟨0⟩, ⟨0⟩]), .type (.pointer ⟨3⟩),
    .type (.byRef ⟨3⟩), .type (.array ⟨4⟩ 12)]

def pairTree : TypeTree :=
  .array (.pointer (.named "" "Pair" [.named "A..B" "Key" [], .named "A..B" "Key" []])) 12

theorem pairs_share_name :
    (ofHistory pairs).hasType ⟨4⟩ = true ∧ (ofHistory latePairs).hasType ⟨6⟩ = true ∧
    ∃ name, (ofHistory pairs).typeName ⟨4⟩ = .ok name ∧ (ofHistory latePairs).typeName ⟨6⟩ = .ok name := by
  have left : (ofHistory pairs).hasType ⟨4⟩ = true := by decide
  have right : (ofHistory latePairs).hasType ⟨6⟩ = true := by decide
  obtain ⟨tree, other, name, another, shown, seen, first, second, same⟩ :=
    type_names_show_structure pairs latePairs ⟨4⟩ ⟨6⟩ left right
  have one : (ofHistory pairs).Depicts ⟨4⟩ pairTree := by
    have part : (ofHistory pairs).Depicts ⟨1⟩ (.named "A..B" "Key" []) := .named _ _ _ _ _ rfl .nil
    exact .array _ ⟨3⟩ _ _ rfl (.pointer _ ⟨2⟩ _ rfl
      (.named _ _ _ [⟨1⟩, ⟨1⟩] _ rfl (.cons _ _ _ _ part (.cons _ _ _ _ part .nil))))
  have two : (ofHistory latePairs).Depicts ⟨6⟩ pairTree := by
    have part : (ofHistory latePairs).Depicts ⟨0⟩ (.named "A..B" "Key" []) := .named _ _ _ _ _ rfl .nil
    exact .array _ ⟨4⟩ _ _ rfl (.pointer _ ⟨3⟩ _ rfl
      (.named _ _ _ [⟨0⟩, ⟨0⟩] _ rfl (.cons _ _ _ _ part (.cons _ _ _ _ part .nil))))
  have equal : name = another := same.mpr (((shown _).mp one).symm.trans ((seen _).mp two))
  exact ⟨left, right, name, first, equal ▸ second⟩

end Catalog

end ArtifactGraph
