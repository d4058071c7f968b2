import ArtifactGraph.Proofs.Escapes

set_option autoImplicit false

namespace ArtifactGraph

open ArtifactGraph.Symbol

inductive Suffix where
  | vector
  | array (rank : Nat)
  | pointer
  | byRef

namespace Suffix

def wrap (element : TypeTree) : Suffix → TypeTree
  | .vector => .vector element
  | .array rank => .array element rank
  | .pointer => .pointer element
  | .byRef => .byRef element

def spell : Suffix → List Char
  | .vector => marker 'Z'
  | .array rank => marker 'A' ++ digits rank
  | .pointer => marker 'P'
  | .byRef => marker 'R'

end Suffix

namespace TypeTree

def stem : TypeTree → TypeTree
  | .vector element | .array element _ | .pointer element | .byRef element => element.stem
  | tree => tree

def suffixes : TypeTree → List Suffix
  | .vector element => element.suffixes ++ [.vector]
  | .array element rank => element.suffixes ++ [.array rank]
  | .pointer element => element.suffixes ++ [.pointer]
  | .byRef element => element.suffixes ++ [.byRef]
  | _ => []

theorem wrap_stem (tree : TypeTree) : tree.suffixes.foldl Suffix.wrap tree.stem = tree := by
  cases tree with
  | named | typeParameter | methodParameter => rfl
  | vector element | array element | pointer element | byRef element =>
      simp only [stem, suffixes, List.foldl_append, List.foldl_cons, List.foldl_nil, wrap_stem element,
        Suffix.wrap]

theorem spell_stem (tree : TypeTree) :
    tree.spell = tree.stem.spell ++ tree.suffixes.flatMap Suffix.spell := by
  cases tree with
  | named | typeParameter | methodParameter => simp [stem, suffixes]
  | vector element | array element | pointer element | byRef element =>
      simp [stem, suffixes, spell, spell_stem element, Suffix.spell]

theorem stem_cases (tree : TypeTree) :
    (∃ space name arguments, tree.stem = .named space name arguments) ∨
    (∃ position, tree.stem = .typeParameter position) ∨
    (∃ position, tree.stem = .methodParameter position) := by
  cases tree with
  | named space name arguments => exact .inl ⟨space, name, arguments, rfl⟩
  | typeParameter position => exact .inr (.inl ⟨position, rfl⟩)
  | methodParameter position => exact .inr (.inr ⟨position, rfl⟩)
  | vector element | array element | pointer element | byRef element => exact element.stem_cases

def closers : List Char := ['C', 'E', 'F', 'V']

def enders : List Char := ['Z', 'A', 'P', 'R'] ++ closers

theorem suffixes_follow (suffixes : List Suffix) (text : List Char) (follows : Follows closers text) :
    Follows enders (suffixes.flatMap Suffix.spell ++ text) := by
  cases suffixes with
  | nil => exact follows_more closers enders text (List.subset_append_right _ _) follows
  | cons suffix rest =>
      rw [List.flatMap_cons, List.append_assoc]
      cases suffix with
      | vector => exact .marker 'Z' _ (by decide)
      | array rank => exact .marker 'A' _ (by decide)
      | pointer => exact .marker 'P' _ (by decide)
      | byRef => exact .marker 'R' _ (by decide)

theorem suffix_injective (a b : Suffix) (s t : List Char) (left : Follows enders s)
    (right : Follows enders t) (same : a.spell ++ s = b.spell ++ t) : a = b ∧ s = t := by
  cases a <;> cases b <;>
    simp only [Suffix.spell, marker, List.cons_append, List.nil_append, List.cons.injEq, true_and] at same
  case vector.vector => exact ⟨rfl, same⟩
  case pointer.pointer => exact ⟨rfl, same⟩
  case byRef.byRef => exact ⟨rfl, same⟩
  case array.array m n =>
      obtain ⟨rfl, rest⟩ := digits_injective m n enders s t left right same
      exact ⟨rfl, rest⟩
  all_goals exact absurd same.1 (by decide)

theorem suffix_not_closed (suffix : Suffix) (rest text : List Char) (follows : Follows closers text) :
    suffix.spell ++ rest ≠ text := by
  rintro rfl
  cases suffix with
  | vector | pointer | byRef => exact absurd (follows_marker_first _ _ _ follows) (by decide)
  | array rank =>
      rw [Suffix.spell, List.append_assoc] at follows
      exact absurd (follows_marker_first _ _ _ follows) (by decide)

theorem suffixes_injective (a b : List Suffix) (s t : List Char) (left : Follows closers s)
    (right : Follows closers t) (same : a.flatMap Suffix.spell ++ s = b.flatMap Suffix.spell ++ t) :
    a = b ∧ s = t := by
  induction a generalizing b with
  | nil =>
      cases b with
      | nil => exact ⟨rfl, same⟩
      | cons suffix rest =>
          rw [List.flatMap_cons, List.append_assoc] at same
          exact absurd same.symm (suffix_not_closed suffix _ s left)
  | cons first more ih =>
      rw [List.flatMap_cons, List.append_assoc] at same
      cases b with
      | nil => exact absurd same (suffix_not_closed first _ t right)
      | cons suffix rest =>
          rw [List.flatMap_cons, List.append_assoc] at same
          obtain ⟨rfl, remaining⟩ := suffix_injective first suffix _ _
            (suffixes_follow more s left) (suffixes_follow rest t right) same
          obtain ⟨rfl, ends⟩ := ih rest remaining
          exact ⟨rfl, ends⟩

def Readable (tree : TypeTree) : Prop :=
  ∀ (other : TypeTree) (s t : List Char), Follows closers s → Follows closers t →
    tree.spell ++ s = other.spell ++ t → tree = other ∧ s = t

def StemReadable (tree : TypeTree) : Prop :=
  ∀ (other : TypeTree) (s t : List Char), Follows enders s → Follows enders t →
    tree.stem.spell ++ s = other.stem.spell ++ t → tree.stem = other.stem ∧ s = t

theorem readable_of_stem (tree : TypeTree) (stems : tree.StemReadable) : tree.Readable := by
  intro other s t left right same
  rw [spell_stem tree, spell_stem other, List.append_assoc, List.append_assoc] at same
  obtain ⟨stemSame, rest⟩ := stems other _ _ (suffixes_follow _ s left) (suffixes_follow _ t right) same
  obtain ⟨suffixSame, ends⟩ := suffixes_injective _ _ s t left right rest
  refine ⟨?_, ends⟩
  rw [← wrap_stem tree, stemSame, suffixSame, wrap_stem]

section Arguments

variable (trees : List TypeTree) (readable : ∀ tree ∈ trees, tree.Readable)

theorem more_follow (closer : Char) (rest : List Char) (member : closer ∈ closers) :
    Follows closers (spellMore trees ++ (marker closer ++ rest)) := by
  cases trees with
  | nil => exact .marker closer rest member
  | cons tree others =>
      rw [spellMore, List.append_assoc, List.append_assoc]
      exact .marker 'C' _ (by decide)

include readable in
theorem more_injective (others : List TypeTree) (closer : Char) (s t : List Char)
    (member : closer ∈ closers) (last : closer ≠ 'C')
    (same : spellMore trees ++ (marker closer ++ s) = spellMore others ++ (marker closer ++ t)) :
    trees = others ∧ s = t := by
  induction trees generalizing others with
  | nil =>
      cases others with
      | nil => exact ⟨rfl, List.append_cancel_left same⟩
      | cons other rest =>
          simp only [spellMore, marker, List.cons_append, List.nil_append, List.cons.injEq, true_and] at same
          exact absurd same.1 last
  | cons tree more ih =>
      cases others with
      | nil =>
          simp only [spellMore, marker, List.cons_append, List.nil_append, List.cons.injEq, true_and] at same
          exact absurd same.1.symm last
      | cons other rest =>
          simp only [spellMore, List.append_assoc] at same
          obtain ⟨rfl, remaining⟩ := readable tree (by simp) other _ _ (more_follow more closer s member)
            (more_follow rest closer t member) (List.append_cancel_left same)
          obtain ⟨rfl, ends⟩ := ih (fun part found => readable part (List.mem_cons_of_mem tree found))
            rest remaining
          exact ⟨rfl, ends⟩

theorem arguments_follow (letters text : List Char) (follows : Follows letters text) :
    Follows ('G' :: letters) (spellArguments trees ++ text) := by
  cases trees with
  | nil => exact follows_more letters _ text (List.subset_cons_self _ _) follows
  | cons tree others =>
      simp only [spellArguments, List.append_assoc]
      exact .marker 'G' _ (by simp)

theorem no_arguments (tree : TypeTree) (letters s text : List Char) (absent : 'G' ∉ letters)
    (follows : Follows letters text) : spellArguments (tree :: trees) ++ s ≠ text := by
  rintro rfl
  simp only [spellArguments, List.append_assoc] at follows
  exact absent (follows_marker_first _ _ _ follows)

include readable in
theorem arguments_injective (others : List TypeTree) (letters s t : List Char) (absent : 'G' ∉ letters)
    (left : Follows letters s) (right : Follows letters t)
    (same : spellArguments trees ++ s = spellArguments others ++ t) : trees = others ∧ s = t := by
  cases trees with
  | nil =>
      cases others with
      | nil => exact ⟨rfl, same⟩
      | cons other rest => exact absurd same.symm (no_arguments rest other letters t s absent left)
  | cons tree more =>
      cases others with
      | nil => exact absurd same (no_arguments more tree letters s t absent right)
      | cons other rest =>
          simp only [spellArguments, List.append_assoc] at same
          obtain ⟨rfl, remaining⟩ := readable tree (by simp) other _ _ (more_follow more 'E' s (by decide))
            (more_follow rest 'E' t (by decide)) (List.append_cancel_left same)
          obtain ⟨rfl, ends⟩ := more_injective more
            (fun part found => readable part (List.mem_cons_of_mem tree found)) rest 'E' s t
            (by decide) (by decide) remaining
          exact ⟨rfl, ends⟩

end Arguments

theorem named_spell (space name : String) (arguments : List TypeTree) (text : List Char) :
    (named space name arguments).spell ++ text =
      (spaceGlyphs space ++ name.toList.map some).flatMap glyph ++ (spellArguments arguments ++ text) := by
  rw [spell, space_spell, escape_glyphs, List.flatMap_append, List.append_assoc]

theorem type_parameter_spell (position : Nat) (text : List Char) :
    (typeParameter position).spell ++ text = marker 'T' ++ (digits position ++ text) := by
  rw [spell, List.append_assoc]

theorem method_parameter_spell (position : Nat) (text : List Char) :
    (methodParameter position).spell ++ text = marker 'M' ++ (digits position ++ text) := by
  rw [spell, List.append_assoc]

theorem named_ends (arguments : List TypeTree) (text : List Char) (follows : Follows enders text) :
    readGlyph (spellArguments arguments ++ text) = none :=
  read_follows ('G' :: enders) _ (by decide) (arguments_follow arguments enders text follows)

theorem named_not_parameter (space name : String) (arguments : List TypeTree) (letter : Char)
    (s t : List Char) (follows : Follows enders s) (other : letter ∉ 'G' :: enders) (plain : letter ≠ '_') :
    (named space name arguments).spell ++ s ≠ marker letter ++ t := by
  rw [named_spell]
  intro same
  have bare : readGlyph (marker letter ++ t) = none :=
    read_follows [letter] _ (by simpa using plain.symm) (.marker letter t (by simp))
  obtain ⟨_, rest⟩ := glyphs_injective _ [] _ _ (named_ends arguments s follows) bare same
  have after := arguments_follow arguments enders s follows
  rw [rest] at after
  exact other (follows_marker_first _ _ _ after)

theorem named_readable (space name : String) (arguments : List TypeTree)
    (readable : ∀ tree ∈ arguments, tree.Readable) : (named space name arguments).StemReadable := by
  intro other s t left right same
  rcases other.stem_cases with ⟨otherSpace, otherName, otherArguments, shape⟩ | ⟨position, shape⟩ |
    ⟨position, shape⟩
  · rw [shape] at same ⊢
    simp only [stem] at same ⊢
    rw [named_spell, named_spell] at same
    obtain ⟨path, rest⟩ := glyphs_injective _ _ _ _ (named_ends arguments s left)
      (named_ends otherArguments t right) same
    obtain ⟨rfl, rfl⟩ := path_injective space otherSpace name otherName path
    obtain ⟨rfl, ends⟩ := arguments_injective arguments readable otherArguments enders s t (by decide)
      left right rest
    exact ⟨rfl, ends⟩
  · rw [shape, type_parameter_spell] at same
    exact absurd same (named_not_parameter _ _ _ 'T' s _ left (by decide) (by decide))
  · rw [shape, method_parameter_spell] at same
    exact absurd same (named_not_parameter _ _ _ 'M' s _ left (by decide) (by decide))

theorem type_parameter_readable (position : Nat) : (typeParameter position).StemReadable := by
  intro other s t left right same
  rcases other.stem_cases with ⟨space, name, arguments, shape⟩ | ⟨place, shape⟩ | ⟨place, shape⟩
  · simp only [shape, stem, type_parameter_spell] at same
    exact absurd same.symm (named_not_parameter _ _ _ 'T' t _ right (by decide) (by decide))
  · simp only [shape, stem, type_parameter_spell, List.append_cancel_left_eq] at same ⊢
    obtain ⟨rfl, ends⟩ := digits_injective _ _ enders s t left right same
    exact ⟨rfl, ends⟩
  · simp [shape, stem, spell, marker] at same

theorem method_parameter_readable (position : Nat) : (methodParameter position).StemReadable := by
  intro other s t left right same
  rcases other.stem_cases with ⟨space, name, arguments, shape⟩ | ⟨place, shape⟩ | ⟨place, shape⟩
  · simp only [shape, stem, method_parameter_spell] at same
    exact absurd same.symm (named_not_parameter _ _ _ 'M' t _ right (by decide) (by decide))
  · simp [shape, stem, spell, marker] at same
  · simp only [shape, stem, method_parameter_spell, List.append_cancel_left_eq] at same ⊢
    obtain ⟨rfl, ends⟩ := digits_injective _ _ enders s t left right same
    exact ⟨rfl, ends⟩

-- Suffixes do not change the stem, so only arguments are entered.
mutual

theorem stem_readable (tree : TypeTree) : tree.StemReadable := by
  cases tree with
  | named space name arguments => exact named_readable space name arguments (all_readable arguments)
  | vector element => exact stem_readable element
  | array element rank => exact stem_readable element
  | pointer element => exact stem_readable element
  | byRef element => exact stem_readable element
  | typeParameter position => exact type_parameter_readable position
  | methodParameter position => exact method_parameter_readable position

theorem all_readable (trees : List TypeTree) : ∀ tree ∈ trees, tree.Readable := by
  cases trees with
  | nil => exact fun _ member => nomatch member
  | cons first rest =>
      intro tree member
      rcases List.mem_cons.mp member with same | later
      · exact same ▸ first.readable_of_stem (stem_readable first)
      · exact all_readable rest tree later

end

theorem readable (tree : TypeTree) : tree.Readable := tree.readable_of_stem tree.stem_readable

-- Types that have a name begin with a glyph, so a list that is empty shows.
def Named (tree : TypeTree) : Prop :=
  ∀ space name arguments, tree.stem = .named space name arguments → name ≠ ""

theorem named_not_closed (tree : TypeTree) (named : tree.Named) (s text : List Char)
    (follows : Follows closers text) : tree.spell ++ s ≠ text := by
  rintro rfl
  rw [spell_stem, List.append_assoc] at follows
  rcases tree.stem_cases with ⟨space, name, arguments, shape⟩ | ⟨position, shape⟩ | ⟨position, shape⟩
  · have unread := read_follows closers _ (by decide) follows
    rw [shape, named_spell] at unread
    cases glyphs : spaceGlyphs space ++ name.toList.map some with
    | nil =>
        have empty : name.toList = [] := by simpa using (List.append_eq_nil_iff.mp glyphs).2
        exact named space name arguments shape (String.toList_injective empty)
    | cons first rest =>
        rw [glyphs, List.flatMap_cons, List.append_assoc, read_glyph] at unread
        exact nomatch unread
  · rw [shape, spell, List.append_assoc] at follows
    exact absurd (follows_marker_first _ _ _ follows) (by decide)
  · rw [shape, spell, List.append_assoc] at follows
    exact absurd (follows_marker_first _ _ _ follows) (by decide)

theorem list_injective (a b : List TypeTree) (left : ∀ tree ∈ a, tree.Named) (right : ∀ tree ∈ b, tree.Named)
    (closer : Char) (s t : List Char) (member : closer ∈ closers) (last : closer ≠ 'C')
    (same : spellList a ++ (marker closer ++ s) = spellList b ++ (marker closer ++ t)) :
    a = b ∧ s = t := by
  cases a with
  | nil =>
      cases b with
      | nil => exact ⟨rfl, List.append_cancel_left same⟩
      | cons first rest =>
          simp only [spellList, List.nil_append, List.append_assoc] at same
          exact absurd same.symm (first.named_not_closed (right first (by simp)) _ _
            (.marker closer s member))
  | cons tree more =>
      cases b with
      | nil =>
          simp only [spellList, List.nil_append, List.append_assoc] at same
          exact absurd same (tree.named_not_closed (left tree (by simp)) _ _ (.marker closer t member))
      | cons first rest =>
          simp only [spellList, List.append_assoc] at same
          obtain ⟨rfl, remaining⟩ := tree.readable first _ _ (more_follow more closer s member)
            (more_follow rest closer t member) same
          obtain ⟨rfl, ends⟩ := more_injective more (all_readable more) rest closer s t member last remaining
          exact ⟨rfl, ends⟩

theorem result_injective (a b : Option TypeTree) (left : ∀ tree ∈ a, tree.Named)
    (right : ∀ tree ∈ b, tree.Named) (s t : List Char)
    (same : a.elim [] spell ++ (marker 'E' ++ s) = b.elim [] spell ++ (marker 'E' ++ t)) :
    a = b ∧ s = t := by
  have ending : ∀ rest, Follows closers (marker 'E' ++ rest) := fun rest => .marker 'E' rest (by decide)
  cases a with
  | none =>
      cases b with
      | none => exact ⟨rfl, List.append_cancel_left same⟩
      | some other => exact absurd same.symm (other.named_not_closed (right other rfl) _ _ (ending s))
  | some tree =>
      cases b with
      | none => exact absurd same (tree.named_not_closed (left tree rfl) _ _ (ending t))
      | some other =>
          obtain ⟨rfl, rest⟩ := tree.readable other _ _ (ending s) (ending t) same
          exact ⟨rfl, List.append_cancel_left rest⟩

end TypeTree

def MethodTree.Named (tree : MethodTree) : Prop :=
  (∀ parameter ∈ tree.parameters, parameter.Named) ∧ ∀ result ∈ tree.result, result.Named

theorem MethodTree.spell_split (tree : MethodTree) (text : List Char) :
    tree.spell ++ text = tree.owner.spell ++ (marker 'F' ++ (escape tree.name.toList ++
      (TypeTree.spellArguments tree.arguments ++ (marker 'S' ++ (TypeTree.spellList tree.parameters ++
        (marker 'V' ++ (tree.result.elim [] TypeTree.spell ++ (marker 'E' ++ text)))))))) := by
  simp only [spell, List.append_assoc]

theorem MethodTree.spell_injective (a b : MethodTree) (left : a.Named) (right : b.Named) (s t : List Char)
    (same : a.spell ++ s = b.spell ++ t) : a = b ∧ s = t := by
  rw [spell_split, spell_split] at same
  obtain ⟨owners, rest⟩ := a.owner.readable b.owner _ _ (.marker 'F' _ (by decide))
    (.marker 'F' _ (by decide)) same
  have ending : ∀ (arguments : List TypeTree) (text : List Char),
      readLetter (TypeTree.spellArguments arguments ++ (marker 'S' ++ text)) = none :=
    fun arguments text => read_letter_follows ['G', 'S'] _
      (TypeTree.arguments_follow arguments ['S'] _ (.marker 'S' text (by decide)))
  obtain ⟨names, rest⟩ := escape_injective _ _ _ _ (ending _ _) (ending _ _) (List.append_cancel_left rest)
  obtain ⟨arguments, rest⟩ := TypeTree.arguments_injective a.arguments (TypeTree.all_readable a.arguments)
    b.arguments ['S'] _ _ (by decide) (.marker 'S' _ (by decide)) (.marker 'S' _ (by decide)) rest
  obtain ⟨parameters, rest⟩ := TypeTree.list_injective a.parameters b.parameters left.1 right.1 'V' _ _
    (by decide) (by decide) (List.append_cancel_left rest)
  obtain ⟨results, ends⟩ := TypeTree.result_injective a.result b.result left.2 right.2 s t rest
  refine ⟨?_, ends⟩
  cases a
  cases b
  simp only [MethodTree.mk.injEq]
  exact ⟨owners, String.toList_injective names, arguments, parameters, results⟩

namespace PayloadTree

def Named : PayloadTree → Prop
  | .type _ => True
  | .method tree | .delegate tree _ => tree.Named

theorem code_injective (a b : Binding) (same : a.code.toList = b.code.toList) : a = b := by
  have all : ∀ a ∈ Binding.all, ∀ b ∈ Binding.all, a.code.toList = b.code.toList → a = b := by decide
  exact all a (by cases a <;> decide) b (by cases b <;> decide) same

-- A type ends where the owner of a method would go on, and a method where the
-- binding of a delegate would.
theorem type_not_method (tree : TypeTree) (other : MethodTree) (text : List Char) :
    tree.spell ≠ other.spell ++ text := by
  intro same
  rw [MethodTree.spell_split, ← List.append_nil tree.spell] at same
  obtain ⟨_, rest⟩ := tree.readable other.owner [] _ .finished (.marker 'F' _ (by decide)) same
  exact nomatch rest

theorem method_not_delegate (a b : MethodTree) (left : a.Named) (right : b.Named) (text : List Char) :
    a.spell ≠ b.spell ++ (marker 'D' ++ text) := by
  intro same
  rw [← List.append_nil a.spell] at same
  exact nomatch (MethodTree.spell_injective a b left right [] _ same).2

theorem spell_injective (a b : PayloadTree) (left : a.Named) (right : b.Named)
    (same : a.spell = b.spell) : a = b := by
  cases a with
  | type tree =>
      cases b with
      | type other =>
          have read := tree.readable other [] [] .finished .finished (by simpa [spell] using same)
          rw [read.1]
      | method other => exact absurd same (by simpa [spell] using type_not_method tree other [])
      | delegate other binding =>
          rw [spell, spell, List.append_assoc] at same
          exact absurd same (type_not_method tree other _)
  | method tree =>
      cases b with
      | type other => exact absurd same.symm (by simpa [spell] using type_not_method other tree [])
      | method other =>
          have read := MethodTree.spell_injective tree other left right [] [] (by simpa [spell] using same)
          rw [read.1]
      | delegate other binding =>
          rw [spell, spell, List.append_assoc] at same
          exact absurd same (method_not_delegate tree other left right _)
  | delegate tree binding =>
      cases b with
      | type other =>
          rw [spell, spell, List.append_assoc] at same
          exact absurd same.symm (type_not_method other tree _)
      | method other =>
          rw [spell, spell, List.append_assoc] at same
          exact absurd same.symm (method_not_delegate other tree right left _)
      | delegate other another =>
          rw [spell, spell, List.append_assoc, List.append_assoc] at same
          obtain ⟨rfl, rest⟩ := MethodTree.spell_injective tree other left right _ _ same
          rw [code_injective binding another (List.append_cancel_left rest)]

end PayloadTree

theorem Kind.tag_injective (a b : Kind) (s t : List Char)
    (same : a.tag.toList ++ s = b.tag.toList ++ t) : a = b ∧ s = t := by
  have free : ∀ a ∈ Kind.all, ∀ b ∈ Kind.all, a.tag.toList.isPrefixOf b.tag.toList = true → a = b := by
    decide
  have tags : a = b := by
    rcases List.append_eq_append_iff.mp same with ⟨more, longer, _⟩ | ⟨more, longer, _⟩
    · exact free a a.mem_all b b.mem_all (List.isPrefixOf_iff_prefix.mpr ⟨more, longer.symm⟩)
    · exact (free b b.mem_all a a.mem_all (List.isPrefixOf_iff_prefix.mpr ⟨more, longer.symm⟩)).symm
  exact ⟨tags, List.append_cancel_left (tags ▸ same)⟩

theorem Label.spell_injective (a b : Label) (left : a.payload.Named) (right : b.payload.Named)
    (same : a.spell = b.spell) : a = b := by
  obtain ⟨kinds, rest⟩ := Kind.tag_injective a.kind b.kind _ _ same
  have payloads := PayloadTree.spell_injective a.payload b.payload left right rest
  cases a
  cases b
  simp only [Label.mk.injEq]
  exact ⟨kinds, payloads⟩

end ArtifactGraph
