import ArtifactGraph.Proofs.Symbols

set_option autoImplicit false

/-! In names, markers and numbers a `$` never stands last. So no run of `$` goes on
from one piece of a symbol into the next, and it is no longer in a symbol than in
its pieces: one in names, two in markers. -/
namespace ArtifactGraph

open ArtifactGraph.Symbol

structure Tidy (run : Nat) (text : List Char) : Prop where
  legal : ∀ c ∈ text, isPlain c = true ∨ c = '$'
  short : ¬ List.replicate run '$' <:+: text
  closed : text.getLast? ≠ some '$'

namespace Tidy

theorem append {run : Nat} {a b : List Char} (left : Tidy run a) (right : Tidy run b) :
    Tidy run (a ++ b) where
  legal c member := (List.mem_append.mp member).elim (left.legal c) (right.legal c)
  short within := by
    rcases List.infix_append_iff.mp within with before | after | ⟨head, tail, split, ends, starts⟩
    · exact left.short before
    · exact right.short after
    · -- What the run has before the junction would be the end of `a`, which is no `$`.
      rcases head.eq_nil_or_concat with rfl | ⟨more, last, rfl⟩
      · rw [List.nil_append] at split
        exact right.short (split ▸ starts.isInfix)
      · have member : last ∈ List.replicate run '$' := by simp [split]
        obtain ⟨before, rfl⟩ := ends
        exact left.closed (by simp [List.eq_of_mem_replicate member])
  closed last := by
    rw [List.getLast?_append] at last
    rcases Option.or_eq_some_iff.mp last with after | ⟨_, before⟩
    · exact right.closed after
    · exact left.closed before

theorem mono {run : Nat} {text : List Char} (tidy : Tidy run text) (more : Nat) (wider : run ≤ more) :
    Tidy more text where
  legal := tidy.legal
  short within := by
    obtain ⟨rest, rfl⟩ := Nat.exists_eq_add_of_le wider
    rw [← List.replicate_append_replicate] at within
    exact tidy.short ((List.prefix_append _ _).isInfix.trans within)
  closed := tidy.closed

theorem plain_not_dollar (text : List Char) (plain : ∀ c ∈ text, isPlain c = true) : '$' ∉ text :=
  fun member => absurd (plain '$' member) (by decide)

theorem plain_text (text : List Char) (plain : ∀ c ∈ text, isPlain c = true) : Tidy 1 text where
  legal c member := .inl (plain c member)
  short within := plain_not_dollar text plain (within.subset (by simp))
  closed last := plain_not_dollar text plain (List.mem_of_getLast? last)

theorem empty_text (run : Nat) : Tidy (run + 1) [] :=
  (plain_text [] (by simp)).mono (run + 1) (by omega)

theorem led_text (run : Nat) (first : Char) (rest : List Char)
    (plain : ∀ c ∈ first :: rest, isPlain c = true) :
    Tidy (run + 1) (List.replicate run '$' ++ first :: rest) where
  legal c member := by
    rcases List.mem_append.mp member with dollar | other
    · exact .inr (List.eq_of_mem_replicate dollar)
    · exact .inl (plain c other)
  short within := by
    have counted := within.sublist.count_le '$'
    rw [List.count_append, List.count_replicate_self, List.count_replicate_self,
      List.count_eq_zero.mpr (plain_not_dollar _ plain)] at counted
    omega
  closed last := by
    rw [List.getLast?_append] at last
    rcases Option.or_eq_some_iff.mp last with after | ⟨absent, _⟩
    · exact plain_not_dollar _ plain (List.mem_of_getLast? after)
    · simp at absent

theorem flat_map {Item : Type} (run : Nat) (write : Item → List Char) (items : List Item)
    (each : ∀ item, Tidy (run + 1) (write item)) : Tidy (run + 1) (items.flatMap write) := by
  induction items with
  | nil => exact empty_text run
  | cons item rest ih => exact (each item).append ih

theorem hex_digits_plain (width value : Nat) : ∀ c ∈ hexDigits width value, isPlain c = true := by
  have digit : ∀ value : Fin 16, isPlain (Nat.digitChar value) = true := by decide
  induction width generalizing value with
  | zero => exact fun _ member => nomatch member
  | succ width ih =>
      intro c member
      rcases List.mem_append.mp member with upper | lower
      · exact ih (value / 16) c upper
      · exact List.mem_singleton.mp lower ▸ digit ⟨value % 16, Nat.mod_lt _ (by decide)⟩

theorem escaped_char (c : Char) : Tidy 2 (escapeChar c) := by
  unfold escapeChar
  by_cases simple : isPlain c = true
  · rw [if_pos simple]
    exact (plain_text [c] (by simpa using simple)).mono 2 (by decide)
  · rw [if_neg simple]
    cases known : punctuation.lookup c with
    | some code =>
        obtain ⟨first, second⟩ := code
        have all : ∀ entry ∈ punctuation, isPlain entry.2.1 = true ∧ isPlain entry.2.2 = true := by decide
        exact led_text 1 first [second] (by simpa using all _ (lookup_member c first second known))
    | none =>
        by_cases narrow : c.toNat ≤ 0xFF
        · simp only [if_pos narrow]
          cases digits : hexDigits 2 c.toNat with
          | nil => exact nomatch digits ▸ hex_digits_length 2 c.toNat
          | cons first rest => exact led_text 1 first rest (digits ▸ hex_digits_plain 2 c.toNat)
        · simp only [if_neg narrow]
          refine led_text 1 'U' (hexDigits 6 c.toNat) fun other member => ?_
          rcases List.mem_cons.mp member with rfl | digit
          · decide
          · exact hex_digits_plain 6 c.toNat other digit

theorem escaped_name (name : List Char) : Tidy 2 (escape name) := flat_map 1 escapeChar name escaped_char

end Tidy

namespace Symbol

def identifier (name : String) : String := appendIdentifier "" name

def Breaks (text : String) : Prop := text = "" ∨ ['$', '$'] <+: text.toList

theorem breaks_unread (text : String) (breaks : Breaks text) : readLetter text.toList = none := by
  rcases breaks with rfl | ⟨rest, shape⟩
  · rfl
  · rw [← shape]
    exact read_letter_marked rest

theorem to_list_identifier (name : String) : (identifier name).toList = escape name.toList := by
  simp [identifier, appendIdentifier]

theorem identifiers_delimited :
    (∀ buffer name, appendIdentifier buffer name = buffer ++ identifier name) ∧
    (∀ a b, identifier (a ++ b) = identifier a ++ identifier b) ∧
    (∀ name, Tidy 2 (identifier name).toList) ∧
    ∀ a b rest more, Breaks rest → Breaks more → identifier a ++ rest = identifier b ++ more →
      a = b ∧ rest = more := by
  refine ⟨fun buffer name => ?_, fun a b => ?_, fun name => ?_, fun a b rest more left right same => ?_⟩
  · simp [identifier, appendIdentifier]
  · simp [identifier, appendIdentifier, escape_append]
  · rw [to_list_identifier]
    exact Tidy.escaped_name name.toList
  · have texts := congrArg String.toList same
    rw [String.toList_append, String.toList_append, to_list_identifier, to_list_identifier] at texts
    obtain ⟨names, ends⟩ := escape_injective _ _ _ _ (breaks_unread rest left) (breaks_unread more right) texts
    exact ⟨String.toList_injective names, String.toList_injective ends⟩

theorem brackets_delimited :
    Breaks "$$E" ∧ identifier "<T>" ++ "$$E" = "$LTT$GT$$E" ∧
    ∀ name rest, Breaks rest → identifier name ++ rest = "$LTT$GT$$E" → name = "<T>" ∧ rest = "$$E" := by
  have ending : Breaks "$$E" := .inr (by decide)
  have spelled : identifier "<T>" ++ "$$E" = "$LTT$GT$$E" := by decide
  refine ⟨ending, spelled, fun name rest breaks same => ?_⟩
  exact identifiers_delimited.2.2.2 name "<T>" rest "$$E" breaks ending (same.trans spelled.symm)

end Symbol

namespace Tidy

theorem marker_text (letter : Char) (plain : isPlain letter = true) : Tidy 3 (marker letter) :=
  led_text 2 letter [] (by simpa using plain)

theorem digits_text (n : Nat) : Tidy 3 (digits n) := by
  refine (plain_text (digits n) fun c member => ?_).mono 3 (by decide)
  have digit : c.isDigit = true := Nat.isDigit_of_mem_toDigits (by decide) (by decide) member
  simp [isPlain, Char.isAlphanum, digit]

theorem name_text (name : List Char) : Tidy 3 (escape name) := (escaped_name name).mono 3 (by decide)

theorem space_text (space : String) : Tidy 3 (spellSpace space) := by
  rw [space_spell]
  refine flat_map 2 glyph (spaceGlyphs space) fun symbol => ?_
  cases symbol with
  | none => exact marker_text '_' (by decide)
  | some c => exact (escaped_char c).mono 3 (by decide)

mutual

theorem type_text (tree : TypeTree) : Tidy 3 tree.spell := by
  cases tree with
  | named space name arguments =>
      exact ((space_text space).append (name_text name.toList)).append (arguments_text arguments)
  | vector element => exact (type_text element).append (marker_text 'Z' (by decide))
  | array element rank =>
      exact ((type_text element).append (marker_text 'A' (by decide))).append (digits_text rank)
  | pointer element => exact (type_text element).append (marker_text 'P' (by decide))
  | byRef element => exact (type_text element).append (marker_text 'R' (by decide))
  | typeParameter position => exact (marker_text 'T' (by decide)).append (digits_text position)
  | methodParameter position => exact (marker_text 'M' (by decide)).append (digits_text position)

theorem arguments_text (trees : List TypeTree) : Tidy 3 (TypeTree.spellArguments trees) := by
  cases trees with
  | nil => exact empty_text 2
  | cons first rest =>
      have opened := (marker_text 'G' (by decide)).append (type_text first)
      exact (opened.append (more_text rest)).append (marker_text 'E' (by decide))

theorem more_text (trees : List TypeTree) : Tidy 3 (TypeTree.spellMore trees) := by
  cases trees with
  | nil => exact empty_text 2
  | cons next rest =>
      exact ((marker_text 'C' (by decide)).append (type_text next)).append (more_text rest)

end

theorem list_text (trees : List TypeTree) : Tidy 3 (TypeTree.spellList trees) := by
  cases trees with
  | nil => exact empty_text 2
  | cons first rest => exact (type_text first).append (more_text rest)

theorem result_text (result : Option TypeTree) : Tidy 3 (result.elim [] TypeTree.spell) := by
  cases result with
  | none => exact empty_text 2
  | some tree => exact type_text tree

theorem method_text (tree : MethodTree) : Tidy 3 tree.spell := by
  have owner := (type_text tree.owner).append (marker_text 'F' (by decide))
  have named := (owner.append (name_text tree.name.toList)).append (arguments_text tree.arguments)
  have signed := (named.append (marker_text 'S' (by decide))).append (list_text tree.parameters)
  have answered := (signed.append (marker_text 'V' (by decide))).append (result_text tree.result)
  exact answered.append (marker_text 'E' (by decide))

theorem payload_text (tree : PayloadTree) : Tidy 3 tree.spell := by
  cases tree with
  | type tree => exact type_text tree
  | method tree => exact method_text tree
  | delegate tree binding =>
      have code : binding.code.toList.all isPlain = true := by cases binding <;> decide
      exact ((method_text tree).append (marker_text 'D' (by decide))).append
        ((plain_text _ (List.all_eq_true.mp code)).mono 3 (by decide))

theorem label_text (label : Label) : Tidy 3 label.spell := by
  have tags : ∀ kind ∈ Kind.all, kind.tag.toList.all isPlain = true := by decide +kernel
  have tag := List.all_eq_true.mp (tags label.kind label.kind.mem_all)
  exact ((plain_text _ tag).mono 3 (by decide)).append (payload_text label.payload)

end Tidy

namespace Catalog

theorem symbols_legal (catalog : Catalog) (key : Key) (name : String) (named : catalog.symbol key = .ok name) :
    name ≠ "" ∧ Tidy 3 name.toList ∧ isSymbol name = true ∧
      ∀ kind : Kind, kind.tag.toList <+: name.toList ↔ kind = key.kind := by
  obtain ⟨tree, _, rfl⟩ := catalog.symbol_unfolds key name named
  rw [String.toList_ofList]
  have tagged : key.kind.tag.toList <+: Label.spell ⟨key.kind, tree⟩ := List.prefix_append _ _
  refine ⟨?_, Tidy.label_text _, ?_, fun kind => ⟨?_, ?_⟩⟩
  · intro empty
    have none : Label.spell ⟨key.kind, tree⟩ = [] := by simpa using empty
    have some : ∀ kind ∈ Kind.all, kind.tag.toList ≠ [] := by decide
    exact some key.kind key.kind.mem_all (List.prefix_nil.mp (none ▸ tagged))
  · rw [isSymbol, String.toList_ofList, List.any_eq_true]
    exact ⟨key.kind, key.kind.mem_all, List.isPrefixOf_iff_prefix.mpr tagged⟩
  · rintro ⟨rest, same⟩
    exact (Kind.tag_injective kind key.kind rest tree.spell same).1
  · rintro rfl
    exact tagged

def foreign : List Description :=
  [.type (.named "A..B" "Preis\u20ac" []), .type (.array ⟨0⟩ 12),
    .method { owner := ⟨1⟩, name := "<Main>$", parameters := [⟨0⟩] }]

def foreignTree : MethodTree :=
  ⟨.array (.named "A..B" "Preis\u20ac" []) 12, "<Main>$", [], [.named "A..B" "Preis\u20ac" []], none⟩

def foreignKey : Key := .stub .delegate (.delegate ⟨⟨0⟩, .openStatic⟩)

def foreignSymbol : String :=
  "__DelegateCtor_A$$_$$_B$$_Preis$U0020ac$$A12$$F$LTMain$GT$24$$SA$$_$$_B$$_Preis$U0020ac$$V$$E$$DOS"

theorem foreign_symbol_legal :
    (ofHistory foreign).symbol foreignKey = .ok foreignSymbol ∧
    Tidy 3 foreignSymbol.toList ∧ isSymbol foreignSymbol = true ∧
    ∀ kind : Kind, kind.tag.toList <+: foreignSymbol.toList ↔ kind = .stub .delegate := by
  have done : (ofHistory foreign).unfoldMethod ⟨0⟩ = .ok foreignTree := rfl
  have named : (ofHistory foreign).symbol foreignKey = .ok foreignSymbol := by
    rw [symbol_spell _ foreignKey _ (.delegate ⟨0⟩ .openStatic foreignTree done)]
    exact congrArg Except.ok (by decide +kernel)
  have legal := symbols_legal (ofHistory foreign) foreignKey foreignSymbol named
  exact ⟨named, legal.2⟩

end Catalog

end ArtifactGraph
