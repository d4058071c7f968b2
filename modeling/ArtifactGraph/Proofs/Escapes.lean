import ArtifactGraph.Symbol.Spelling

set_option autoImplicit false

namespace ArtifactGraph.Symbol

def glyph : Option Char → List Char
  | none => marker '_'
  | some c => escapeChar c

def digitValue (digit : Char) : Nat :=
  if digit.toNat < 58 then digit.toNat - 48 else digit.toNat - 87

def hexValue (digits : List Char) : Nat :=
  digits.foldl (fun value digit => 16 * value + digitValue digit) 0

theorem digit_value_digit (value : Nat) (small : value < 16) : digitValue (Nat.digitChar value) = value := by
  have all : ∀ value : Fin 16, digitValue (Nat.digitChar value) = value := by decide
  exact all ⟨value, small⟩

theorem hex_value_digits (width value : Nat) (fits : value < Nat.pow 16 width) :
    hexValue (hexDigits width value) = value := by
  induction width generalizing value with
  | zero => exact (Nat.lt_one_iff.mp fits).symm
  | succ width ih =>
      have grown : Nat.pow 16 (width + 1) = Nat.pow 16 width * 16 := rfl
      have upper := ih (value / 16) (by omega)
      rw [hexValue] at upper
      rw [hexDigits, hexValue, List.foldl_append, upper, List.foldl_cons, List.foldl_nil,
        digit_value_digit (value % 16) (by omega)]
      omega

def readEscape : List Char → Option (Option Char × List Char)
  | first :: second :: rest =>
      if first = '$' then
        if second = '_' then some (none, rest) else none
      else if first = 'U' then
        some (some (Char.ofNat (hexValue (second :: rest.take 5))), rest.drop 5)
      else
        match punctuation.find? fun entry => entry.2 == (first, second) with
        | some entry => some (some entry.1, rest)
        | none => some (some (Char.ofNat (hexValue [first, second])), rest)
  | _ => none

def readGlyph : List Char → Option (Option Char × List Char)
  | [] => none
  | first :: rest => if first = '$' then readEscape rest else some (some first, rest)

theorem lookup_member (c first second : Char) (known : punctuation.lookup c = some (first, second)) :
    (c, first, second) ∈ punctuation := by
  obtain ⟨before, after, split, _⟩ := List.lookup_eq_some_iff.mp known
  simp [split]

theorem read_punctuation (c first second : Char) (rest : List Char)
    (known : punctuation.lookup c = some (first, second)) :
    readEscape (first :: second :: rest) = some (some c, rest) := by
  have all : ∀ entry ∈ punctuation, entry.2.1 ≠ '$' ∧ entry.2.1 ≠ 'U' ∧
      punctuation.find? (fun other => other.2 == entry.2) = some entry := by decide
  obtain ⟨plain, narrow, found⟩ := all _ (lookup_member c first second known)
  rw [readEscape, if_neg plain, if_neg narrow, found]

theorem read_narrow (value : Nat) (rest : List Char) (fits : value ≤ 0xFF) :
    readEscape (hexDigits 2 value ++ rest) = some (some (Char.ofNat value), rest) := by
  have digits : hexDigits 2 value =
      [Nat.digitChar (value / 16 % 16), Nat.digitChar (value % 16)] := by
    simp [hexDigits]
  have all : ∀ digit : Fin 16, Nat.digitChar digit ≠ '$' ∧ Nat.digitChar digit ≠ 'U' ∧
      ∀ entry ∈ punctuation, entry.2.1 ≠ Nat.digitChar digit := by decide
  obtain ⟨plain, narrow, other⟩ := all ⟨value / 16 % 16, by omega⟩
  have absent : punctuation.find? (fun entry =>
      entry.2 == (Nat.digitChar (value / 16 % 16), Nat.digitChar (value % 16))) = none := by
    refine List.find?_eq_none.mpr fun entry member same => ?_
    exact other entry member (congrArg Prod.fst (eq_of_beq same))
  have whole := hex_value_digits 2 value (Nat.lt_of_le_of_lt fits (by decide))
  rw [digits] at whole ⊢
  simp only [List.cons_append, List.nil_append, readEscape]
  rw [if_neg plain, if_neg narrow, absent]
  simp only [whole]

theorem read_wide (value : Nat) (rest : List Char) (fits : value < Nat.pow 16 6) :
    readEscape ('U' :: hexDigits 6 value ++ rest) = some (some (Char.ofNat value), rest) := by
  have whole := hex_value_digits 6 value fits
  have long := hex_digits_length 6 value
  cases digits : hexDigits 6 value with
  | nil => exact nomatch digits ▸ long
  | cons first more =>
      rw [digits] at whole long
      have five : more.length = 5 := by simpa using long
      simp only [List.cons_append, readEscape]
      rw [if_neg (by decide), if_pos trivial, List.take_left' five, List.drop_left' five, whole]

theorem char_small (c : Char) : c.toNat < Nat.pow 16 6 := by
  have limit : Nat.pow 16 6 = 16777216 := rfl
  have valid := c.valid
  have same : c.toNat = c.val.toNat := rfl
  simp only [UInt32.isValidChar, Nat.isValidChar] at valid
  omega

theorem read_glyph (symbol : Option Char) (rest : List Char) :
    readGlyph (glyph symbol ++ rest) = some (symbol, rest) := by
  cases symbol with
  | none => rfl
  | some c =>
      simp only [glyph, escapeChar]
      by_cases plain : isPlain c = true
      · have other : c ≠ '$' := by
          rintro rfl
          exact absurd plain (by decide)
        rw [if_pos plain, List.singleton_append, readGlyph, if_neg other]
      · rw [if_neg plain]
        cases known : punctuation.lookup c with
        | some code =>
            obtain ⟨first, second⟩ := code
            simp only [List.cons_append, List.nil_append, readGlyph, if_true]
            exact read_punctuation c first second rest known
        | none =>
            by_cases narrow : c.toNat ≤ 0xFF
            · simp only [if_pos narrow, List.cons_append, readGlyph, if_true]
              rw [read_narrow c.toNat rest narrow, Char.ofNat_toNat]
            · simp only [if_neg narrow, List.cons_append, readGlyph, if_true]
              rw [← List.cons_append, read_wide c.toNat rest (char_small c), Char.ofNat_toNat]

inductive Follows (letters : List Char) : List Char → Prop where
  | finished : Follows letters []
  | marker (letter : Char) (rest : List Char) (member : letter ∈ letters) :
      Follows letters (marker letter ++ rest)

theorem follows_more (letters more text : List Char) (within : letters ⊆ more)
    (follows : Follows letters text) : Follows more text := by
  cases follows with
  | finished => exact .finished
  | marker letter rest member => exact .marker letter rest (within member)

theorem follows_marker_first (letters : List Char) (letter : Char) (rest : List Char)
    (follows : Follows letters (marker letter ++ rest)) : letter ∈ letters := by
  generalize same : marker letter ++ rest = text at follows
  cases follows with
  | finished => exact nomatch same
  | marker other rest member =>
      simp only [marker, List.cons_append, List.cons.injEq, true_and] at same
      exact same.1 ▸ member

theorem read_follows (letters : List Char) (text : List Char) (plain : '_' ∉ letters)
    (follows : Follows letters text) : readGlyph text = none := by
  cases follows with
  | finished => rfl
  | marker letter rest member =>
      have other : letter ≠ '_' := fun same => plain (same ▸ member)
      simp [Symbol.marker, readGlyph, readEscape, other]

theorem codes_injective {Item : Type} (write : Item → List Char)
    (read : List Char → Option (Item × List Char))
    (reads : ∀ item rest, read (write item ++ rest) = some (item, rest)) (a b : List Item) (s t : List Char)
    (left : read s = none) (right : read t = none) (same : a.flatMap write ++ s = b.flatMap write ++ t) :
    a = b ∧ s = t := by
  induction a generalizing b with
  | nil =>
      cases b with
      | nil => exact ⟨rfl, same⟩
      | cons item rest =>
          rw [List.flatMap_nil, List.nil_append, List.flatMap_cons, List.append_assoc] at same
          rw [same, reads] at left
          exact nomatch left
  | cons first more ih =>
      rw [List.flatMap_cons, List.append_assoc] at same
      cases b with
      | nil =>
          rw [List.flatMap_nil, List.nil_append] at same
          rw [← same, reads] at right
          exact nomatch right
      | cons item rest =>
          rw [List.flatMap_cons, List.append_assoc] at same
          have found := congrArg read same
          rw [reads, reads, Option.some.injEq, Prod.mk.injEq] at found
          obtain ⟨rfl, remaining⟩ := found
          obtain ⟨rfl, ends⟩ := ih rest remaining
          exact ⟨rfl, ends⟩

theorem glyphs_injective (a b : List (Option Char)) (s t : List Char) (left : readGlyph s = none)
    (right : readGlyph t = none) (same : a.flatMap glyph ++ s = b.flatMap glyph ++ t) :
    a = b ∧ s = t :=
  codes_injective glyph readGlyph read_glyph a b s t left right same

-- A name has no segments, so every marker ends it.
def readLetter (text : List Char) : Option (Char × List Char) :=
  (readGlyph text).bind fun (symbol, rest) => symbol.map (·, rest)

theorem read_letter (c : Char) (rest : List Char) : readLetter (escapeChar c ++ rest) = some (c, rest) := by
  rw [readLetter, ← glyph, read_glyph]
  rfl

theorem read_letter_marked (text : List Char) : readLetter ('$' :: '$' :: text) = none := by
  cases text with
  | nil => rfl
  | cons letter rest => by_cases segment : letter = '_' <;> simp [readLetter, readGlyph, readEscape, segment]

theorem read_letter_follows (letters text : List Char) (follows : Follows letters text) :
    readLetter text = none := by
  cases follows with
  | finished => rfl
  | marker letter rest member => exact read_letter_marked (letter :: rest)

theorem escape_injective (a b : List Char) (s t : List Char) (left : readLetter s = none)
    (right : readLetter t = none) (same : escape a ++ s = escape b ++ t) : a = b ∧ s = t :=
  codes_injective escapeChar readLetter read_letter a b s t left right same

theorem escape_glyphs (name : List Char) : escape name = (name.map some).flatMap glyph := by
  rw [List.flatMap_map]
  rfl

def spaceGlyphs (space : String) : List (Option Char) :=
  if space.isEmpty then []
  else space.toList.map (fun c => if c = '.' then none else some c) ++ [none]

theorem space_spell (space : String) : spellSpace space = (spaceGlyphs space).flatMap glyph := by
  unfold spellSpace spaceGlyphs
  by_cases empty : space.isEmpty = true
  · rw [if_pos empty, if_pos empty]
    rfl
  · rw [if_neg empty, if_neg empty, List.flatMap_append, List.flatMap_map]
    have letters : (fun c => glyph (if c = '.' then none else some c)) =
        fun c => if c = '.' then marker '_' else escapeChar c := by
      funext c
      by_cases dot : c = '.' <;> simp [dot, glyph]
    rw [letters]
    rfl

theorem space_glyphs_end (space : String) (before : List (Option Char)) (c : Char) :
    spaceGlyphs space ≠ before ++ [some c] := by
  unfold spaceGlyphs
  split
  · simp
  · intro same
    exact nomatch (List.append_inj' same rfl).2

theorem space_glyphs_injective (a b : String) (same : spaceGlyphs a = spaceGlyphs b) : a = b := by
  unfold spaceGlyphs at same
  by_cases left : a.isEmpty = true <;> by_cases right : b.isEmpty = true
  · exact (String.isEmpty_iff.mp left).trans (String.isEmpty_iff.mp right).symm
  · simp [left, right] at same
  · simp [left, right] at same
  · rw [if_neg left, if_neg right] at same
    have letters := (List.append_inj' same rfl).1
    have distinct : ∀ c d : Char, (if c = '.' then none else some c) = (if d = '.' then none else some d) →
        c = d := by
      intro c d
      split <;> split <;> simp_all
    exact String.toList_injective ((List.map_inj_right distinct).mp letters)

-- No glyph of a name ends a segment, so the last one that does ends the space.
theorem path_no_longer (a b : List (Option Char)) (name other : List Char)
    (closed : ∀ before c, b ≠ before ++ [some c]) (more : List (Option Char))
    (longer : b = a ++ more) (rest : name.map some = more ++ other.map some) : more = [] := by
  rcases more.eq_nil_or_concat with none | ⟨before, last, shape⟩
  · exact none
  · rw [List.concat_eq_append] at shape
    have member : last ∈ name.map some := by simp [rest, shape]
    obtain ⟨c, _, rfl⟩ := List.mem_map.mp member
    rw [shape, ← List.append_assoc] at longer
    exact absurd longer (closed _ c)

theorem path_injective (space other name another : String)
    (same : spaceGlyphs space ++ name.toList.map some = spaceGlyphs other ++ another.toList.map some) :
    space = other ∧ name = another := by
  have spaces : spaceGlyphs space = spaceGlyphs other := by
    rcases List.append_eq_append_iff.mp same with ⟨more, longer, rest⟩ | ⟨more, longer, rest⟩
    · rw [longer, path_no_longer _ _ _ _ (space_glyphs_end other) more longer rest, List.append_nil]
    · rw [longer, path_no_longer _ _ _ _ (space_glyphs_end space) more longer rest, List.append_nil]
  rw [spaces, List.append_cancel_left_eq] at same
  exact ⟨space_glyphs_injective space other spaces,
    String.toList_injective ((List.map_inj_right fun _ _ => Option.some.inj).mp same)⟩

theorem take_digits (n : Nat) (letters text : List Char) (follows : Follows letters text) :
    (digits n ++ text).takeWhile Char.isDigit = digits n := by
  have none : text.takeWhile Char.isDigit = [] := by
    cases follows with
    | finished => rfl
    | marker letter rest member => rfl
  have all : ∀ c ∈ digits n, c.isDigit = true := fun c member =>
    Nat.isDigit_of_mem_toDigits (by decide) (by decide) member
  rw [List.takeWhile_append_of_pos all, none, List.append_nil]

theorem digits_injective (m n : Nat) (letters s t : List Char) (left : Follows letters s)
    (right : Follows letters t) (same : digits m ++ s = digits n ++ t) : m = n ∧ s = t := by
  have numbers : digits m = digits n := by
    rw [← take_digits m letters s left, same, take_digits n letters t right]
  refine ⟨?_, List.append_cancel_left (numbers ▸ same)⟩
  have values := congrArg (fun text => Nat.ofDigitChars 10 text 0) numbers
  simpa only [digits, Nat.ofDigitChars_ten_toDigits] using values

end ArtifactGraph.Symbol
