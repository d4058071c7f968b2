import ArtifactGraph.Proofs.Reports
import Mathlib.Data.List.Basic

set_option autoImplicit false

namespace ArtifactGraph

namespace Drawing

def substitute (c : Char) (code text : List Char) : List Char :=
  text.flatMap fun other => if other = c then code else [other]

-- Backslashes have to be doubled first, or the backslash of a quote would be doubled too.
theorem quoted_in_turn (text : List Char) : text.flatMap quoteChar =
    substitute '\x22' ['\x5c', '\x22'] (substitute '\x5c' ['\x5c', '\x5c'] text) := by
  rw [substitute, substitute, List.flatMap_assoc]
  refine List.flatMap_congr fun c _ => ?_
  by_cases slash : c = '\x5c'
  · simp [slash, quoteChar]
  · by_cases mark : c = '\x22' <;> simp [slash, mark, quoteChar]

def prepend (c : Char) (answer : Option (List Char × List Char)) : Option (List Char × List Char) :=
  answer.map fun (text, rest) => (c :: text, rest)

def readQuoted : List Char → Option (List Char × List Char)
  | [] => none
  | '\x22' :: rest => some ([], rest)
  | '\x5c' :: '\x5c' :: rest => prepend '\x5c' (readQuoted rest)
  | '\x5c' :: '\x22' :: rest => prepend '\x22' (readQuoted rest)
  | c :: rest => prepend c (readQuoted rest)

def readField (before : String) (text : List Char) : Option (String × List Char) := do
  let text ← text.dropPrefix? (before.toList ++ ['\x22'])
  let (content, rest) ← readQuoted text
  return (String.ofList content, rest)

def readEdge (text : List Char) : Option (Line × List Char) := do
  let (source, text) ← readField "    " text
  let (target, text) ← readField " -> " text
  let (reason, text) ← readField " [label=" text
  let rest ← text.dropPrefix? "];\n".toList
  return (⟨source, target, reason⟩, rest)

section Shorter

theorem drop_shorter (text mark rest : List Char) (found : text.dropPrefix? mark = some rest) :
    rest.length ≤ text.length := by
  obtain ⟨dropped, rfl, _⟩ := List.dropPrefix?_eq_some_iff.mp found
  simp

theorem prepend_some (c : Char) (answer : Option (List Char × List Char)) (content rest : List Char)
    (found : prepend c answer = some (content, rest)) : ∃ text, answer = some (text, rest) := by
  obtain ⟨⟨text, more⟩, read, same⟩ := Option.map_eq_some_iff.mp found
  exact ⟨text, (Prod.mk.inj same).2 ▸ read⟩

theorem read_quoted_shorter (text content rest : List Char) (found : readQuoted text = some (content, rest)) :
    rest.length < text.length := by
  fun_induction readQuoted text generalizing content with
  | case1 => exact nomatch found
  | case2 more =>
      obtain ⟨_, rfl⟩ := Prod.mk.inj (Option.some.inj found)
      exact Nat.lt_succ_self _
  | case3 more ih | case4 more ih =>
      obtain ⟨text, read⟩ := prepend_some _ _ content rest found
      exact Nat.lt_succ_of_lt (Nat.lt_succ_of_lt (ih text read))
  | case5 c more _ _ _ ih =>
      obtain ⟨text, read⟩ := prepend_some _ _ content rest found
      exact Nat.lt_succ_of_lt (ih text read)

theorem read_field_shorter (before : String) (text : List Char) (content : String) (rest : List Char)
    (found : readField before text = some (content, rest)) : rest.length < text.length := by
  simp only [readField, Option.bind_eq_bind, Option.bind_eq_some_iff] at found
  obtain ⟨opened, dropped, ⟨quoted, more⟩, read, same⟩ := found
  obtain rfl : more = rest := (Prod.mk.inj (Option.some.inj same)).2
  exact Nat.lt_of_lt_of_le (read_quoted_shorter opened quoted more read) (drop_shorter text _ opened dropped)

theorem read_edge_shorter (text : List Char) (line : Line) (rest : List Char)
    (found : readEdge text = some (line, rest)) : rest.length < text.length := by
  simp only [readEdge, Option.bind_eq_bind, Option.bind_eq_some_iff] at found
  obtain ⟨⟨source, first⟩, one, ⟨target, second⟩, two, ⟨reason, third⟩, three, last, four, same⟩ := found
  obtain rfl : last = rest := (Prod.mk.inj (Option.some.inj same)).2
  have a := read_field_shorter _ text source first one
  have b := read_field_shorter _ first target second two
  have c := read_field_shorter _ second reason third three
  have d := drop_shorter third _ last four
  omega

end Shorter

def closing : List Char := "\x7d\n".toList

def readEdges (text : List Char) : Option (List Line) :=
  if text = closing then some []
  else
    match _found : readEdge text with
    | none => none
    | some (line, rest) => (readEdges rest).map (line :: ·)
termination_by text.length
decreasing_by exact read_edge_shorter text line rest _found

def read (text : String) : Option (List Line) :=
  (text.toList.dropPrefix? "digraph dependencies \x7b\n".toList).bind readEdges

theorem drop_append (mark rest : List Char) : (mark ++ rest).dropPrefix? mark = some rest :=
  List.dropPrefix?_append_of_beq rest BEq.rfl

theorem read_quoted (text rest : List Char) :
    readQuoted (text.flatMap quoteChar ++ '\x22' :: rest) = some (text, rest) := by
  induction text with
  | nil => rfl
  | cons c text ih =>
      rw [List.flatMap_cons, List.append_assoc]
      by_cases slash : c = '\x5c'
      · simp [slash, quoteChar, readQuoted, ih, prepend]
      · by_cases mark : c = '\x22'
        · simp [mark, quoteChar, readQuoted, ih, prepend]
        · simp [slash, mark, quoteChar, readQuoted, ih, prepend]

theorem read_field (before text : String) (rest : List Char) :
    readField before (before.toList ++ ((quote text).toList ++ rest)) = some (text, rest) := by
  have opened : before.toList ++ ((quote text).toList ++ rest) =
      (before.toList ++ ['\x22']) ++ (text.toList.flatMap quoteChar ++ '\x22' :: rest) := by
    simp [quote]
  rw [readField, opened, drop_append]
  simp [read_quoted]

theorem read_edge (line : Line) (rest : List Char) : readEdge (line.dot.toList ++ rest) = some (line, rest) := by
  simp only [readEdge, Line.dot, String.toList_append, List.append_assoc, read_field, drop_append,
    Option.bind_eq_bind, Option.bind_some]
  rfl

theorem read_edges_cons (text : List Char) (line : Line) (rest : List Char)
    (found : readEdge text = some (line, rest)) : readEdges text = (readEdges rest).map (line :: ·) := by
  have opened : text ≠ closing := by
    rintro rfl
    exact nomatch found
  rw [readEdges, if_neg opened]
  split
  case h_1 unread => exact nomatch unread.symm.trans found
  case h_2 other more read =>
      obtain ⟨rfl, rfl⟩ := Prod.mk.inj (Option.some.inj (read.symm.trans found))
      rfl

theorem read_edges (lines : List Line) : readEdges (lines.flatMap (·.dot.toList) ++ closing) = some lines := by
  induction lines with
  | nil => rw [List.flatMap_nil, List.nil_append, readEdges, if_pos rfl]
  | cons line lines ih =>
      rw [List.flatMap_cons, List.append_assoc, read_edges_cons _ line _ (read_edge line _), ih]
      rfl

theorem read_drawing (lines : List Line) :
    read ("digraph dependencies \x7b\n" ++ String.join (lines.map Line.dot) ++ "\x7d\n") = some lines := by
  rw [read, String.toList_append, String.toList_append, String.toList_join, List.append_assoc, drop_append,
    List.flatMap_map]
  exact read_edges lines

end Drawing

namespace Report

theorem dot_reads (report : Report) (catalog : Catalog) :
    (report.dot catalog).map Drawing.read = (report.lines catalog).map some := by
  rw [dot_lines]
  cases report.lines catalog with
  | error fault => rfl
  | ok lines => exact congrArg Except.ok (Drawing.read_drawing lines)

theorem read_injective (lines others : Except Fault (List Line)) (same : lines.map some = others.map some) :
    lines = others := by
  cases lines with
  | error fault =>
      cases others with
      | error other => exact congrArg Except.error (Except.error.inj same)
      | ok others => exact nomatch same
  | ok lines =>
      cases others with
      | error other => exact nomatch same
      | ok others => exact congrArg Except.ok (Option.some.inj (Except.ok.inj same))

theorem dot_iff (report other : Report) (catalog another : Catalog) :
    report.dot catalog = other.dot another ↔ report.lines catalog = other.lines another := by
  constructor
  · intro same
    have reads := congrArg (Except.map Drawing.read) same
    rw [dot_reads, dot_reads] at reads
    exact read_injective _ _ reads
  · intro same
    rw [dot_lines, dot_lines, same]

theorem drawings_faithful (report : Report) (catalog : Catalog) :
    (report.dot catalog).map Drawing.read = (report.lines catalog).map some ∧
    (∀ (other : Report) (another : Catalog),
      report.dot catalog = other.dot another ↔ report.lines catalog = other.lines another) ∧
    ∀ text, (quote text).toList = ['\x22'] ++ Drawing.substitute '\x22' ['\x5c', '\x22']
      (Drawing.substitute '\x5c' ['\x5c', '\x5c'] text.toList) ++ ['\x22'] := by
  refine ⟨report.dot_reads catalog, fun other another => report.dot_iff other catalog another, fun text => ?_⟩
  simp [quote, Drawing.quoted_in_turn]

-- The reason looks like the end of its edge.
example : (Line.mk "a" "b" "\x22];\x5c").dot =
    "    \x22a\x22 -> \x22b\x22 [label=\x22\x5c\x22];\x5c\x5c\x22];\n" := by decide

end Report

end ArtifactGraph
