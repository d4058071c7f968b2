import ArtifactGraph.Proofs.Lettering
import ArtifactGraph.Proofs.Recordings
import Mathlib.Data.List.Basic

set_option autoImplicit false

/-! Nothing in a transcript is escaped. A symbol has no blank, so the first arrow and
the first colon after it are those that were written, and whatever is left is the
reason. Only a line feed in a reason would break its line. -/
namespace ArtifactGraph

def OneLine (text : String) : Prop := '\n' ∉ text.toList

instance (text : String) : Decidable (OneLine text) := inferInstanceAs (Decidable ('\n' ∉ text.toList))

namespace Line

def row (line : Line) : List Char :=
  line.source.toList ++ " -> ".toList ++ line.target.toList ++ " : ".toList ++ line.reason.toList

theorem text_row (line : Line) : line.text.toList = line.row ++ ['\n'] := by
  simp [text, row]

end Line

namespace Transcript

def cut (mark : List Char) : List Char → Option (List Char × List Char)
  | [] => none
  | c :: text =>
    match (c :: text).dropPrefix? mark with
    | some rest => some ([], rest)
    | none => (cut mark text).map fun (before, rest) => (c :: before, rest)

def readRow (row : List Char) : Option Line := do
  let (source, rest) ← cut " -> ".toList row
  let (target, reason) ← cut " : ".toList rest
  return ⟨String.ofList source, String.ofList target, String.ofList reason⟩

theorem cut_here (first : Char) (mark rest : List Char) :
    cut (first :: mark) (first :: mark ++ rest) = some ([], rest) := by
  rw [List.cons_append, cut, ← List.cons_append, List.dropPrefix?_append_of_beq rest BEq.rfl]

theorem cut_later (first c : Char) (mark text : List Char) (other : c ≠ first) :
    cut (first :: mark) (c :: text) = (cut (first :: mark) text).map fun (before, rest) => (c :: before, rest) := by
  have miss : (c :: text).dropPrefix? (first :: mark) = none := by simp [List.dropPrefix?, other]
  rw [cut, miss]

theorem cut_first (first : Char) (mark before rest : List Char) (absent : first ∉ before) :
    cut (first :: mark) (before ++ (first :: mark ++ rest)) = some (before, rest) := by
  induction before with
  | nil => exact cut_here first mark rest
  | cons c before ih =>
      obtain ⟨other, later⟩ := not_or.mp (absent ∘ List.mem_cons.mpr)
      rw [List.cons_append, cut_later first c mark _ (Ne.symm other), ih later]
      rfl

theorem read_row (line : Line) (source : ' ' ∉ line.source.toList) (target : ' ' ∉ line.target.toList) :
    readRow line.row = some line := by
  have arrow : cut " -> ".toList line.row = some (line.source.toList,
      line.target.toList ++ (" : ".toList ++ line.reason.toList)) := by
    rw [Line.row, List.append_assoc, List.append_assoc, List.append_assoc]
    exact cut_first ' ' _ _ _ source
  have colon : cut " : ".toList (line.target.toList ++ (" : ".toList ++ line.reason.toList)) =
      some (line.target.toList, line.reason.toList) :=
    cut_first ' ' _ _ _ target
  rw [readRow, arrow]
  simp only [Option.bind_eq_bind, Option.bind_some, colon, String.ofList_toList]
  rfl

theorem split_rows (rows : List (List Char)) (whole : ∀ row ∈ rows, '\n' ∉ row) :
    (rows.flatMap (· ++ ['\n'])).splitOn '\n' = rows ++ [[]] := by
  induction rows with
  | nil => rfl
  | cons row rows ih =>
      obtain ⟨here, later⟩ := List.forall_mem_cons.mp whole
      rw [List.flatMap_cons, List.append_assoc, List.singleton_append,
        List.splitOn_append_cons_self_of_not_mem here, ih later, List.cons_append]

end Transcript

theorem Catalog.symbol_lacks (catalog : Catalog) (key : Key) (name : String) (named : catalog.symbol key = .ok name)
    (c : Char) (foreign : ¬ (Symbol.isPlain c = true ∨ c = '$')) : c ∉ name.toList := by
  obtain ⟨tree, _, rfl⟩ := catalog.symbol_unfolds key name named
  rw [String.toList_ofList]
  exact fun member => foreign ((Tidy.label_text _).legal c member)

namespace Report

section Lines

variable (report : Report) (catalog : Catalog) (lines : List Line) (done : report.lines catalog = .ok lines)

include done

theorem lines_lack (line : Line) (member : line ∈ lines) (c : Char)
    (foreign : ¬ (Symbol.isPlain c = true ∨ c = '$')) : c ∉ line.source.toList ∧ c ∉ line.target.toList := by
  obtain ⟨link, _, found⟩ := (report.mem_lines_iff catalog lines done line).mp member
  obtain ⟨source, target, _⟩ := (catalog.line_ok_iff link line).mp found
  exact ⟨catalog.symbol_lacks _ _ source c foreign, catalog.symbol_lacks _ _ target c foreign⟩

theorem rows_whole (single : ∀ link ∈ report.links, OneLine link.reason) (line : Line) (member : line ∈ lines) :
    '\n' ∉ line.row := by
  obtain ⟨source, target⟩ := report.lines_lack catalog lines done line member '\n' (by decide)
  obtain ⟨link, linked, found⟩ := (report.mem_lines_iff catalog lines done line).mp member
  have reason : '\n' ∉ line.reason.toList := ((catalog.line_ok_iff link line).mp found).2.2 ▸ single link linked
  simp only [Line.row, List.mem_append, not_or]
  exact ⟨⟨⟨⟨source, by decide⟩, target⟩, by decide⟩, reason⟩

theorem text_rows (single : ∀ link ∈ report.links, OneLine link.reason) :
    ∃ text, report.text catalog = .ok text ∧ text.toList.splitOn '\n' = lines.map Line.row ++ [[]] := by
  refine ⟨String.join (lines.map Line.text), by rw [text_lines, done]; rfl, ?_⟩
  have rows : (String.join (lines.map Line.text)).toList = (lines.map Line.row).flatMap (· ++ ['\n']) := by
    simp only [String.toList_join, List.flatMap_map, Line.text_row]
  rw [rows]
  refine Transcript.split_rows _ fun row member => ?_
  obtain ⟨line, listed, rfl⟩ := List.mem_map.mp member
  exact report.rows_whole catalog lines done single line listed

theorem rows_read : (lines.map Line.row).map Transcript.readRow = lines.map some := by
  rw [List.map_map]
  refine List.map_congr_left fun line member => ?_
  obtain ⟨source, target⟩ := report.lines_lack catalog lines done line member ' ' (by decide)
  exact Transcript.read_row line source target

end Lines

end Report

def Bodies.Brief (bodies : Bodies) : Prop :=
  ∀ read method, ∀ edge ∈ bodies.needs read method, OneLine edge.reason

theorem Compilation.needs_brief (compilation : Compilation) (brief : compilation.bodies.Brief)
    (read : List MethodId) (key : Key) (edges : List Edge) (ruled : compilation.needs read key = .ok edges) :
    ∀ edge ∈ edges, OneLine edge.reason := by
  have single : ∀ target reason, OneLine reason → ∀ edge ∈ [Edge.mk target reason], OneLine edge.reason :=
    fun target reason line edge member => List.mem_singleton.mp member ▸ line
  unfold needs at ruled
  split at ruled
  case h_1 method => exact Except.ok.inj ruled ▸ single _ slotReason (by decide)
  case h_2 record => exact Except.ok.inj ruled ▸ single _ targetReason (by decide)
  case h_3 =>
      obtain ⟨_, _, empty⟩ := (bind_ok_iff _ _ _).mp ruled
      exact Except.ok.inj empty ▸ List.forall_mem_nil _
  case h_4 =>
      split at ruled
      case h_1 => exact nomatch ruled
      case h_2 traits _ =>
          rw [← Except.ok.inj ruled]
          split
          · exact List.forall_mem_nil _
          · exact single _ implementationReason (by decide)
  case h_5 method => exact Except.ok.inj ruled ▸ brief read method

namespace Workspace

def Brief (workspace : Workspace) : Prop :=
  ∀ node edges, workspace.edges.get? node = some edges → ∀ edge ∈ edges, OneLine edge.reason

theorem needs_keeps_brief (compilation : Compilation) (bodies : compilation.bodies.Brief) (workspace : Workspace)
    (node : Node) (brief : workspace.Brief) : (workspace.needs compilation node).2.Brief := by
  rcases workspace.needs_cases compilation node with
    ⟨_, _, result⟩ | ⟨_, _, _, result⟩ | ⟨_, _, _, _, _, result⟩ | ⟨_, edges, ruled, _, result⟩ <;> rw [result]
  · exact brief
  · exact brief
  · exact brief
  · intro other found filled
    rcases Cells.fill_get_cases workspace.edges node other edges found filled with old | ⟨rfl, rfl⟩
    · exact brief other found old
    · exact compilation.needs_brief bodies workspace.read other.key found ruled

theorem mark_by_keeps_brief (compilation : Compilation) (bodies : compilation.bodies.Brief) (workspace : Workspace)
    (schedule : Schedule) (record : Bool) (roots : List Node) (brief : workspace.Brief) :
    (workspace.markBy compilation schedule record roots).2.Brief :=
  mark_by_keeps compilation schedule Brief (needs_keeps_brief compilation bodies) (fun _ _ brief => brief)
    workspace record roots brief

end Workspace

namespace Session

theorem after_brief (bodies : Bodies) (brief : bodies.Brief) (site : Site) (history : List Command) :
    (after bodies site history).workspace.Brief :=
  after_keeps bodies (fun _ workspace => workspace.Brief) (fun _ _ _ _ => id) (fun _ _ _ => id)
    (fun catalog workspace node => workspace.needs_keeps_brief ⟨catalog, bodies⟩ brief node) (fun _ _ _ => id)
    site (fun _ _ filled => nomatch filled) history

end Session

theorem Report.records_brief (workspace : Workspace) (brief : workspace.Brief) (marks : Marks) (report : Report)
    (records : report.Records workspace marks) : ∀ link ∈ report.links, OneLine link.reason := by
  intro link member
  obtain ⟨node, _, leaves⟩ := List.mem_flatMap.mp (records.links.mem_iff.mp member)
  obtain ⟨edges, filled, edge, within, rfl⟩ := (workspace.mem_leaving_iff node link).mp leaves
  exact brief node edges filled edge within

namespace Report

theorem transcripts_read :
    (∀ (report : Report) (catalog : Catalog) (lines : List Line), report.lines catalog = .ok lines →
      (∀ link ∈ report.links, OneLine link.reason) →
      ∃ text rows, report.text catalog = .ok text ∧ text.toList.splitOn '\n' = rows ++ [[]] ∧
        rows.length = lines.length ∧ rows.map Transcript.readRow = lines.map some) ∧
    ∀ bodies : Bodies, bodies.Brief → ∀ site history schedule roots marking report,
      let session := Session.after bodies site history
      (session.workspace.markBy (session.compilation bodies) schedule true roots).1 = .ok marking →
      marking.report? = some report → ∀ link ∈ report.links, OneLine link.reason := by
  refine ⟨fun report catalog lines done single => ?_, ?_⟩
  · obtain ⟨text, shown, split⟩ := report.text_rows catalog lines done single
    exact ⟨text, _, shown, split, List.length_map _, report.rows_read catalog lines done⟩
  · intro bodies brief site history schedule roots marking report session marked recorded
    have after := session.workspace.mark_by_keeps_brief (session.compilation bodies) brief schedule true roots
      (Session.after_brief bodies brief site history)
    obtain ⟨made, found, records⟩ :=
      session.workspace.mark_by_records (session.compilation bodies) schedule roots marking marked
    obtain rfl := Option.some.inj (found.symm.trans recorded)
    exact made.records_brief _ after marking.marks records

theorem arrows_read :
    let bodies : Bodies := ⟨fun _ _ => [⟨.stub .newObject (.type ⟨0⟩), "a -> b : c"⟩, ⟨.stub .cast (.type ⟨0⟩), " : "⟩]⟩
    let history : List Command := [.describe (.type (.named "App" "Main" [])),
      .describe (.method { owner := ⟨0⟩, name := "Run" }), .register (.body ⟨0⟩)]
    let session := Session.after bodies (.sample 0) history
    let run := "_nac_App$$_Main$$FRun$$S$$V$$E"
    let lines : List Line := [⟨run, "__CastClass_App$$_Main", " : "⟩, ⟨run, "__NewHelper_App$$_Main", "a -> b : c"⟩]
    bodies.Brief ∧
    ∃ marking report, (session.workspace.markBy (session.compilation bodies) .worklist true [⟨0, .body ⟨0⟩⟩]).1 =
        .ok marking ∧ marking.report? = some report ∧ report.lines session.catalog = .ok lines ∧
      ∃ text rows, report.text session.catalog = .ok text ∧ text.toList.splitOn '\n' = rows ++ [[]] ∧
        rows.length = 2 ∧ rows.map Transcript.readRow = lines.map some := by
  intro bodies history session run lines
  have brief : bodies.Brief := by
    intro read method
    simp only [bodies]
    decide
  have done : Report.lines ⟨[⟨.body ⟨0⟩, .stub .newObject (.type ⟨0⟩), "a -> b : c"⟩,
      ⟨.body ⟨0⟩, .stub .cast (.type ⟨0⟩), " : "⟩]⟩ session.catalog = .ok lines := by
    refine (lines_ok_iff _ _ _).mpr ⟨lines.reverse, rfl, ?_⟩
    have turned : Line.precedes ⟨run, "__NewHelper_App$$_Main", "a -> b : c"⟩ ⟨run, "__CastClass_App$$_Main", " : "⟩ = false := by
      decide
    have sorted : lines.reverse.mergeSort Line.precedes = lines := by
      simp [lines, List.mergeSort, List.MergeSort.Internal.splitInTwo, turned]
    rw [sorted]
    decide
  have single := transcripts_read.2 bodies brief (.sample 0) history .worklist [⟨0, .body ⟨0⟩⟩] _ _ rfl rfl
  exact ⟨brief, _, _, rfl, rfl, done, transcripts_read.1 _ session.catalog lines done single⟩

end Report

end ArtifactGraph
