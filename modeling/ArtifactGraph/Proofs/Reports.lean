import ArtifactGraph.Proofs.Symbols
import ArtifactGraph.Proofs.Tables
import ArtifactGraph.Report

set_option autoImplicit false

namespace ArtifactGraph

namespace Line

def Before (a b : Line) : Prop :=
  a.source < b.source ∨ (a.source = b.source ∧
    (a.target < b.target ∨ (a.target = b.target ∧ a.reason < b.reason)))

theorem before_irreflexive (line : Line) : ¬ line.Before line := by
  rintro (less | ⟨_, less | ⟨_, less⟩⟩) <;> exact Std.lt_irrefl less

theorem before_trans (a b c : Line) (first : a.Before b) (second : b.Before c) : a.Before c := by
  rcases first with less | ⟨source, first⟩ <;> rcases second with more | ⟨same, second⟩
  · exact .inl (Std.lt_trans less more)
  · exact .inl (same ▸ less)
  · exact .inl (source ▸ more)
  · refine .inr ⟨source.trans same, ?_⟩
    rcases first with less | ⟨target, less⟩ <;> rcases second with more | ⟨equal, more⟩
    · exact .inl (Std.lt_trans less more)
    · exact .inl (equal ▸ less)
    · exact .inl (target ▸ more)
    · exact .inr ⟨target.trans equal, Std.lt_trans less more⟩

theorem before_or_equal (a b : Line) : a.Before b ∨ a = b ∨ b.Before a := by
  rcases Std.lt_trichotomy a.source b.source with less | source | more
  · exact .inl (.inl less)
  · rcases Std.lt_trichotomy a.target b.target with less | target | more
    · exact .inl (.inr ⟨source, .inl less⟩)
    · rcases Std.lt_trichotomy a.reason b.reason with less | reason | more
      · exact .inl (.inr ⟨source, .inr ⟨target, less⟩⟩)
      · exact .inr (.inl (by cases a; cases b; simp_all))
      · exact .inr (.inr (.inr ⟨source.symm, .inr ⟨target.symm, more⟩⟩))
    · exact .inr (.inr (.inr ⟨source.symm, .inl more⟩))
  · exact .inr (.inr (.inl more))

theorem precedes_iff (a b : Line) : a.precedes b = true ↔ a.Before b ∨ a = b := by
  simp only [precedes, Bool.or_eq_true, Bool.and_eq_true, decide_eq_true_eq, beq_iff_eq, Std.le_iff_lt_or_eq, Before]
  constructor
  · rintro (less | ⟨source, less | ⟨target, less | reason⟩⟩)
    · exact .inl (.inl less)
    · exact .inl (.inr ⟨source, .inl less⟩)
    · exact .inl (.inr ⟨source, .inr ⟨target, less⟩⟩)
    · exact .inr (by cases a; cases b; simp_all)
  · rintro ((less | ⟨source, less | ⟨target, less⟩⟩) | rfl)
    · exact .inl less
    · exact .inr ⟨source, .inl less⟩
    · exact .inr ⟨source, .inr ⟨target, .inl less⟩⟩
    · exact .inr ⟨rfl, .inr ⟨rfl, .inr rfl⟩⟩

theorem precedes_trans (a b c : Line) (first : a.precedes b = true) (second : b.precedes c = true) :
    a.precedes c = true := by
  rw [precedes_iff] at first second ⊢
  rcases first with less | rfl
  · rcases second with more | rfl
    · exact .inl (before_trans a b c less more)
    · exact .inl less
  · exact second

theorem precedes_total (a b : Line) : (a.precedes b || b.precedes a) = true := by
  rw [Bool.or_eq_true, precedes_iff, precedes_iff]
  rcases before_or_equal a b with less | same | more
  · exact .inl (.inl less)
  · exact .inl (.inr same)
  · exact .inr (.inl more)

end Line

theorem Catalog.line_ok_iff (catalog : Catalog) (link : Link) (line : Line) :
    catalog.line link = .ok line ↔ catalog.symbol link.source = .ok line.source ∧
      catalog.symbol link.target = .ok line.target ∧ link.reason = line.reason := by
  obtain ⟨source, target, reason⟩ := line
  simp only [line, bind_ok_iff, pure, Except.pure, Except.ok.injEq, Line.mk.injEq]
  constructor
  · rintro ⟨_, first, _, second, rfl, rfl, shown⟩
    exact ⟨first, second, shown⟩
  · rintro ⟨first, second, shown⟩
    exact ⟨source, first, target, second, rfl, rfl, shown⟩

namespace Report

def keys (report : Report) : List Key := report.links.flatMap fun link => [link.source, link.target]

theorem mem_keys_iff (report : Report) (key : Key) :
    key ∈ report.keys ↔ ∃ link ∈ report.links, key = link.source ∨ key = link.target := by
  simp [keys]

theorem lines_ok_iff (report : Report) (catalog : Catalog) (lines : List Line) :
    report.lines catalog = .ok lines ↔
      ∃ shown, report.links.mapM catalog.line = .ok shown ∧ (shown.mergeSort Line.precedes).eraseReps = lines := by
  simp only [Report.lines, bind_ok_iff, pure, Except.pure, Except.ok.injEq]

theorem lines_total_iff (report : Report) (catalog : Catalog) :
    (∃ lines, report.lines catalog = .ok lines) ↔ ∀ link ∈ report.links, ∃ line, catalog.line link = .ok line := by
  constructor
  · intro ⟨lines, done⟩ link member
    obtain ⟨shown, mapped, _⟩ := (report.lines_ok_iff catalog lines).mp done
    obtain ⟨line, _, found⟩ := map_covers catalog.line report.links shown mapped link member
    exact ⟨line, found⟩
  · intro total
    obtain ⟨shown, mapped⟩ := map_total catalog.line report.links total
    exact ⟨_, (report.lines_ok_iff catalog _).mpr ⟨shown, mapped, rfl⟩⟩

theorem lines_error (report : Report) (catalog : Catalog) (fault : Fault)
    (refused : report.lines catalog = .error fault) : ∃ key ∈ report.keys, catalog.symbol key = .error fault := by
  cases mapped : report.links.mapM catalog.line with
  | ok shown =>
      have done := (report.lines_ok_iff catalog _).mpr ⟨shown, mapped, rfl⟩
      exact nomatch done.symm.trans refused
  | error other =>
      obtain rfl : other = fault := by simpa [Report.lines, mapped, bind, Except.bind] using refused
      obtain ⟨link, member, found⟩ := map_error catalog.line report.links other mapped
      cases source : catalog.symbol link.source with
      | error first =>
          obtain rfl : first = other := by simpa [Catalog.line, source, bind, Except.bind] using found
          exact ⟨link.source, (report.mem_keys_iff _).mpr ⟨link, member, .inl rfl⟩, source⟩
      | ok name =>
          refine ⟨link.target, (report.mem_keys_iff _).mpr ⟨link, member, .inr rfl⟩, ?_⟩
          cases target : catalog.symbol link.target with
          | error second => simpa [Catalog.line, source, target, bind, Except.bind] using found
          | ok shown => simp [Catalog.line, source, target, bind, Except.bind, pure, Except.pure] at found

theorem lines_rising (report : Report) (catalog : Catalog) (lines : List Line)
    (done : report.lines catalog = .ok lines) : lines.Pairwise Line.Before := by
  obtain ⟨shown, _, rfl⟩ := (report.lines_ok_iff catalog lines).mp done
  have sorted := List.pairwise_mergeSort Line.precedes_trans Line.precedes_total shown
  exact erase_reps_rising Line.Before Line.before_trans _ (sorted.imp fun le => (Line.precedes_iff _ _).mp le)

theorem mem_lines_iff (report : Report) (catalog : Catalog) (lines : List Line)
    (done : report.lines catalog = .ok lines) (line : Line) :
    line ∈ lines ↔ ∃ link ∈ report.links, catalog.line link = .ok line := by
  obtain ⟨shown, mapped, rfl⟩ := (report.lines_ok_iff catalog lines).mp done
  rw [erase_reps_mem, (List.mergeSort_perm shown Line.precedes).mem_iff]
  constructor
  · exact map_members catalog.line report.links shown mapped line
  · intro ⟨link, member, found⟩
    obtain ⟨other, within, same⟩ := map_covers catalog.line report.links shown mapped link member
    exact Except.ok.inj (same.symm.trans found) ▸ within

structure Renders (catalog : Catalog) (report : Report) : Prop where
  refused : (∃ fault, report.lines catalog = .error fault) ↔
    ∃ key ∈ report.keys, catalog.hasPayload key.payload = false
  faults : ∀ fault, report.lines catalog = .error fault →
    ∃ key ∈ report.keys, catalog.hasPayload key.payload = false ∧ fault = .undescribed key.payload.handle
  rising : ∀ lines, report.lines catalog = .ok lines → lines.Pairwise Line.Before
  shown : ∀ lines, report.lines catalog = .ok lines → ∀ line, line ∈ lines ↔
    ∃ link ∈ report.links, catalog.symbol link.source = .ok line.source ∧
      catalog.symbol link.target = .ok line.target ∧ link.reason = line.reason

theorem sound_renders (report : Report) (catalog : Catalog) (sound : catalog.Sound) : report.Renders catalog := by
  have faults : ∀ fault, report.lines catalog = .error fault →
      ∃ key ∈ report.keys, catalog.hasPayload key.payload = false ∧ fault = .undescribed key.payload.handle := by
    intro fault failed
    obtain ⟨key, member, found⟩ := report.lines_error catalog fault failed
    exact ⟨key, member, (Catalog.symbol_error_iff catalog sound key fault).mp found⟩
  refine ⟨⟨?_, ?_⟩, faults, report.lines_rising catalog, ?_⟩
  · intro ⟨fault, failed⟩
    obtain ⟨key, member, missing, _⟩ := faults fault failed
    exact ⟨key, member, missing⟩
  · intro ⟨key, member, missing⟩
    have unnamed := Catalog.symbol_missing catalog sound key missing
    cases answer : report.lines catalog with
    | error fault => exact ⟨fault, rfl⟩
    | ok lines =>
        obtain ⟨link, linked, place⟩ := (report.mem_keys_iff key).mp member
        obtain ⟨line, found⟩ := (report.lines_total_iff catalog).mp ⟨lines, answer⟩ link linked
        obtain ⟨source, target, _⟩ := (catalog.line_ok_iff link line).mp found
        rcases place with rfl | rfl
        · exact nomatch source.symm.trans unnamed
        · exact nomatch target.symm.trans unnamed
  · intro lines done line
    simp only [report.mem_lines_iff catalog lines done, catalog.line_ok_iff]

-- Which of several missing descriptions is met first depends on the order of the links,
-- and nothing else does.
structure Equivalent (one another : Report) : Prop where
  lines : ∀ catalog, (one.lines catalog).toOption = (another.lines catalog).toOption
  text : ∀ catalog, (one.text catalog).toOption = (another.text catalog).toOption
  dot : ∀ catalog, (one.dot catalog).toOption = (another.dot catalog).toOption

theorem lines_of_links (one another : Report) (same : ∀ link, link ∈ one.links ↔ link ∈ another.links)
    (catalog : Catalog) : (one.lines catalog).toOption = (another.lines catalog).toOption := by
  have both : (∃ lines, one.lines catalog = .ok lines) ↔ ∃ lines, another.lines catalog = .ok lines := by
    simp only [lines_total_iff, same]
  cases left : one.lines catalog with
  | error fault =>
      cases right : another.lines catalog with
      | error other => rfl
      | ok lines =>
          obtain ⟨_, done⟩ := both.mpr ⟨lines, right⟩
          exact nomatch left.symm.trans done
  | ok lines =>
      obtain ⟨others, right⟩ := both.mp ⟨lines, left⟩
      rw [right]
      refine congrArg some (rising_equal Line.Before Line.before_irreflexive Line.before_trans lines others
        (one.lines_rising catalog lines left) (another.lines_rising catalog others right) fun line => ?_)
      simp only [one.mem_lines_iff catalog lines left, another.mem_lines_iff catalog others right, same]

theorem text_lines (report : Report) (catalog : Catalog) :
    report.text catalog = (report.lines catalog).map fun lines => String.join (lines.map Line.text) := by
  unfold Report.text
  cases report.lines catalog <;> rfl

theorem dot_lines (report : Report) (catalog : Catalog) :
    report.dot catalog = (report.lines catalog).map fun lines =>
      "digraph dependencies \x7b\n" ++ String.join (lines.map Line.dot) ++ "\x7d\n" := by
  unfold Report.dot
  cases report.lines catalog <;> rfl

theorem equivalent_of_links (one another : Report) (same : ∀ link, link ∈ one.links ↔ link ∈ another.links) :
    one.Equivalent another := by
  have lines := one.lines_of_links another same
  have rendered : ∀ (write : List Line → String) (catalog : Catalog),
      ((one.lines catalog).map write).toOption = ((another.lines catalog).map write).toOption := by
    intro write catalog
    have shown : ∀ answer : Except Fault (List Line), (answer.map write).toOption = answer.toOption.map write := by
      intro answer
      cases answer <;> rfl
    rw [shown, shown, lines catalog]
  refine ⟨lines, fun catalog => ?_, fun catalog => ?_⟩
  · rw [text_lines, text_lines, rendered]
  · rw [dot_lines, dot_lines, rendered]

end Report

end ArtifactGraph
