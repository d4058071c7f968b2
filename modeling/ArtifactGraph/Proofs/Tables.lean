import ArtifactGraph.Proofs.Unfoldings
import ArtifactGraph.Proofs.Workspaces
import ArtifactGraph.SymbolTable

set_option autoImplicit false

namespace ArtifactGraph

namespace Row

theorem precedes_iff (a b : Row) : a.precedes b = true ↔
    a.symbol < b.symbol ∨ (a.symbol = b.symbol ∧ a.node.key.kind.rank ≤ b.node.key.kind.rank) := by
  simp [precedes, Kind.precedes]

theorem precedes_symbol (a b : Row) (sorted : a.precedes b = true) : a.symbol ≤ b.symbol := by
  rcases (precedes_iff a b).mp sorted with less | ⟨same, _⟩
  · exact Std.le_of_lt less
  · exact same ▸ String.le_refl _

theorem precedes_trans (a b c : Row) (first : a.precedes b = true) (second : b.precedes c = true) :
    a.precedes c = true := by
  rw [precedes_iff] at first second ⊢
  rcases first with less | ⟨same, kind⟩
  · rcases second with more | ⟨equal, _⟩
    · exact .inl (Std.lt_trans less more)
    · exact .inl (equal ▸ less)
  · rcases second with more | ⟨equal, other⟩
    · exact .inl (same ▸ more)
    · exact .inr ⟨same.trans equal, Nat.le_trans kind other⟩

theorem precedes_total (a b : Row) : (a.precedes b || b.precedes a) = true := by
  rw [Bool.or_eq_true, precedes_iff, precedes_iff]
  by_cases same : a.symbol = b.symbol
  · rcases Nat.le_total a.node.key.kind.rank b.node.key.kind.rank with kind | kind
    · exact .inl (.inr ⟨same, kind⟩)
    · exact .inr (.inr ⟨same.symm, kind⟩)
  · rcases String.le_total a.symbol b.symbol with less | less
    · exact .inl (.inl (Std.lt_of_le_of_ne less same))
    · exact .inr (.inl (Std.lt_of_le_of_ne less (Ne.symm same)))

theorem same_key_iff (a b : Row) : a.sameKey b = true ↔ a.node.key = b.node.key := by
  simp [sameKey]

end Row

section Repetitions

variable {Item : Type} (same : Item → Item → Bool)

theorem erase_loop (first : Item) (rest before : List Item) :
    List.eraseRepsBy.loop same first rest before =
      before.reverse ++ List.eraseRepsBy.loop same first rest [] := by
  induction rest generalizing first before with
  | nil => simp [List.eraseRepsBy.loop]
  | cons next rest ih =>
      cases alike : same first next with
      | true =>
          simp only [List.eraseRepsBy.loop, alike]
          exact ih first before
      | false =>
          simp only [List.eraseRepsBy.loop, alike]
          rw [ih next (first :: before), ih next [first]]
          simp

theorem erase_cons (first next : Item) (rest : List Item) :
    (first :: next :: rest).eraseRepsBy same =
      if same first next then (first :: rest).eraseRepsBy same
      else first :: (next :: rest).eraseRepsBy same := by
  cases alike : same first next with
  | true => simp [List.eraseRepsBy, List.eraseRepsBy.loop, alike]
  | false => simp [List.eraseRepsBy, List.eraseRepsBy.loop, alike, erase_loop same next rest [first]]

theorem erase_head (first : Item) (rest : List Item) :
    ∃ more, (first :: rest).eraseRepsBy same = first :: more := by
  induction rest with
  | nil => exact ⟨[], rfl⟩
  | cons next rest ih =>
      rw [erase_cons]
      split
      · exact ih
      · exact ⟨_, rfl⟩

theorem erase_sublist (items : List Item) : (items.eraseRepsBy same).Sublist items := by
  cases items with
  | nil => exact .slnil
  | cons first rest =>
      induction rest generalizing first with
      | nil => exact .refl _
      | cons next rest ih =>
          rw [erase_cons]
          split
          · exact (ih first).trans ((List.sublist_cons_self next rest).cons_cons first)
          · exact (ih next).cons_cons first

theorem erase_mem (items : List Item) : ∀ item ∈ items.eraseRepsBy same, item ∈ items :=
  fun _ member => (erase_sublist same items).subset member

theorem erase_covers (items : List Item) (reflexive : ∀ item, same item item = true) :
    ∀ item ∈ items, ∃ kept ∈ items.eraseRepsBy same, same kept item = true := by
  cases items with
  | nil => exact fun _ member => nomatch member
  | cons first rest =>
      induction rest generalizing first with
      | nil =>
          intro item member
          exact ⟨first, List.mem_singleton_self first, List.mem_singleton.mp member ▸ reflexive item⟩
      | cons next rest ih =>
          intro item member
          rw [erase_cons]
          split
          case isTrue alike =>
              rcases List.mem_cons.mp member with here | later
              · exact ih first item (here ▸ List.mem_cons_self)
              · rcases List.mem_cons.mp later with second | more
                · obtain ⟨tail, shape⟩ := erase_head same first rest
                  exact ⟨first, shape ▸ List.mem_cons_self, second ▸ alike⟩
                · exact ih first item (List.mem_cons_of_mem first more)
          case isFalse =>
              rcases List.mem_cons.mp member with here | later
              · exact ⟨first, List.mem_cons_self, here ▸ reflexive first⟩
              · obtain ⟨kept, found, alike⟩ := ih next item later
                exact ⟨kept, List.mem_cons_of_mem first found, alike⟩

theorem erase_reps_mem {Item : Type} [BEq Item] [LawfulBEq Item] (items : List Item) (item : Item) :
    item ∈ items.eraseReps ↔ item ∈ items := by
  constructor
  · exact erase_mem _ items item
  · intro member
    obtain ⟨kept, found, same⟩ := erase_covers (fun a b => a == b) items (fun _ => BEq.rfl) item member
    exact eq_of_beq same ▸ found

theorem erase_reps_rising {Item : Type} [BEq Item] [LawfulBEq Item] (less : Item → Item → Prop)
    (trans : ∀ a b c, less a b → less b c → less a c) (items : List Item)
    (sorted : items.Pairwise fun a b => less a b ∨ a = b) : items.eraseReps.Pairwise less := by
  cases items with
  | nil => exact .nil
  | cons first rest =>
      induction rest generalizing first with
      | nil => exact List.pairwise_singleton _ first
      | cons next rest ih =>
          obtain ⟨least, later⟩ := List.pairwise_cons.mp sorted
          unfold List.eraseReps at ih ⊢
          rw [erase_cons]
          split
          case isTrue =>
              refine ih first (List.pairwise_cons.mpr ⟨fun item member => ?_, later.of_cons⟩)
              exact least item (List.mem_cons_of_mem next member)
          case isFalse other =>
              have rises : less first next :=
                (least next List.mem_cons_self).resolve_right fun same => other (beq_of_eq same)
              refine List.pairwise_cons.mpr ⟨fun item member => ?_, ih next later⟩
              rcases List.mem_cons.mp (erase_mem _ _ item member) with here | after
              · exact here ▸ rises
              · rcases (List.pairwise_cons.mp later).1 item after with more | same
                · exact trans first next item rises more
                · exact same ▸ rises

theorem rising_equal {Item : Type} (less : Item → Item → Prop) (irreflexive : ∀ a, ¬ less a a)
    (trans : ∀ a b c, less a b → less b c → less a c) (one another : List Item) (left : one.Pairwise less)
    (right : another.Pairwise less) (same : ∀ item, item ∈ one ↔ item ∈ another) : one = another := by
  have nodup : ∀ items : List Item, items.Pairwise less → items.Nodup := by
    intro items rising
    refine rising.imp fun {a b} risen => ?_
    rintro rfl
    exact irreflexive a risen
  have perm := (List.perm_ext_iff_of_nodup (nodup one left) (nodup another right)).mpr same
  exact perm.eq_of_pairwise (fun a b _ _ up down => absurd (trans a b a up down) (irreflexive a)) left right

end Repetitions

theorem clash_cons (first second : Row) (rest : List Row) :
    clash? (first :: second :: rest) =
      if first.symbol = second.symbol then some (first, second) else clash? (second :: rest) := by
  rw [clash?]

theorem clash_mem (rows : List Row) (one another : Row) (found : clash? rows = some (one, another)) :
    one ∈ rows ∧ another ∈ rows := by
  cases rows with
  | nil => exact nomatch found
  | cons first rest =>
      induction rest generalizing first with
      | nil => exact nomatch found
      | cons second rest ih =>
          rw [clash_cons] at found
          split at found
          · obtain ⟨rfl, rfl⟩ := Prod.mk.inj (Option.some.inj found)
            exact ⟨List.mem_cons_self, List.mem_cons_of_mem _ List.mem_cons_self⟩
          · obtain ⟨left, right⟩ := ih second found
            exact ⟨List.mem_cons_of_mem first left, List.mem_cons_of_mem first right⟩

theorem clash_some (rows : List Row) (one another : Row)
    (found : clash? (rows.eraseRepsBy Row.sameKey) = some (one, another)) :
    one.symbol = another.symbol ∧ one.node.key ≠ another.node.key := by
  cases rows with
  | nil => exact nomatch found
  | cons first rest =>
      induction rest generalizing first with
      | nil => exact nomatch found
      | cons next rest ih =>
          rw [erase_cons] at found
          split at found
          case isTrue => exact ih first found
          case isFalse other =>
              obtain ⟨more, shape⟩ := erase_head Row.sameKey next rest
              rw [shape, clash_cons] at found
              split at found
              case isTrue shared =>
                  obtain ⟨rfl, rfl⟩ := Prod.mk.inj (Option.some.inj found)
                  exact ⟨shared, fun same => other ((Row.same_key_iff _ _).mpr same)⟩
              case isFalse => exact ih next (shape ▸ found)

theorem symbols_rise (row next : Row) (rest : List Row)
    (sorted : (row :: next :: rest).Pairwise fun a b => a.symbol ≤ b.symbol) (differ : row.symbol ≠ next.symbol) :
    ∀ other ∈ next :: rest, row.symbol < other.symbol := by
  obtain ⟨least, later⟩ := List.pairwise_cons.mp sorted
  have rises := Std.lt_of_le_of_ne (least next List.mem_cons_self) differ
  intro other member
  rcases List.mem_cons.mp member with here | after
  · exact here ▸ rises
  · exact Std.lt_of_lt_of_le rises ((List.pairwise_cons.mp later).1 other after)

theorem clash_least (rows : List Row) (sorted : rows.Pairwise fun a b => a.symbol ≤ b.symbol) (one another : Row)
    (found : clash? rows = some (one, another)) (first second : Row) (left : first ∈ rows) (right : second ∈ rows)
    (differ : first ≠ second) (shared : first.symbol = second.symbol) : one.symbol ≤ first.symbol := by
  cases rows with
  | nil => exact nomatch left
  | cons row rest =>
      induction rest generalizing row with
      | nil => exact nomatch found
      | cons next rest ih =>
          obtain ⟨least, later⟩ := List.pairwise_cons.mp sorted
          rw [clash_cons] at found
          split at found
          case isTrue =>
              obtain ⟨rfl, rfl⟩ := Prod.mk.inj (Option.some.inj found)
              rcases List.mem_cons.mp left with here | after
              · exact here ▸ String.le_refl _
              · exact least first after
          case isFalse apart =>
              have rises := symbols_rise row next rest sorted apart
              rcases List.mem_cons.mp left with here | after <;> rcases List.mem_cons.mp right with also | other
              · exact absurd (here.trans also.symm) differ
              · exact absurd (rises second other) (by rw [← shared, here]; exact Std.lt_irrefl)
              · exact absurd (rises first after) (by rw [shared, also]; exact Std.lt_irrefl)
              · exact ih next later found after other

-- Without a clash the symbols of sorted rows do not only not fall, they rise.
theorem clash_none (rows : List Row) (sorted : rows.Pairwise fun a b => a.symbol ≤ b.symbol)
    (apart : clash? rows = none) : rows.Pairwise fun a b => a.symbol < b.symbol := by
  cases rows with
  | nil => exact .nil
  | cons first rest =>
      induction rest generalizing first with
      | nil => exact List.pairwise_singleton _ first
      | cons next rest ih =>
          rw [clash_cons] at apart
          split at apart
          case isTrue => exact nomatch apart
          case isFalse differ =>
              exact List.pairwise_cons.mpr ⟨symbols_rise first next rest sorted differ, ih next sorted.of_cons apart⟩

theorem rising_distinct (rows : List Row) (rising : rows.Pairwise fun a b => a.symbol < b.symbol)
    (one another : Row) (left : one ∈ rows) (right : another ∈ rows)
    (shared : one.symbol = another.symbol) : one = another := by
  induction rows with
  | nil => exact nomatch left
  | cons first rest ih =>
      obtain ⟨least, later⟩ := List.pairwise_cons.mp rising
      rcases List.mem_cons.mp left with here | after <;> rcases List.mem_cons.mp right with also | other
      · exact here.trans also.symm
      · exact absurd (least another other) (by rw [← shared, here]; exact Std.lt_irrefl)
      · exact absurd (least one after) (by rw [shared, also]; exact Std.lt_irrefl)
      · exact ih later after other

namespace SymbolTable

theorem of_rows_cases (rows : List Row) :
    (∃ one another,
      clash? ((rows.mergeSort Row.precedes).eraseRepsBy Row.sameKey) = some (one, another) ∧
      ofRows rows = .error (.collision one.symbol one.node.key another.node.key)) ∨
    (clash? ((rows.mergeSort Row.precedes).eraseRepsBy Row.sameKey) = none ∧
      ofRows rows = .ok ⟨((rows.mergeSort Row.precedes).eraseRepsBy Row.sameKey).toArray⟩) := by
  cases found : clash? ((rows.mergeSort Row.precedes).eraseRepsBy Row.sameKey) with
  | none => exact .inr ⟨rfl, by simp only [ofRows, found]⟩
  | some pair => exact .inl ⟨pair.1, pair.2, rfl, by simp only [ofRows, found]⟩

theorem sort_mem (rows : List Row) (row : Row) : row ∈ rows.mergeSort Row.precedes ↔ row ∈ rows :=
  (List.mergeSort_perm rows Row.precedes).mem_iff

theorem sorted_symbols (rows : List Row) :
    ((rows.mergeSort Row.precedes).eraseRepsBy Row.sameKey).Pairwise fun a b => a.symbol ≤ b.symbol := by
  have sorted := List.pairwise_mergeSort Row.precedes_trans Row.precedes_total rows
  exact (sorted.sublist (erase_sublist Row.sameKey _)).imp fun le => Row.precedes_symbol _ _ le

theorem of_rows_error (rows : List Row) (fault : Fault) (refused : ofRows rows = .error fault) :
    ∃ one ∈ rows, ∃ another ∈ rows, one.symbol = another.symbol ∧ one.node.key ≠ another.node.key ∧
      fault = .collision one.symbol one.node.key another.node.key := by
  rcases of_rows_cases rows with ⟨one, another, found, result⟩ | ⟨_, result⟩ <;> rw [result] at refused
  · obtain ⟨shared, distinct⟩ := clash_some _ one another found
    have kept := clash_mem _ one another found
    exact ⟨one, (sort_mem rows one).mp (erase_mem _ _ one kept.1), another,
      (sort_mem rows another).mp (erase_mem _ _ another kept.2), shared, distinct,
      (Except.error.inj refused).symm⟩
  · exact nomatch refused

theorem of_rows_shared (rows : List Row)
    (named : ∀ a ∈ rows, ∀ b ∈ rows, a.node.key = b.node.key → a.symbol = b.symbol)
    (one another : Row) (left : one ∈ rows) (right : another ∈ rows)
    (shared : one.symbol = another.symbol) (distinct : one.node.key ≠ another.node.key) :
    ∃ fault, ofRows rows = .error fault := by
  rcases of_rows_cases rows with ⟨_, _, _, result⟩ | ⟨apart, _⟩
  · exact ⟨_, result⟩
  · have rising := clash_none _ (sorted_symbols rows) apart
    have kept : ∀ row ∈ rows, ∃ same ∈ (rows.mergeSort Row.precedes).eraseRepsBy Row.sameKey,
        same.node.key = row.node.key ∧ same.symbol = row.symbol := by
      intro row member
      obtain ⟨same, found, alike⟩ := erase_covers Row.sameKey _
        (fun row => (Row.same_key_iff row row).mpr rfl) row ((sort_mem rows row).mpr member)
      have key := (Row.same_key_iff same row).mp alike
      exact ⟨same, found, key,
        named same ((sort_mem rows same).mp (erase_mem _ _ same found)) row member key⟩
    obtain ⟨first, firstKept, firstKey, firstSymbol⟩ := kept one left
    obtain ⟨second, secondKept, secondKey, secondSymbol⟩ := kept another right
    have equal := rising_distinct _ rising first second firstKept secondKept
      (firstSymbol.trans (shared.trans secondSymbol.symm))
    exact absurd (firstKey.symm.trans (equal ▸ secondKey)) distinct

end SymbolTable

namespace Cells

def Coherent (names : Cells String) (catalog : Catalog) : Prop :=
  ∀ node name, names.get? node = some name → catalog.symbol node.key = .ok name

def called (names : Cells String) (catalog : Catalog) (node : Node) : Except Fault String :=
  match names.get? node with
  | some name => .ok name
  | none => catalog.symbol node.key

theorem called_error_iff (names : Cells String) (catalog : Catalog) (node : Node) (fault : Fault) :
    names.called catalog node = .error fault ↔
      names.get? node = none ∧ catalog.symbol node.key = .error fault := by
  cases found : names.get? node <;> simp [called, found]

theorem name_called (names : Cells String) (catalog : Catalog) (node : Node) :
    (names.name catalog node).1 = names.called catalog node := by
  cases found : names.get? node with
  | some old => simp only [name, called, found]
  | none => cases known : catalog.symbol node.key <;> simp only [name, called, found, known]

theorem name_keeps_called (names : Cells String) (catalog : Catalog) (node other : Node) :
    (names.name catalog node).2.called catalog other = names.called catalog other := by
  cases found : names.get? node with
  | some old => simp only [name, found]
  | none =>
      cases known : catalog.symbol node.key with
      | error fault => simp only [name, found, known]
      | ok symbol =>
          simp only [name, found, known]
          by_cases same : other = node
          · rw [same, called, fill_here, found, called, found]
            exact known.symm
          · rw [called, fill_elsewhere names node other symbol same, called]

theorem name_all_called (names : Cells String) (catalog : Catalog) (nodes : List Node) :
    (names.nameAll catalog nodes).1 =
      nodes.mapM fun node => (names.called catalog node).map fun symbol => ⟨symbol, node⟩ := by
  induction nodes generalizing names with
  | nil => rfl
  | cons node rest ih =>
      have named := names.name_called catalog node
      have kept := names.name_keeps_called catalog node
      cases first : names.name catalog node with
      | mk answer after =>
          rw [first] at named kept
          have rows := ih after
          simp only [kept] at rows
          rw [List.mapM_cons, ← rows, ← named]
          cases answer with
          | error fault => simp only [nameAll, first]; rfl
          | ok symbol =>
              cases later : after.nameAll catalog rest with
              | mk found last => cases found <;> simp only [nameAll, first, later] <;> rfl

theorem name_all_keeps_called (names : Cells String) (catalog : Catalog) (nodes : List Node) (other : Node) :
    (names.nameAll catalog nodes).2.called catalog other = names.called catalog other := by
  induction nodes generalizing names with
  | nil => rfl
  | cons node rest ih =>
      have kept := names.name_keeps_called catalog node other
      cases first : names.name catalog node with
      | mk answer after =>
          rw [first] at kept
          cases answer with
          | error fault => simpa only [nameAll, first] using kept
          | ok symbol =>
              have all := (ih after).trans kept
              cases later : after.nameAll catalog rest with
              | mk rows last =>
                  rw [later] at all
                  cases rows <;> simpa only [nameAll, first, later] using all

theorem name_all_nodes (names : Cells String) (catalog : Catalog) (nodes : List Node) (rows : List Row)
    (done : (names.nameAll catalog nodes).1 = .ok rows) : rows.map (·.node) = nodes := by
  rw [name_all_called] at done
  induction nodes generalizing rows with
  | nil => exact Except.ok.inj done ▸ rfl
  | cons node rest ih =>
      obtain ⟨row, more, here, later, rfl⟩ := (map_cons_ok_iff _ node rest rows).mp done
      have same : row.node = node := by
        cases given : names.called catalog node with
        | error fault => simp [given, Except.map] at here
        | ok symbol => simp only [given, Except.map, Except.ok.injEq] at here; rw [← here]
      rw [List.map_cons, ih more later, same]

theorem mem_rows_iff (names : Cells String) (catalog : Catalog) (nodes : List Node) (rows : List Row)
    (done : (names.nameAll catalog nodes).1 = .ok rows) (row : Row) :
    row ∈ rows ↔ row.node ∈ nodes ∧ names.called catalog row.node = .ok row.symbol := by
  rw [name_all_called] at done
  have shape : ∀ node, (names.called catalog node).map (fun symbol => Row.mk symbol node) = .ok row ↔
      row.node = node ∧ names.called catalog node = .ok row.symbol := by
    intro node
    obtain ⟨symbol, place⟩ := row
    cases names.called catalog node <;> simp [Except.map, and_comm, eq_comm]
  constructor
  · intro member
    obtain ⟨node, given, found⟩ := map_members _ nodes rows done row member
    obtain ⟨rfl, called⟩ := (shape node).mp found
    exact ⟨given, called⟩
  · intro ⟨given, called⟩
    obtain ⟨other, member, found⟩ := map_covers _ nodes rows done row.node given
    have same := (shape row.node).mpr ⟨rfl, called⟩
    exact Except.ok.inj (found.symm.trans same) ▸ member

theorem coherent_iff (names : Cells String) (catalog : Catalog) :
    names.Coherent catalog ↔ ∀ node, names.called catalog node = catalog.symbol node.key := by
  constructor
  · intro coherent node
    cases found : names.get? node with
    | none => simp only [called, found]
    | some name => simp only [called, found, coherent node name found]
  · intro same node name found
    rw [← same, called, found]

theorem name_all_rows (names : Cells String) (catalog : Catalog) (nodes : List Node)
    (coherent : names.Coherent catalog)
    (known : ∀ node ∈ nodes, ∃ symbol, catalog.symbol node.key = .ok symbol) :
    ∃ rows, (names.nameAll catalog nodes).1 = .ok rows ∧ rows.map (·.node) = nodes ∧
      ∀ row ∈ rows, catalog.symbol row.node.key = .ok row.symbol := by
  have named : ∃ rows, (names.nameAll catalog nodes).1 = .ok rows := by
    rw [name_all_called]
    apply map_total
    intro node member
    obtain ⟨symbol, here⟩ := known node member
    exact ⟨⟨symbol, node⟩, by rw [(names.coherent_iff catalog).mp coherent, here]; rfl⟩
  obtain ⟨rows, done⟩ := named
  refine ⟨rows, done, names.name_all_nodes catalog nodes rows done, fun row member => ?_⟩
  rw [← (names.coherent_iff catalog).mp coherent]
  exact ((names.mem_rows_iff catalog nodes rows done row).mp member).2

end Cells

namespace SymbolTable

variable (names : Cells String) (catalog : Catalog) (nodes : List Node)
  (coherent : names.Coherent catalog)
  (known : ∀ node ∈ nodes, ∃ symbol, catalog.symbol node.key = .ok symbol)

include coherent known

theorem of_nodes_rows : ∃ rows, (ofNodes names catalog nodes).1 = ofRows rows ∧
    rows.map (·.node) = nodes ∧ ∀ row ∈ rows, catalog.symbol row.node.key = .ok row.symbol := by
  obtain ⟨rows, done, listed, right⟩ := names.name_all_rows catalog nodes coherent known
  refine ⟨rows, ?_, listed, right⟩
  cases all : names.nameAll catalog nodes with
  | mk answer after =>
      simp only [all] at done
      simp only [ofNodes, all, done]

theorem of_nodes_error (fault : Fault) (refused : (ofNodes names catalog nodes).1 = .error fault) :
    ∃ one ∈ nodes, ∃ another ∈ nodes, one.key ≠ another.key ∧
      catalog.symbol one.key = catalog.symbol another.key ∧
      ∃ symbol, fault = .collision symbol one.key another.key := by
  obtain ⟨rows, same, listed, right⟩ := of_nodes_rows names catalog nodes coherent known
  obtain ⟨one, left, another, also, shared, distinct, shape⟩ := of_rows_error rows fault (same ▸ refused)
  refine ⟨one.node, listed ▸ List.mem_map_of_mem left, another.node, listed ▸ List.mem_map_of_mem also,
    distinct, ?_, one.symbol, shape⟩
  rw [right one left, right another also, shared]

theorem of_nodes_shared (one another : Node) (left : one ∈ nodes) (right : another ∈ nodes)
    (distinct : one.key ≠ another.key) (shared : catalog.symbol one.key = catalog.symbol another.key) :
    ∃ fault, (ofNodes names catalog nodes).1 = .error fault := by
  obtain ⟨rows, same, listed, given⟩ := of_nodes_rows names catalog nodes coherent known
  rw [same]
  obtain ⟨first, firstMember, rfl⟩ := List.mem_map.mp (listed.symm ▸ left : one ∈ rows.map (·.node))
  obtain ⟨second, secondMember, rfl⟩ := List.mem_map.mp (listed.symm ▸ right : another ∈ rows.map (·.node))
  have named : ∀ a ∈ rows, ∀ b ∈ rows, catalog.symbol a.node.key = catalog.symbol b.node.key →
      a.symbol = b.symbol := by
    intro a memberA b memberB symbols
    rw [given a memberA, given b memberB] at symbols
    exact Except.ok.inj symbols
  exact of_rows_shared rows (fun a memberA b memberB keys => named a memberA b memberB (by rw [keys])) first
    second firstMember secondMember (named first firstMember second secondMember shared) distinct

end SymbolTable

end ArtifactGraph
