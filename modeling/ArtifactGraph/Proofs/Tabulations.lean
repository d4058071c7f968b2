import ArtifactGraph.Proofs.Symbols
import ArtifactGraph.Proofs.Tables

set_option autoImplicit false

namespace ArtifactGraph.SymbolTable

structure Shares (called : Node → Except Fault String) (nodes : List Node) (symbol : String) (a b : Key) : Prop where
  differ : a ≠ b
  first : ∃ node ∈ nodes, node.key = a ∧ called node = .ok symbol
  second : ∃ node ∈ nodes, node.key = b ∧ called node = .ok symbol

structure Enumerates (called : Node → Except Fault String) (nodes : List Node) (table : SymbolTable) : Prop where
  rising : table.rows.toList.Pairwise fun a b => a.symbol < b.symbol
  named : ∀ row ∈ table.rows.toList, row.node ∈ nodes ∧ called row.node = .ok row.symbol
  once : (table.rows.toList.map (·.node.key)).Nodup
  each : ∀ node ∈ nodes, node.key ∈ table.rows.toList.map (·.node.key)

structure Tabulates (called : Node → Except Fault String) (nodes : List Node)
    (answer : Except Fault SymbolTable) : Prop where
  unnamed : (∃ handle, answer = .error (.undescribed handle)) ↔ ∃ node ∈ nodes, ∃ fault, called node = .error fault
  collides : (∃ symbol a b, answer = .error (.collision symbol a b)) ↔
    (∀ node ∈ nodes, ∃ symbol, called node = .ok symbol) ∧ ∃ symbol a b, Shares called nodes symbol a b
  least : ∀ symbol a b, answer = .error (.collision symbol a b) →
    Shares called nodes symbol a b ∧ ∀ shared c d, Shares called nodes shared c d → symbol ≤ shared
  listed : ∀ table, answer = .ok table → Enumerates called nodes table
  ends : (∃ handle, answer = .error (.undescribed handle)) ∨ (∃ symbol a b, answer = .error (.collision symbol a b)) ∨
    ∃ table, answer = .ok table

-- Nodes of one registry with the same key are the same, and so are their rows.
theorem row_of_key (called : Node → Except Fault String) (number : Nat) (nodes : List Node)
    (own : ∀ node ∈ nodes, node.home = number) (one another : Row)
    (left : one.node ∈ nodes ∧ called one.node = .ok one.symbol)
    (right : another.node ∈ nodes ∧ called another.node = .ok another.symbol)
    (key : one.node.key = another.node.key) : one = another := by
  obtain ⟨first, firstCalled⟩ := left
  obtain ⟨second, secondCalled⟩ := right
  have node : one.node = another.node :=
    (Node.mk.injEq _ _ _ _).mpr ⟨(own _ first).trans (own _ second).symm, key⟩
  rw [node, secondCalled] at firstCalled
  exact (Row.mk.injEq _ _ _ _).mpr ⟨(Except.ok.inj firstCalled).symm, node⟩

section Rows

variable (called : Node → Except Fault String) (number : Nat) (nodes : List Node) (rows : List Row)
  (own : ∀ node ∈ nodes, node.home = number)
  (members : ∀ row, row ∈ rows ↔ row.node ∈ nodes ∧ called row.node = .ok row.symbol)

include members

theorem shares_rows (symbol : String) (a b : Key) (shares : Shares called nodes symbol a b) :
    ∃ one ∈ rows, ∃ another ∈ rows, one.symbol = symbol ∧ another.symbol = symbol ∧
      one.node.key = a ∧ another.node.key = b := by
  obtain ⟨first, left, rfl, one⟩ := shares.first
  obtain ⟨second, right, rfl, another⟩ := shares.second
  exact ⟨⟨symbol, first⟩, (members _).mpr ⟨left, one⟩, ⟨symbol, second⟩, (members _).mpr ⟨right, another⟩,
    rfl, rfl, rfl, rfl⟩

include own

theorem mem_distinct_iff (row : Row) :
    row ∈ (rows.mergeSort Row.precedes).eraseRepsBy Row.sameKey ↔ row ∈ rows := by
  constructor
  · exact fun member => (sort_mem rows row).mp (erase_mem _ _ row member)
  · intro member
    obtain ⟨kept, found, alike⟩ := erase_covers Row.sameKey _ (fun row => (Row.same_key_iff row row).mpr rfl) row
      ((sort_mem rows row).mpr member)
    have within := (sort_mem rows kept).mp (erase_mem _ _ kept found)
    have key := (Row.same_key_iff kept row).mp alike
    have same := row_of_key called number nodes own kept row ((members kept).mp within) ((members row).mp member) key
    exact same ▸ found

theorem of_rows_least (fault : Fault) (refused : ofRows rows = .error fault) :
    ∃ symbol a b, fault = .collision symbol a b ∧ Shares called nodes symbol a b ∧
      ∀ shared c d, Shares called nodes shared c d → symbol ≤ shared := by
  have distinct := mem_distinct_iff called number nodes rows own members
  rcases of_rows_cases rows with ⟨one, another, found, result⟩ | ⟨_, result⟩ <;> rw [result] at refused
  · obtain ⟨same, differ⟩ := clash_some _ one another found
    obtain ⟨left, right⟩ := clash_mem _ one another found
    obtain ⟨first, firstCalled⟩ := (members one).mp ((distinct one).mp left)
    obtain ⟨second, secondCalled⟩ := (members another).mp ((distinct another).mp right)
    refine ⟨one.symbol, one.node.key, another.node.key, (Except.error.inj refused).symm,
      ⟨differ, ⟨one.node, first, rfl, firstCalled⟩, ⟨another.node, second, rfl, same ▸ secondCalled⟩⟩, ?_⟩
    intro shared c d shares
    obtain ⟨early, earlyRow, late, lateRow, rfl, symbols, keyC, keyD⟩ :=
      shares_rows called nodes rows members shared c d shares
    have apart : early ≠ late := fun equal => shares.differ (by rw [← keyC, ← keyD, equal])
    exact clash_least _ (sorted_symbols rows) one another found early late ((distinct early).mpr earlyRow)
      ((distinct late).mpr lateRow) apart symbols.symm
  · exact nomatch refused

theorem of_rows_collides (symbol : String) (a b : Key) (shares : Shares called nodes symbol a b) :
    ∃ fault, ofRows rows = .error fault := by
  obtain ⟨one, left, another, right, first, second, rfl, rfl⟩ :=
    shares_rows called nodes rows members symbol a b shares
  refine of_rows_shared rows (fun c memberC d memberD key => ?_) one another left right (first.trans second.symm)
    shares.differ
  have same := row_of_key called number nodes own c d ((members c).mp memberC) ((members d).mp memberD) key
  exact congrArg Row.symbol same

theorem of_rows_enumerates (total : ∀ node ∈ nodes, ∃ symbol, called node = .ok symbol) (table : SymbolTable)
    (done : ofRows rows = .ok table) : Enumerates called nodes table := by
  have distinct := mem_distinct_iff called number nodes rows own members
  rcases of_rows_cases rows with ⟨_, _, _, result⟩ | ⟨apart, result⟩ <;> rw [result] at done
  · exact nomatch done
  · obtain rfl := Except.ok.inj done
    have rising := clash_none _ (sorted_symbols rows) apart
    refine ⟨rising, fun row member => (members row).mp ((distinct row).mp member), ?_, ?_⟩
    · refine List.pairwise_map.mpr (rising.imp_of_mem fun {a b} left right less key => ?_)
      have same := row_of_key called number nodes own a b ((members a).mp ((distinct a).mp left))
        ((members b).mp ((distinct b).mp right)) key
      exact Std.lt_irrefl (same ▸ less)
    · intro node member
      obtain ⟨symbol, name⟩ := total node member
      exact List.mem_map.mpr ⟨⟨symbol, node⟩, (distinct _).mpr ((members _).mpr ⟨member, name⟩), rfl⟩

theorem of_rows_tabulates (total : ∀ node ∈ nodes, ∃ symbol, called node = .ok symbol) :
    Tabulates called nodes (ofRows rows) := by
  have least := of_rows_least called number nodes rows own members
  refine ⟨⟨?_, ?_⟩, ⟨?_, ?_⟩, ?_, of_rows_enumerates called number nodes rows own members total, ?_⟩
  · intro ⟨handle, refused⟩
    obtain ⟨_, _, _, shape, _⟩ := least _ refused
    exact nomatch shape
  · intro ⟨node, member, fault, uncalled⟩
    obtain ⟨symbol, given⟩ := total node member
    exact nomatch given.symm.trans uncalled
  · intro ⟨symbol, a, b, collided⟩
    obtain ⟨shared, c, d, _, shares, _⟩ := least _ collided
    exact ⟨total, shared, c, d, shares⟩
  · intro ⟨_, symbol, a, b, shares⟩
    obtain ⟨fault, refused⟩ := of_rows_collides called number nodes rows own members symbol a b shares
    obtain ⟨shared, c, d, rfl, _⟩ := least fault refused
    exact ⟨shared, c, d, refused⟩
  · intro symbol a b collided
    obtain ⟨_, _, _, shape, found⟩ := least _ collided
    obtain ⟨rfl, rfl, rfl⟩ := Fault.collision.inj shape
    exact found
  · cases answer : ofRows rows with
    | ok table => exact .inr (.inr ⟨table, rfl⟩)
    | error fault =>
        obtain ⟨symbol, a, b, rfl, _⟩ := least fault answer
        exact .inr (.inl ⟨symbol, a, b, rfl⟩)

end Rows

theorem of_nodes_cases (names : Cells String) (catalog : Catalog) (nodes : List Node) :
    (∃ fault, (names.nameAll catalog nodes).1 = .error fault ∧ (ofNodes names catalog nodes).1 = .error fault) ∨
    (∃ rows, (names.nameAll catalog nodes).1 = .ok rows ∧ (ofNodes names catalog nodes).1 = ofRows rows) := by
  unfold ofNodes
  cases names.nameAll catalog nodes with
  | mk answer after =>
      cases answer with
      | error fault => exact .inl ⟨fault, rfl, rfl⟩
      | ok rows => exact .inr ⟨rows, rfl, rfl⟩

theorem of_nodes_tabulates (catalog : Catalog) (sound : catalog.Sound) (names : Cells String) (number : Nat)
    (nodes : List Node) (own : ∀ node ∈ nodes, node.home = number) :
    Tabulates (names.called catalog) nodes (ofNodes names catalog nodes).1 := by
  have all := names.name_all_called catalog nodes
  rcases of_nodes_cases names catalog nodes with ⟨fault, named, result⟩ | ⟨rows, named, result⟩ <;> rw [result]
  · obtain ⟨node, member, refused⟩ := map_error _ nodes fault (all.symm.trans named)
    have uncalled : names.called catalog node = .error fault := by
      cases given : names.called catalog node with
      | ok symbol => simp [given, Except.map] at refused
      | error other => simpa [given, Except.map] using refused
    have known := ((names.called_error_iff catalog node fault).mp uncalled).2
    obtain ⟨_, rfl⟩ := (Catalog.symbol_error_iff catalog sound node.key fault).mp known
    refine ⟨⟨fun _ => ⟨node, member, _, uncalled⟩, fun _ => ⟨_, rfl⟩⟩, ⟨?_, ?_⟩, ?_, ?_, .inl ⟨_, rfl⟩⟩
    · exact fun ⟨_, _, _, collided⟩ => nomatch collided
    · intro ⟨total, _⟩
      obtain ⟨symbol, given⟩ := total node member
      exact nomatch given.symm.trans uncalled
    · exact fun _ _ _ collided => nomatch collided
    · exact fun _ done => nomatch done
  · have members := names.mem_rows_iff catalog nodes rows named
    refine of_rows_tabulates (names.called catalog) number nodes rows own members fun node member => ?_
    rw [← names.name_all_nodes catalog nodes rows named] at member
    obtain ⟨row, listed, rfl⟩ := List.mem_map.mp member
    exact ⟨row.symbol, ((members row).mp listed).2⟩

structure Indistinct (one another : Except Fault SymbolTable) : Prop where
  tables : ∀ table, one = .ok table ↔ another = .ok table
  symbols : ∀ symbol, (∃ a b, one = .error (.collision symbol a b)) ↔ ∃ a b, another = .error (.collision symbol a b)
  unnamed : (∃ handle, one = .error (.undescribed handle)) ↔ ∃ handle, another = .error (.undescribed handle)

section Reordered

variable (called : Node → Except Fault String) (number : Nat) (nodes others : List Node)
  (own : ∀ node ∈ nodes, node.home = number) (same : ∀ node, node ∈ nodes ↔ node ∈ others)
  (one another : Except Fault SymbolTable) (left : Tabulates called nodes one) (right : Tabulates called others another)

theorem shares_same (same : ∀ node, node ∈ nodes ↔ node ∈ others) (symbol : String) (a b : Key) :
    Shares called nodes symbol a b ↔ Shares called others symbol a b := by
  have members : nodes.Subset others ∧ others.Subset nodes :=
    ⟨fun node => (same node).mp, fun node => (same node).mpr⟩
  constructor
  · rintro ⟨differ, ⟨first, listed, found⟩, second, also, shown⟩
    exact ⟨differ, ⟨first, members.1 listed, found⟩, second, members.1 also, shown⟩
  · rintro ⟨differ, ⟨first, listed, found⟩, second, also, shown⟩
    exact ⟨differ, ⟨first, members.2 listed, found⟩, second, members.2 also, shown⟩

include own in
theorem enumerates_mem_iff (table : SymbolTable) (lists : Enumerates called nodes table) (row : Row) :
    row ∈ table.rows.toList ↔ row.node ∈ nodes ∧ called row.node = .ok row.symbol := by
  constructor
  · exact lists.named row
  · intro named
    obtain ⟨other, found, key⟩ := List.mem_map.mp (lists.each row.node named.1)
    exact row_of_key called number nodes own other row (lists.named other found) named key ▸ found

include own same left right in
theorem tabulates_table (table : SymbolTable) (done : one = .ok table) : another = .ok table := by
  subst done
  have lists := left.listed table rfl
  have total : ∀ node ∈ nodes, ∃ symbol, called node = .ok symbol := by
    intro node member
    cases given : called node with
    | ok symbol => exact ⟨symbol, rfl⟩
    | error fault =>
        obtain ⟨_, refused⟩ := left.unnamed.mpr ⟨node, member, fault, given⟩
        exact nomatch refused
  rcases right.ends with unnamed | ⟨symbol, a, b, collided⟩ | ⟨other, answered⟩
  · obtain ⟨node, member, fault, uncalled⟩ := right.unnamed.mp unnamed
    obtain ⟨symbol, given⟩ := total node ((same node).mpr member)
    exact nomatch given.symm.trans uncalled
  · have shares := (shares_same called nodes others same symbol a b).mpr (right.least symbol a b collided).1
    obtain ⟨_, _, _, refused⟩ := left.collides.mpr ⟨total, symbol, a, b, shares⟩
    exact nomatch refused
  · have relists := right.listed other answered
    have belongs : ∀ node ∈ others, node.home = number := fun node member => own node ((same node).mpr member)
    have rows : table.rows.toList = other.rows.toList := by
      refine rising_equal (fun a b => a.symbol < b.symbol) (fun _ => Std.lt_irrefl) (fun _ _ _ => Std.lt_trans)
        _ _ lists.rising relists.rising fun row => ?_
      rw [enumerates_mem_iff called number nodes own table lists,
        enumerates_mem_iff called number others belongs other relists, same]
    have tables : table = other := (SymbolTable.mk.injEq _ _).mpr (Array.toList_inj.mp rows)
    rw [answered, tables]

include same left right in
theorem tabulates_symbol (symbol : String) (collided : ∃ a b, one = .error (.collision symbol a b)) :
    ∃ a b, another = .error (.collision symbol a b) := by
  obtain ⟨a, b, refused⟩ := collided
  have moved := shares_same called nodes others same
  obtain ⟨shares, least⟩ := left.least symbol a b refused
  obtain ⟨total, _⟩ := left.collides.mp ⟨symbol, a, b, refused⟩
  obtain ⟨shared, c, d, again⟩ := right.collides.mpr
    ⟨fun node member => total node ((same node).mpr member), symbol, a, b, (moved symbol a b).mp shares⟩
  obtain ⟨reshares, releast⟩ := right.least shared c d again
  have below := least shared c d ((moved shared c d).mpr reshares)
  have above := releast symbol a b ((moved symbol a b).mp shares)
  exact ⟨c, d, String.le_antisymm below above ▸ again⟩

end Reordered

-- Names in the cells may come from another catalog. An unnamed node is one whose cell
-- is empty and whose key is not described.
theorem tabulation_exact (history : List Description) (names : Cells String) (number : Nat) (nodes : List Node)
    (own : ∀ node ∈ nodes, node.home = number) :
    let catalog := Catalog.ofHistory history
    Tabulates (names.called catalog) nodes (ofNodes names catalog nodes).1 ∧
    (∀ node, (∃ fault, names.called catalog node = .error fault) ↔
      names.get? node = none ∧ ∃ fault, catalog.symbol node.key = .error fault) ∧
    ∀ others, (∀ node, node ∈ nodes ↔ node ∈ others) →
      Indistinct (ofNodes names catalog nodes).1 (ofNodes names catalog others).1 := by
  intro catalog
  have sound : catalog.Sound := Catalog.history_sound history
  have left := of_nodes_tabulates catalog sound names number nodes own
  refine ⟨left, fun node => by simp only [names.called_error_iff, exists_and_left], ?_⟩
  intro others same
  have belongs : ∀ node ∈ others, node.home = number := fun node member => own node ((same node).mpr member)
  have back := fun node => (same node).symm
  have right := of_nodes_tabulates catalog sound names number others belongs
  refine ⟨fun table => ⟨?_, ?_⟩, fun symbol => ⟨?_, ?_⟩, ?_⟩
  · exact tabulates_table _ number nodes others own same _ _ left right table
  · exact tabulates_table _ number others nodes belongs back _ _ right left table
  · exact tabulates_symbol _ nodes others same _ _ left right symbol
  · exact tabulates_symbol _ others nodes back _ _ right left symbol
  · simp only [left.unnamed, right.unnamed, same]

theorem misnamed_tabulated :
    let history : List Description := [.type (.named "App" "Main" []), .method { owner := ⟨0⟩, name := "Run" },
      .method { owner := ⟨0⟩, name := "Stop" }]
    let catalog := Catalog.ofHistory history
    let other := Catalog.ofHistory [.type (.named "App" "Main" []), .method { owner := ⟨0⟩, name := "Stop" }]
    let names := (Cells.name {} other ⟨0, .body ⟨0⟩⟩).2
    let stop := "_nac_App$$_Main$$FStop$$S$$V$$E"
    let nodes : List Node := [⟨0, .body ⟨0⟩⟩, ⟨0, .body ⟨1⟩⟩, ⟨0, .body ⟨0⟩⟩]
    let twice : List Node := [⟨0, .body ⟨0⟩⟩, ⟨0, .body ⟨0⟩⟩]
    (∀ node ∈ nodes, node.home = 0) ∧ (∀ node ∈ twice, node.home = 0) ∧
    (∃ a b, (ofNodes names catalog nodes).1 = .error (.collision stop a b)) ∧
    (∃ a b, (ofNodes names catalog nodes.tail).1 = .error (.collision stop a b)) ∧
    ∃ table, (ofNodes names catalog twice).1 = .ok table ∧ (ofNodes names catalog twice.tail).1 = .ok table ∧
      Enumerates (names.called catalog) twice table := by
  intro history catalog other names stop nodes twice
  have own : ∀ node ∈ nodes, node.home = 0 := by decide
  have ownTwice : ∀ node ∈ twice, node.home = 0 := by decide
  have all : ∀ node ∈ nodes, names.called catalog node = .ok stop := by
    simp only [nodes, List.forall_mem_cons]
    exact ⟨rfl, rfl, rfl, fun _ member => nomatch member⟩
  have same : ∀ node, node ∈ nodes ↔ node ∈ nodes.tail := by
    intro node
    simp only [nodes, List.tail_cons, List.mem_cons, List.not_mem_nil, or_false]
    grind
  obtain ⟨tabulates, _, moved⟩ := tabulation_exact history names 0 nodes own
  obtain ⟨lists, _, kept⟩ := tabulation_exact history names 0 twice ownTwice
  have collided : ∃ a b, (ofNodes names catalog nodes).1 = .error (.collision stop a b) := by
    obtain ⟨symbol, a, b, refused⟩ := tabulates.collides.mpr ⟨fun node member => ⟨stop, all node member⟩,
      stop, .body ⟨0⟩, .body ⟨1⟩, by decide, ⟨_, List.mem_cons_self, rfl, rfl⟩,
      ⟨_, List.mem_cons_of_mem _ List.mem_cons_self, rfl, rfl⟩⟩
    obtain ⟨node, member, _, found⟩ := (tabulates.least symbol a b refused).1.first
    obtain rfl := Except.ok.inj (found.symm.trans (all node member))
    exact ⟨a, b, refused⟩
  have only : ∀ node ∈ twice, node.key = .body ⟨0⟩ ∧ node ∈ nodes := by decide
  refine ⟨own, ownTwice, collided, ((moved _ same).symbols stop).mp collided, ?_⟩
  rcases lists.ends with unnamed | ⟨symbol, a, b, refused⟩ | ⟨table, done⟩
  · obtain ⟨node, member, fault, uncalled⟩ := lists.unnamed.mp unnamed
    exact nomatch (all node (only node member).2).symm.trans uncalled
  · obtain ⟨differ, ⟨first, left, one, _⟩, second, right, another, _⟩ := (lists.least symbol a b refused).1
    exact absurd (one.symm.trans ((only first left).1.trans ((only second right).1.symm.trans another))) differ
  · exact ⟨table, done, ((kept _ (by simp [twice])).tables table).mp done, lists.listed table done⟩

end ArtifactGraph.SymbolTable
