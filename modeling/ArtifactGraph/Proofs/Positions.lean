import ArtifactGraph.Proofs.Tabulations

set_option autoImplicit false

/-! Rows are sorted by symbol and then by kind, but the search looks at the symbols
only. They rise strictly in every table that is made, since two rows that shared one
would have been one key or a collision. -/
namespace ArtifactGraph.SymbolTable

def Rising (table : SymbolTable) : Prop := table.rows.toList.Pairwise fun a b => a.symbol < b.symbol

theorem of_rows_rising (rows : List Row) (table : SymbolTable) (done : ofRows rows = .ok table) : table.Rising := by
  rcases of_rows_cases rows with ⟨_, _, _, result⟩ | ⟨apart, result⟩ <;> rw [result] at done
  · exact nomatch done
  · obtain rfl := Except.ok.inj done
    exact clash_none _ (sorted_symbols rows) apart

theorem of_nodes_rising (names : Cells String) (catalog : Catalog) (nodes : List Node) (table : SymbolTable)
    (done : (ofNodes names catalog nodes).1 = .ok table) : table.Rising := by
  rcases of_nodes_cases names catalog nodes with ⟨_, _, result⟩ | ⟨rows, _, result⟩ <;> rw [result] at done
  · exact nomatch done
  · exact of_rows_rising rows table done

section Search

variable (table : SymbolTable)

theorem rising_less (rising : table.Rising) (i j : Nat) (one another : Row) (left : table.rows[i]? = some one)
    (right : table.rows[j]? = some another) (less : i < j) : one.symbol < another.symbol := by
  obtain ⟨small, rfl⟩ := Array.getElem?_eq_some_iff.mp left
  obtain ⟨large, rfl⟩ := Array.getElem?_eq_some_iff.mp right
  exact List.pairwise_iff_getElem.mp rising i j small large less

theorem rising_less_iff (rising : table.Rising) (i j : Nat) (one another : Row) (left : table.rows[i]? = some one)
    (right : table.rows[j]? = some another) : one.symbol < another.symbol ↔ i < j := by
  constructor
  · intro smaller
    rcases Nat.lt_trichotomy i j with less | equal | more
    · exact less
    · obtain rfl := Option.some.inj (left.symm.trans (equal ▸ right))
      exact absurd smaller Std.lt_irrefl
    · have larger := table.rising_less rising j i another one right left more
      exact absurd (Std.lt_trans smaller larger) Std.lt_irrefl
  · exact table.rising_less rising i j one another left right

theorem rising_same (rising : table.Rising) (i j : Nat) (one another : Row) (left : table.rows[i]? = some one)
    (right : table.rows[j]? = some another) (same : one.symbol = another.symbol) : i = j := by
  have first := (not_congr (table.rising_less_iff rising i j one another left right)).mp (same ▸ Std.lt_irrefl)
  have second := (not_congr (table.rising_less_iff rising j i another one right left)).mp (same ▸ Std.lt_irrefl)
  omega

theorem search_found (symbol : String) (low high position : Nat)
    (found : table.search symbol low high = some position) :
    ∃ row, table.rows[position]? = some row ∧ row.symbol = symbol := by
  fun_induction table.search symbol low high with
  | case1 low high busy middle outside => exact nomatch found
  | case2 low high busy middle row here same => exact ⟨row, Option.some.inj found ▸ here, same⟩
  | case3 low high busy middle row here other less ih => exact ih found
  | case4 low high busy middle row here other more ih => exact ih found
  | case5 low high idle => exact nomatch found

-- The half that is dropped has only smaller symbols, or only larger ones.
theorem search_finds (rising : table.Rising) (symbol : String) (low high position : Nat) (row : Row)
    (here : table.rows[position]? = some row) (same : row.symbol = symbol) (above : low ≤ position)
    (below : position < high) (inside : high ≤ table.size) : table.search symbol low high = some position := by
  fun_induction table.search symbol low high with
  | case1 low high busy middle outside =>
      have bound : middle < table.size := by omega
      exact absurd bound (Nat.not_lt.mpr (Array.getElem?_eq_none_iff.mp outside))
  | case2 low high busy middle met there equal =>
      exact congrArg some (table.rising_same rising middle position met row there here (equal.trans same.symm))
  | case3 low high busy middle met there other less ih =>
      have later := (table.rising_less_iff rising middle position met row there here).mp (same ▸ less)
      exact ih later below inside
  | case4 low high busy middle met there other notLess ih =>
      have more : symbol < met.symbol := (Std.lt_trichotomy met.symbol symbol).resolve_left notLess |>.resolve_left other
      have earlier := (table.rising_less_iff rising position middle row met here there).mp (same ▸ more)
      exact ih above earlier (by omega)
  | case5 low high idle => exact absurd (Nat.lt_of_le_of_lt above below) idle

end Search

theorem symbols_get (table : SymbolTable) (position : Nat) (symbol : String) :
    table.symbols[position]? = some symbol ↔ ∃ row, table.rows[position]? = some row ∧ row.symbol = symbol := by
  simp [symbols]

theorem positions_exact (names : Cells String) (catalog : Catalog) (nodes : List Node) (table : SymbolTable)
    (done : (ofNodes names catalog nodes).1 = .ok table) (symbol : String) :
    (∀ position, table.position? symbol = some position ↔ table.symbols[position]? = some symbol) ∧
    (table.position? symbol = none ↔ symbol ∉ table.symbols) := by
  have rising := of_nodes_rising names catalog nodes table done
  have exactly : ∀ position, table.position? symbol = some position ↔ table.symbols[position]? = some symbol := by
    intro position
    rw [symbols_get]
    constructor
    · exact table.search_found symbol 0 table.size position
    · intro ⟨row, here, same⟩
      have bound : position < table.size := (Array.getElem?_eq_some_iff.mp here).1
      exact table.search_finds rising symbol 0 table.size position row here same (Nat.zero_le _) bound (Nat.le_refl _)
  refine ⟨exactly, ?_⟩
  rw [List.mem_iff_getElem?, Option.eq_none_iff_forall_ne_some, not_exists]
  exact forall_congr' fun position => not_congr (exactly position)

theorem shared_key_positions :
    let history : List Description := [.type (.named "App" "Main" []), .method { owner := ⟨0⟩, name := "Run" },
      .method { owner := ⟨0⟩, name := "Stop" }]
    let nodes : List Node := [⟨0, .body ⟨1⟩⟩, ⟨1, .body ⟨0⟩⟩, ⟨0, .body ⟨0⟩⟩]
    let run := "_nac_App$$_Main$$FRun$$S$$V$$E"
    let stop := "_nac_App$$_Main$$FStop$$S$$V$$E"
    ∃ table, (ofNodes {} (.ofHistory history) nodes).1 = .ok table ∧ table.symbols = [run, stop] ∧
      table.position? run = some 0 ∧ table.position? stop = some 1 ∧ table.position? "_nac_App$$_Main" = none := by
  intro history nodes run stop
  let rows : List Row := [⟨stop, ⟨0, .body ⟨1⟩⟩⟩, ⟨run, ⟨1, .body ⟨0⟩⟩⟩, ⟨run, ⟨0, .body ⟨0⟩⟩⟩]
  have sorted : rows.mergeSort Row.precedes =
      [⟨run, ⟨1, .body ⟨0⟩⟩⟩, ⟨run, ⟨0, .body ⟨0⟩⟩⟩, ⟨stop, ⟨0, .body ⟨1⟩⟩⟩] := by
    have first : Row.precedes ⟨stop, ⟨0, .body ⟨1⟩⟩⟩ ⟨run, ⟨1, .body ⟨0⟩⟩⟩ = false := by decide
    have second : Row.precedes ⟨stop, ⟨0, .body ⟨1⟩⟩⟩ ⟨run, ⟨0, .body ⟨0⟩⟩⟩ = false := by decide
    have third : Row.precedes ⟨run, ⟨1, .body ⟨0⟩⟩⟩ ⟨run, ⟨0, .body ⟨0⟩⟩⟩ = true := by decide
    simp [rows, List.mergeSort, List.MergeSort.Internal.splitInTwo, first, second, third]
  have done : (ofNodes {} (.ofHistory history) nodes).1 =
      .ok ⟨#[⟨run, ⟨1, .body ⟨0⟩⟩⟩, ⟨stop, ⟨0, .body ⟨1⟩⟩⟩]⟩ := by
    change ofRows rows = _
    rw [ofRows, sorted]
    rfl
  have exactly := positions_exact {} (.ofHistory history) nodes _ done
  exact ⟨_, done, rfl, ((exactly run).1 0).mpr rfl, ((exactly stop).1 1).mpr rfl, (exactly _).2.mpr (by decide)⟩

end ArtifactGraph.SymbolTable
