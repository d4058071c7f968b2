import ArtifactGraph.Proofs.Sessions
import ArtifactGraph.Proofs.Tables

set_option autoImplicit false

namespace ArtifactGraph

theorem erase_distinct {Item : Type} (same : Item → Item → Bool) (items : List Item)
    (distinct : items.Pairwise fun a b => same a b = false) : items.eraseRepsBy same = items := by
  cases items with
  | nil => rfl
  | cons first rest =>
      induction rest generalizing first with
      | nil => rfl
      | cons next rest ih =>
          obtain ⟨apart, later⟩ := List.pairwise_cons.mp distinct
          rw [erase_cons, apart next List.mem_cons_self, if_neg Bool.false_ne_true, ih next later]

def Catalog.Distinguishes (catalog : Catalog) (keys : List Key) : Prop :=
  ∀ a ∈ keys, ∀ b ∈ keys, catalog.symbol a = catalog.symbol b → a = b

namespace SymbolTable

def entries (table : SymbolTable) : List (String × Key) :=
  table.rows.toList.map fun row => (row.symbol, row.node.key)

structure Lists (catalog : Catalog) (keys : List Key) (table : SymbolTable) : Prop where
  rising : table.entries.Pairwise fun a b => a.1 < b.1
  named : ∀ entry ∈ table.entries, catalog.symbol entry.2 = .ok entry.1
  each : (table.entries.map Prod.snd).Perm keys

theorem sorted_distinct (rows : List Row) (once : (rows.map (·.node.key)).Nodup) :
    (rows.mergeSort Row.precedes).Pairwise fun a b => a.sameKey b = false := by
  have keys := ((List.mergeSort_perm rows Row.precedes).map (·.node.key)).nodup_iff.mpr once
  refine (List.pairwise_map.mp keys).imp fun differ => ?_
  simpa [Row.sameKey] using differ

theorem of_rows_lists (catalog : Catalog) (rows : List Row) (once : (rows.map (·.node.key)).Nodup)
    (named : ∀ row ∈ rows, catalog.symbol row.node.key = .ok row.symbol) (table : SymbolTable)
    (done : ofRows rows = .ok table) : table.Lists catalog (rows.map (·.node.key)) := by
  have perm := List.mergeSort_perm rows Row.precedes
  have whole := erase_distinct Row.sameKey _ (sorted_distinct rows once)
  rcases of_rows_cases rows with ⟨_, _, _, refused⟩ | ⟨apart, result⟩
  · exact nomatch refused.symm.trans done
  · have rising := clash_none _ (sorted_symbols rows) apart
    rw [whole] at rising result
    rw [← Except.ok.inj (result.symm.trans done)]
    refine ⟨List.pairwise_map.mpr rising, ?_, ?_⟩
    · intro entry member
      obtain ⟨row, found, rfl⟩ := List.mem_map.mp member
      exact named row (perm.mem_iff.mp found)
    · rw [entries, List.map_map]
      exact perm.map (·.node.key)

theorem mem_entries_iff (catalog : Catalog) (keys : List Key) (table : SymbolTable)
    (lists : table.Lists catalog keys) (symbol : String) (key : Key) :
    (symbol, key) ∈ table.entries ↔ key ∈ keys ∧ catalog.symbol key = .ok symbol := by
  constructor
  · intro member
    exact ⟨lists.each.mem_iff.mp (List.mem_map_of_mem member), lists.named _ member⟩
  · intro ⟨listed, named⟩
    obtain ⟨⟨other, found⟩, member, rfl⟩ := List.mem_map.mp (lists.each.mem_iff.mpr listed)
    have same := lists.named _ member
    rw [named, Except.ok.injEq] at same
    exact same ▸ member

theorem rising_unique (one another : List (String × Key)) (left : one.Pairwise fun a b => a.1 < b.1)
    (right : another.Pairwise fun a b => a.1 < b.1) (same : ∀ entry, entry ∈ one ↔ entry ∈ another) :
    one = another :=
  rising_equal (fun a b => a.1 < b.1) (fun _ => Std.lt_irrefl) (fun _ _ _ => Std.lt_trans) one another left right same

theorem lists_correspond (first second : Catalog) (keys others : List Key) (one another : SymbolTable)
    (left : one.Lists first keys) (right : another.Lists second others) (image : Key → Key)
    (images : ∀ key, key ∈ others ↔ key ∈ keys.map image)
    (symbols : ∀ key ∈ keys, second.symbol (image key) = first.symbol key) :
    another.entries = one.entries.map fun entry => (entry.1, image entry.2) := by
  refine rising_unique _ _ right.rising (List.pairwise_map.mpr left.rising) ?_
  intro ⟨symbol, key⟩
  rw [mem_entries_iff second others another right, images, List.mem_map, List.mem_map]
  constructor
  · rintro ⟨⟨source, member, rfl⟩, named⟩
    rw [symbols source member] at named
    exact ⟨(symbol, source), (mem_entries_iff first keys one left symbol source).mpr ⟨member, named⟩, rfl⟩
  · rintro ⟨⟨other, source⟩, member, same⟩
    obtain ⟨rfl, rfl⟩ := Prod.mk.inj same
    obtain ⟨listed, named⟩ := (mem_entries_iff first keys one left _ source).mp member
    exact ⟨⟨source, listed, rfl⟩, (symbols source listed).trans named⟩

theorem lists_perm (catalog : Catalog) (keys others : List Key) (table : SymbolTable) (perm : keys.Perm others)
    (lists : table.Lists catalog keys) : table.Lists catalog others :=
  ⟨lists.rising, lists.named, lists.each.trans perm⟩

section Nodes

variable (names : Cells String) (catalog : Catalog) (nodes : List Node)
  (coherent : names.Coherent catalog)
  (known : ∀ node ∈ nodes, ∃ symbol, catalog.symbol node.key = .ok symbol)

include coherent known

theorem of_nodes_lists (once : (nodes.map (·.key)).Nodup) (table : SymbolTable)
    (done : (ofNodes names catalog nodes).1 = .ok table) : table.Lists catalog (nodes.map (·.key)) := by
  obtain ⟨rows, same, listed, named⟩ := of_nodes_rows names catalog nodes coherent known
  have keys : nodes.map (·.key) = rows.map (·.node.key) := by
    rw [← listed, List.map_map]
    rfl
  rw [keys] at once ⊢
  exact of_rows_lists catalog rows once named table (same.symm.trans done)

theorem of_nodes_done_iff :
    (∃ table, (ofNodes names catalog nodes).1 = .ok table) ↔
      catalog.Distinguishes (nodes.map (·.key)) := by
  constructor
  · intro ⟨table, done⟩ a left b right shared
    obtain ⟨one, first, rfl⟩ := List.mem_map.mp left
    obtain ⟨another, second, rfl⟩ := List.mem_map.mp right
    apply Classical.byContradiction
    intro distinct
    obtain ⟨fault, refused⟩ := of_nodes_shared names catalog nodes coherent known one another first second
      distinct shared
    exact nomatch done.symm.trans refused
  · intro apart
    cases answer : (ofNodes names catalog nodes).1 with
    | ok table => exact ⟨table, rfl⟩
    | error fault =>
        obtain ⟨one, left, another, right, distinct, shared, _⟩ :=
          of_nodes_error names catalog nodes coherent known fault answer
        have same := apart _ (List.mem_map_of_mem left) _ (List.mem_map_of_mem right) shared
        exact absurd same distinct

end Nodes

end SymbolTable

-- A set of marks gives its nodes in an order that nothing fixes.
structure Listing where
  nodes : Marks → List Node
  perm : ∀ marks, (nodes marks).Perm marks.nodes

def Listing.made : Listing := ⟨Marks.nodes, fun _ => .refl _⟩

namespace Workspace

def planListed (workspace : Workspace) (compilation : Compilation) (schedule : Schedule) (record : Bool)
    (listing : Listing) (roots : List Node) : Except Fault Plan × Workspace :=
  match workspace.markBy compilation schedule record roots with
  | (.error fault, workspace) => (.error fault, workspace)
  | (.ok marking, workspace) =>
    match SymbolTable.ofNodes workspace.names compilation.catalog (listing.nodes marking.marks) with
    | (.error fault, names) => (.error fault, { workspace with names })
    | (.ok table, names) =>
      (.ok ⟨marking.marks, table, marking.report?⟩, { workspace with names })

theorem plan_by_made (workspace : Workspace) (compilation : Compilation) (schedule : Schedule)
    (record : Bool) (roots : List Node) :
    workspace.planBy compilation schedule record roots =
      workspace.planListed compilation schedule record .made roots :=
  rfl

theorem plan_listed_cases (workspace : Workspace) (compilation : Compilation) (schedule : Schedule)
    (record : Bool) (listing : Listing) (roots : List Node) :
    (∃ fault, (workspace.markBy compilation schedule record roots).1 = .error fault ∧
      (workspace.planListed compilation schedule record listing roots).1 = .error fault) ∨
    (∃ marking, (workspace.markBy compilation schedule record roots).1 = .ok marking ∧
      (workspace.planListed compilation schedule record listing roots).1 =
        (SymbolTable.ofNodes workspace.names compilation.catalog (listing.nodes marking.marks)).1.map
          fun table => ⟨marking.marks, table, marking.report?⟩) := by
  have names := workspace.mark_by_names compilation schedule record roots
  unfold planListed
  cases marked : workspace.markBy compilation schedule record roots with
  | mk answer after =>
      rw [marked] at names
      cases answer with
      | error fault => exact .inl ⟨fault, rfl, rfl⟩
      | ok marking =>
          refine .inr ⟨marking, rfl, ?_⟩
          simp only at names
          simp only [names]
          cases listed : SymbolTable.ofNodes workspace.names compilation.catalog
              (listing.nodes marking.marks) with
          | mk table last => cases table <;> rfl

theorem plan_listed_iff (workspace : Workspace) (compilation : Compilation) (schedule : Schedule)
    (record : Bool) (listing : Listing) (roots : List Node) (plan : Plan) :
    (workspace.planListed compilation schedule record listing roots).1 = .ok plan ↔
      (workspace.markBy compilation schedule record roots).1 = .ok ⟨plan.marks, plan.report?⟩ ∧
      (SymbolTable.ofNodes workspace.names compilation.catalog (listing.nodes plan.marks)).1 =
        .ok plan.table := by
  rcases workspace.plan_listed_cases compilation schedule record listing roots with
    ⟨fault, marked, result⟩ | ⟨marking, marked, result⟩ <;> rw [marked, result]
  · exact ⟨fun done => (nomatch done), fun done => (nomatch done.1)⟩
  · cases listed : (SymbolTable.ofNodes workspace.names compilation.catalog
        (listing.nodes marking.marks)).1 with
    | error fault =>
        refine ⟨fun done => (nomatch done), fun ⟨same, done⟩ => ?_⟩
        rw [Except.ok.inj same] at listed
        exact nomatch listed.symm.trans done
    | ok table =>
        constructor
        · intro done
          rw [← Except.ok.inj done]
          exact ⟨rfl, listed⟩
        · intro ⟨same, done⟩
          rw [Except.ok.inj same] at listed ⊢
          rw [Except.ok.inj (listed.symm.trans done)]
          rfl

theorem plan_listed_recorded (workspace : Workspace) (compilation : Compilation) (schedule : Schedule)
    (record : Bool) (listing : Listing) (roots : List Node) (plan : Plan)
    (done : (workspace.planListed compilation schedule record listing roots).1 = .ok plan) :
    plan.report?.isSome = record := by
  have marked := ((workspace.plan_listed_iff compilation schedule record listing roots plan).mp done).1
  rcases workspace.mark_by_cases compilation schedule record roots with
    ⟨_, _, result⟩ | ⟨final, _, result⟩ <;> rw [result] at marked
  · exact nomatch marked
  · have report : (if record then some final.report else none) = plan.report? :=
      congrArg Marking.report? (Except.ok.inj marked)
    rw [← report]
    cases record <;> rfl

end Workspace

end ArtifactGraph
