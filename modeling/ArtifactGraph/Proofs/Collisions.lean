import ArtifactGraph.Proofs.Closure
import ArtifactGraph.Proofs.Faults
import ArtifactGraph.Proofs.Listings
import ArtifactGraph.Proofs.Symbols

set_option autoImplicit false

namespace ArtifactGraph

namespace Catalog

def MethodsApart (catalog : Catalog) : Prop := ∀ a b, catalog.MethodsAgree a b → a = b

theorem single_apart (catalog : Catalog) (single : catalog.methods.size ≤ 1) : catalog.MethodsApart := by
  intro a b ⟨form, other, here, there, _⟩
  have first := catalog.methods.get_size a.position form here
  have second := catalog.methods.get_size b.position other there
  cases a
  cases b
  simp only [MethodId.mk.injEq] at *
  omega

theorem agreeing_admitted (catalog : Catalog) (sound : catalog.Sound) (a b : MethodId)
    (agree : catalog.MethodsAgree a b) : catalog.Admits (.body a) ∧ catalog.Admits (.body b) := by
  obtain ⟨form, other, left, right, _⟩ := agree
  exact ⟨⟨rfl, (catalog.has_method_iff sound a).mpr ⟨form, left⟩⟩,
    ⟨rfl, (catalog.has_method_iff sound b).mpr ⟨other, right⟩⟩⟩

theorem agreeing_symbols (catalog : Catalog) (sound : catalog.Sound) (a b : MethodId)
    (agree : catalog.MethodsAgree a b) : catalog.symbol (.body a) = catalog.symbol (.body b) := by
  obtain ⟨left, right⟩ := catalog.agreeing_admitted sound a b agree
  exact (symbol_same catalog sound _ _ left.2 right.2).mpr ⟨rfl, .method a b agree⟩

theorem symbols_apart (catalog : Catalog) (sound : catalog.Sound) (apart : catalog.MethodsApart) (a b : Key)
    (left : catalog.Admits a) (right : catalog.Admits b) (shared : catalog.symbol a = catalog.symbol b) :
    a = b := by
  obtain ⟨kind, payload⟩ := (symbol_same catalog sound a b left.2 right.2).mp shared
  refine key_of_kind a b kind ?_
  generalize a.payload = first at payload
  generalize b.payload = second at payload
  cases payload with
  | type id => rfl
  | method a b agree => rw [apart a b agree]
  | delegate a b binding agree => rw [apart a b agree]

end Catalog

namespace Workspace

theorem plan_by_cases (workspace : Workspace) (compilation : Compilation) (schedule : Schedule)
    (record : Bool) (roots : List Node) :
    (∃ fault, (workspace.markBy compilation schedule record roots).1 = .error fault ∧
      (workspace.planBy compilation schedule record roots).1 = .error fault) ∨
    (∃ marking, (workspace.markBy compilation schedule record roots).1 = .ok marking ∧
      (workspace.planBy compilation schedule record roots).1 =
        (SymbolTable.ofNodes workspace.names compilation.catalog marking.marks.nodes).1.map fun table =>
          ⟨marking.marks, table, marking.report?⟩) := by
  rw [plan_by_made]
  exact workspace.plan_listed_cases compilation schedule record .made roots

section Marked

variable (workspace : Workspace) (compilation : Compilation) (schedule : Schedule) (record : Bool)
  (roots : List Node) (closed : workspace.Closed compilation.catalog)
  (known : ∀ root ∈ roots, workspace.registry.lookup root.key = some root)

theorem mark_by_early (fault : Fault)
    (refused : (workspace.markBy compilation schedule record roots).1 = .error fault) : fault.Early := by
  have settled := Sweep.run_tally compilation schedule workspace roots
  rcases workspace.mark_by_cases compilation schedule record roots with
    ⟨halt, ran, result⟩ | ⟨_, _, result⟩ <;> rw [result] at refused
  · rw [ran] at settled
    exact Except.error.inj refused ▸ settled
  · exact nomatch refused

theorem mark_by_once (marking : Marking)
    (done : (workspace.markBy compilation schedule record roots).1 = .ok marking) :
    marking.marks.keys.Nodup := by
  have settled := Sweep.run_tally compilation schedule workspace roots
  rcases workspace.mark_by_cases compilation schedule record roots with
    ⟨_, _, result⟩ | ⟨final, ran, result⟩ <;> rw [result] at done
  · exact nomatch done
  · rw [ran] at settled
    exact Except.ok.inj done ▸ settled.1.once

include closed known in
theorem mark_by_admitted (marking : Marking)
    (done : (workspace.markBy compilation schedule record roots).1 = .ok marking) :
    ∀ node ∈ marking.marks.nodes, compilation.catalog.Admits node.key := by
  have settled := Sweep.run_tally compilation schedule workspace roots
  rcases workspace.mark_by_cases compilation schedule record roots with
    ⟨_, _, result⟩ | ⟨final, ran, result⟩ <;> rw [result] at done
  · exact nomatch done
  · rw [ran] at settled
    obtain rfl := Except.ok.inj done
    intro node member
    have marked := (final.marks.mem_keys_iff node.key).mpr ⟨node, member, rfl⟩
    exact Sweep.tally_admitted compilation workspace roots [] final settled.1 closed.admitted known node.key marked

section Listed

variable (sound : compilation.catalog.Sound) (coherent : workspace.names.Coherent compilation.catalog)

include sound coherent closed known

theorem plan_by_collision (symbol : String) (one another : Key)
    (refused : (workspace.planBy compilation schedule record roots).1 =
      .error (.collision symbol one another)) :
    compilation.catalog.Admits one ∧ compilation.catalog.Admits another ∧ one ≠ another ∧
      compilation.catalog.symbol one = compilation.catalog.symbol another := by
  rcases workspace.plan_by_cases compilation schedule record roots with
    ⟨fault, marked, result⟩ | ⟨marking, marked, result⟩
  · obtain rfl := Except.error.inj (result.symm.trans refused)
    exact absurd rfl (workspace.mark_by_early compilation schedule record roots _ marked _ _ _)
  · have admitted := workspace.mark_by_admitted compilation schedule record roots closed known marking marked
    have symbols := fun node member => compilation.catalog.symbol_total sound _ (admitted node member).2
    cases listed : (SymbolTable.ofNodes workspace.names compilation.catalog marking.marks.nodes).1 with
    | ok table => exact nomatch listed ▸ result.symm.trans refused
    | error fault =>
        obtain ⟨first, left, second, right, distinct, shared, _, shape⟩ :=
          SymbolTable.of_nodes_error _ _ _ coherent symbols fault listed
        rw [listed] at result
        have same := Except.error.inj (result.symm.trans refused)
        obtain ⟨_, rfl, rfl⟩ := Fault.collision.inj (shape.symm.trans same)
        exact ⟨admitted first left, admitted second right, distinct, shared⟩

theorem plan_by_shared (marking : Marking)
    (marked : (workspace.markBy compilation schedule record roots).1 = .ok marking) (one another : Key)
    (left : one ∈ marking.marks.keys) (right : another ∈ marking.marks.keys) (distinct : one ≠ another)
    (shared : compilation.catalog.symbol one = compilation.catalog.symbol another) :
    ∃ symbol first second, (workspace.planBy compilation schedule record roots).1 =
      .error (.collision symbol first second) := by
  rcases workspace.plan_by_cases compilation schedule record roots with
    ⟨_, refused, _⟩ | ⟨given, done, result⟩
  · exact nomatch marked.symm.trans refused
  · obtain rfl := Except.ok.inj (marked.symm.trans done)
    have admitted := workspace.mark_by_admitted compilation schedule record roots closed known marking marked
    have symbols := fun node member => compilation.catalog.symbol_total sound _ (admitted node member).2
    obtain ⟨first, firstMember, rfl⟩ := (marking.marks.mem_keys_iff one).mp left
    obtain ⟨second, secondMember, rfl⟩ := (marking.marks.mem_keys_iff another).mp right
    obtain ⟨fault, refused⟩ := SymbolTable.of_nodes_shared _ _ _ coherent symbols first second firstMember
      secondMember distinct shared
    obtain ⟨x, _, y, _, _, _, symbol, shape⟩ :=
      SymbolTable.of_nodes_error _ _ _ coherent symbols fault refused
    exact ⟨symbol, x.key, y.key, by rw [result, refused, shape]; rfl⟩

end Listed

end Marked

section Planned

variable (workspace : Workspace) (compilation : Compilation) (schedule : Schedule) (record : Bool)
  (listing : Listing) (roots : List Node) (closed : workspace.Closed compilation.catalog)
  (known : ∀ root ∈ roots, workspace.registry.lookup root.key = some root)
  (sound : compilation.catalog.Sound) (coherent : workspace.names.Coherent compilation.catalog)

theorem listing_keys (marks : Marks) : ((listing.nodes marks).map (·.key)).Perm marks.keys := by
  rw [← marks.keys_nodes]
  exact (listing.perm marks).map (·.key)

include closed known sound

theorem listed_symbols (marking : Marking)
    (marked : (workspace.markBy compilation schedule record roots).1 = .ok marking) :
    ∀ node ∈ listing.nodes marking.marks, ∃ symbol, compilation.catalog.symbol node.key = .ok symbol := by
  intro node member
  have admitted := workspace.mark_by_admitted compilation schedule record roots closed known marking marked
    node ((listing.perm marking.marks).mem_iff.mp member)
  exact compilation.catalog.symbol_total sound node.key admitted.2

include coherent

theorem plan_listed_done_iff :
    (∃ plan, (workspace.planListed compilation schedule record listing roots).1 = .ok plan) ↔
      ∃ marking, (workspace.markBy compilation schedule record roots).1 = .ok marking ∧
        compilation.catalog.Distinguishes marking.marks.keys := by
  have listed := fun marking marked => SymbolTable.of_nodes_done_iff workspace.names compilation.catalog
    (listing.nodes marking.marks) coherent
    (workspace.listed_symbols compilation schedule record listing roots closed known sound marking marked)
  have members := fun (marks : Marks) key => (listing_keys listing marks).mem_iff (a := key)
  constructor
  · rintro ⟨plan, done⟩
    obtain ⟨marked, table⟩ := (workspace.plan_listed_iff compilation schedule record listing roots plan).mp done
    refine ⟨_, marked, fun a left b right shared => ?_⟩
    exact (listed _ marked).mp ⟨_, table⟩ a ((members _ a).mpr left) b ((members _ b).mpr right) shared
  · rintro ⟨marking, marked, apart⟩
    obtain ⟨table, done⟩ := (listed marking marked).mpr fun a left b right shared =>
      apart a ((members _ a).mp left) b ((members _ b).mp right) shared
    exact ⟨⟨marking.marks, table, marking.report?⟩,
      (workspace.plan_listed_iff compilation schedule record listing roots _).mpr ⟨marked, done⟩⟩

theorem plan_listed_lists (plan : Plan)
    (done : (workspace.planListed compilation schedule record listing roots).1 = .ok plan) :
    plan.marks.keys.Nodup ∧ plan.table.Lists compilation.catalog plan.marks.keys := by
  obtain ⟨marked, table⟩ := (workspace.plan_listed_iff compilation schedule record listing roots plan).mp done
  have once := workspace.mark_by_once compilation schedule record roots _ marked
  have keys := listing_keys listing plan.marks
  have symbols := workspace.listed_symbols compilation schedule record listing roots closed known sound _ marked
  refine ⟨once, SymbolTable.lists_perm _ _ _ _ keys ?_⟩
  exact SymbolTable.of_nodes_lists _ _ _ coherent symbols (keys.nodup_iff.mpr once) plan.table table

theorem plan_listed_marked_iff (apart : compilation.catalog.MethodsApart) :
    (∃ plan, (workspace.planListed compilation schedule record listing roots).1 = .ok plan) ↔
      ∃ marking, (workspace.markBy compilation schedule record roots).1 = .ok marking := by
  have planned := workspace.plan_listed_done_iff compilation schedule record listing roots closed known
    sound coherent
  refine planned.trans ⟨fun ⟨marking, marked, _⟩ => ⟨marking, marked⟩, ?_⟩
  intro ⟨marking, marked⟩
  have nodes := workspace.mark_by_admitted compilation schedule record roots closed known marking marked
  have admitted : ∀ key ∈ marking.marks.keys, compilation.catalog.Admits key := by
    intro key member
    obtain ⟨node, found, rfl⟩ := (marking.marks.mem_keys_iff key).mp member
    exact nodes node found
  exact ⟨marking, marked, fun a left b right shared =>
    Catalog.symbols_apart _ sound apart a b (admitted a left) (admitted b right) shared⟩

end Planned

def asked (catalog : Catalog) (site : Site) (keys : List Key) : Workspace :=
  keys.foldl (fun workspace key => (workspace.register catalog key).2) { registry := .empty site }

theorem asked_keeps (catalog : Catalog) (site : Site) (keys : List Key) (keeps : Workspace → Prop)
    (begin : keeps { registry := .empty site })
    (register : ∀ workspace key, keeps workspace → keeps (workspace.register catalog key).2) :
    keeps (asked catalog site keys) := by
  unfold asked
  suffices run : ∀ workspace, keeps workspace →
      keeps (keys.foldl (fun workspace key => (workspace.register catalog key).2) workspace) from
    run _ begin
  induction keys with
  | nil => exact fun _ now => now
  | cons key rest ih => exact fun workspace now => ih _ (register workspace key now)

theorem asked_closed (catalog : Catalog) (site : Site) (keys : List Key) :
    (asked catalog site keys).Closed catalog :=
  asked_keeps catalog site keys (Closed catalog)
    ⟨fun key held => (nomatch held.symm.trans (Registry.contains_empty site key)), fun _ _ filled => (nomatch filled)⟩
    fun workspace key closed => workspace.register_closed catalog key closed

theorem asked_blank (catalog : Catalog) (site : Site) (keys : List Key) :
    (asked catalog site keys).names = {} ∧ (asked catalog site keys).edges = {} ∧
      (asked catalog site keys).registry.number = site.number :=
  asked_keeps catalog site keys
    (fun workspace => workspace.names = {} ∧ workspace.edges = {} ∧ workspace.registry.number = site.number)
    ⟨rfl, rfl, rfl⟩
    fun workspace key ⟨names, edges, home⟩ =>
      ⟨names, edges, (workspace.registry.register_number catalog key).trans home⟩

theorem asked_coherent (catalog : Catalog) (site : Site) (keys : List Key) :
    (asked catalog site keys).names.Coherent catalog := by
  intro node name found
  rw [(asked_blank catalog site keys).1] at found
  exact nomatch found

theorem asked_holds (catalog : Catalog) (site : Site) (keys : List Key) (key : Key) (member : key ∈ keys)
    (admitted : catalog.Admits key) : (asked catalog site keys).registry.contains key = true := by
  unfold asked
  suffices run : ∀ workspace : Workspace, key ∈ keys ∨ workspace.registry.contains key = true →
      (keys.foldl (fun workspace key => (workspace.register catalog key).2) workspace).registry.contains
        key = true from run _ (.inl member)
  clear member
  induction keys with
  | nil => exact fun workspace now => now.resolve_left List.not_mem_nil
  | cons first rest ih =>
      intro workspace now
      refine ih _ ?_
      rcases now with member | held
      · rcases List.mem_cons.mp member with rfl | later
        · obtain ⟨node, accepted⟩ := (workspace.registry.register_accepts catalog key).mpr (.inr admitted)
          exact .inr (workspace.registry.register_ok catalog key node accepted).2
        · exact .inl later
      · exact .inr (workspace.registry.register_keeps catalog first key held)

theorem asked_faithful (catalog : Catalog) (bodies : Bodies) (site : Site) (keys : List Key) :
    (asked catalog site keys).Faithful ⟨catalog, bodies⟩ := by
  intro node found filled
  rw [(asked_blank catalog site keys).2.1] at filled
  exact nomatch filled

theorem asked_knows (catalog : Catalog) (site : Site) (keys : List Key)
    (admitted : ∀ key ∈ keys, catalog.Admits key) :
    ∀ root ∈ keys.map fun key => (⟨site.number, key⟩ : Node),
      (asked catalog site keys).registry.lookup root.key = some root := by
  intro root member
  obtain ⟨key, asked, rfl⟩ := List.mem_map.mp member
  apply (Registry.lookup_self_iff _ _).mpr
  constructor
  · exact asked_holds catalog site keys key asked (admitted key asked)
  · exact (asked_blank catalog site keys).2.2.symm

end Workspace

namespace Catalog

theorem idle_reaches (catalog : Catalog) (roots : List Key) (bodied : ∀ root ∈ roots, ∃ method, root = .body method)
    (key : Key) (reaches : Compilation.Reaches ⟨catalog, .empty⟩ roots key) : key ∈ roots := by
  induction reaches with
  | root key member => exact member
  | next source target _ required rooted =>
      obtain ⟨method, rfl⟩ := bodied source rooted
      cases required
      contradiction

theorem agreeing_collide (catalog : Catalog) (sound : catalog.Sound) (site : Site) (a b : MethodId)
    (different : a ≠ b) (agree : catalog.MethodsAgree a b) :
    (∀ root ∈ [⟨site.number, .body a⟩, ⟨site.number, .body b⟩],
      (Workspace.asked catalog site [.body a, .body b]).registry.lookup root.key = some root) ∧
    ∃ symbol one another, ((Workspace.asked catalog site [.body a, .body b]).planBy ⟨catalog, .empty⟩
      .worklist false [⟨site.number, .body a⟩, ⟨site.number, .body b⟩]).1 = .error (.collision symbol one another) := by
  obtain ⟨admittedA, admittedB⟩ := catalog.agreeing_admitted sound a b agree
  have closed := Workspace.asked_closed catalog site [.body a, .body b]
  have faithful := Workspace.asked_faithful catalog .empty site [.body a, .body b]
  have coherent := Workspace.asked_coherent catalog site [.body a, .body b]
  have admitted : ∀ key ∈ [Key.body a, .body b], catalog.Admits key := by
    intro key member
    simp only [List.mem_cons, List.not_mem_nil, or_false] at member
    cases member with
    | inl first => exact first ▸ admittedA
    | inr second => exact second ▸ admittedB
  have known := Workspace.asked_knows catalog site [.body a, .body b] admitted
  have done := (Sweep.run_done_iff ⟨catalog, .empty⟩ (fun _ _ => rfl) .worklist _
    [⟨site.number, .body a⟩, ⟨site.number, .body b⟩] closed faithful known).mpr fun key reaches =>
      admitted key (catalog.idle_reaches [.body a, .body b] (by simp) key reaches)
  obtain ⟨marking, marked⟩ := (Workspace.mark_by_done_iff _ ⟨catalog, .empty⟩ .worklist false _).mpr done
  obtain ⟨final, complete, rfl, _⟩ := Workspace.mark_by_complete _ ⟨catalog, .empty⟩ (fun _ _ => rfl)
    .worklist false _ closed faithful known marking marked
  refine ⟨known, ?_⟩
  apply Workspace.plan_by_shared _ ⟨catalog, .empty⟩ .worklist false _ closed known sound coherent _ marked
    (.body a) (.body b)
  · exact complete.traced.rooted _ (by simp)
  · exact complete.traced.rooted _ (by simp)
  · simpa using different
  · exact catalog.agreeing_symbols sound a b agree

theorem symbols_unique_iff (history : List Description) :
    let catalog := ofHistory history
    ((∀ a b, catalog.Admits a → catalog.Admits b → a ≠ b → catalog.symbol a ≠ catalog.symbol b) ↔
      catalog.MethodsApart) ∧
    ((∀ bodies schedule record site keys roots,
        (∀ root ∈ roots, (Workspace.asked catalog site keys).registry.lookup root.key = some root) →
        ∀ symbol one another, ((Workspace.asked catalog site keys).planBy ⟨catalog, bodies⟩ schedule
          record roots).1 ≠ .error (.collision symbol one another)) ↔
      catalog.MethodsApart) := by
  intro catalog
  have sound : catalog.Sound := history_sound history
  refine ⟨⟨fun unique a b agree => ?_, fun apart a b left right different shared => ?_⟩,
    ⟨fun clear a b agree => ?_, fun apart bodies schedule record site keys roots known => ?_⟩⟩
  · obtain ⟨left, right⟩ := catalog.agreeing_admitted sound a b agree
    apply Classical.byContradiction
    intro different
    exact unique _ _ left right (by simpa using different) (catalog.agreeing_symbols sound a b agree)
  · exact different (catalog.symbols_apart sound apart a b left right shared)
  · apply Classical.byContradiction
    intro different
    obtain ⟨known, symbol, one, another, refused⟩ :=
      catalog.agreeing_collide sound (.sample 0) a b different agree
    exact clear _ _ _ _ _ _ known symbol one another refused
  · intro symbol one another refused
    have coherent : (Workspace.asked catalog site keys).names.Coherent catalog :=
      Workspace.asked_coherent catalog site keys
    obtain ⟨left, right, different, shared⟩ := Workspace.plan_by_collision _ ⟨catalog, bodies⟩ schedule
      record roots (Workspace.asked_closed catalog site keys) known sound coherent symbol one another refused
    exact different (catalog.symbols_apart sound apart one another left right shared)

-- The traits of a method are part of what it is, and no symbol shows them.
theorem twin_symbols_collide :
    (ofHistory twins).Admits (.body ⟨0⟩) ∧ (ofHistory twins).Admits (.body ⟨1⟩) ∧
    Key.body ⟨0⟩ ≠ .body ⟨1⟩ ∧
    (ofHistory twins).symbol (.body ⟨0⟩) = (ofHistory twins).symbol (.body ⟨1⟩) ∧
    ∃ symbol one another, ((Workspace.asked (ofHistory twins) (.sample 0) [.body ⟨0⟩, .body ⟨1⟩]).planBy
      ⟨ofHistory twins, .empty⟩ .worklist false [⟨0, .body ⟨0⟩⟩, ⟨0, .body ⟨1⟩⟩]).1 =
        .error (.collision symbol one another) := by
  have sound := history_sound twins
  refine ⟨by decide, by decide, by decide, agreeing_symbols _ sound _ _ twins_agree, ?_⟩
  exact (agreeing_collide _ sound (.sample 0) _ _ (by decide) twins_agree).2

end Catalog

end ArtifactGraph
