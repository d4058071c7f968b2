import ArtifactGraph.Proofs.Marks
import Mathlib.Data.List.Chain

set_option autoImplicit false

namespace ArtifactGraph

namespace Marks

inductive Walk (marks : Marks) : Key → List Link → Prop where
  | stop (key : Key) (missing : marks.origin? key = none) : Walk marks key []
  | step (key : Key) (origin : Origin) (links : List Link) (found : marks.origin? key = some origin)
      (before : Walk marks origin.source links) :
      Walk marks key (links ++ [⟨origin.source, key, origin.reason⟩])

section Walks

variable (marks : Marks)

theorem trail_stopped (limit : Nat) (key : Key) (missing : marks.origin? key = none) : marks.trail limit key = [] := by
  cases limit <;> simp [trail, missing]

theorem trail_led (limit : Nat) (key : Key) (origin : Origin) (found : marks.origin? key = some origin) :
    marks.trail (limit + 1) key = ⟨origin.source, key, origin.reason⟩ :: marks.trail limit origin.source := by
  simp [trail, found]

theorem trail_begins (limit : Nat) (key : Key) (link : Link) (first : (marks.trail limit key).head? = some link) :
    link.target = key := by
  cases limit with
  | zero => exact nomatch first
  | succ limit =>
      cases found : marks.origin? key with
      | none => simp [marks.trail_stopped _ key found] at first
      | some origin =>
          rw [marks.trail_led limit key origin found, List.head?_cons, Option.some.injEq] at first
          rw [← first]

theorem trail_linked (limit : Nat) (key : Key) : (marks.trail limit key).IsChain fun a b => b.target = a.source := by
  induction limit generalizing key with
  | zero => exact .nil
  | succ limit ih =>
      cases found : marks.origin? key with
      | none =>
          rw [marks.trail_stopped _ key found]
          exact .nil
      | some origin =>
          rw [marks.trail_led limit key origin found]
          exact List.isChain_cons.mpr ⟨fun link next => marks.trail_begins limit _ link next, ih origin.source⟩

theorem trail_origin (limit : Nat) (key : Key) (link : Link) (member : link ∈ marks.trail limit key) :
    marks.origin? link.target = some ⟨link.source, link.reason⟩ := by
  induction limit generalizing key with
  | zero => exact nomatch member
  | succ limit ih =>
      cases found : marks.origin? key with
      | none => simp [marks.trail_stopped _ key found] at member
      | some origin =>
          rw [marks.trail_led limit key origin found] at member
          rcases List.mem_cons.mp member with rfl | later
          · exact found
          · exact ih origin.source later

theorem trail_walk (key : Key) (links : List Link) (walk : marks.Walk key links) (limit : Nat)
    (enough : links.length ≤ limit) : marks.trail limit key = links.reverse := by
  induction walk generalizing limit with
  | stop key missing => exact marks.trail_stopped limit key missing
  | step key origin links found _ ih =>
      rw [List.length_append, List.length_singleton] at enough
      obtain ⟨rest, rfl⟩ : ∃ rest, limit = rest + 1 := ⟨limit - 1, by omega⟩
      rw [marks.trail_led rest key origin found, ih rest (by omega), List.reverse_append, List.reverse_singleton,
        List.singleton_append]

theorem walk_trail (key : Key) (links : List Link) (walk : marks.Walk key links) :
    links = (marks.trail links.length key).reverse := by
  rw [marks.trail_walk key links walk _ (Nat.le_refl _), List.reverse_reverse]

theorem walk_unique (key : Key) (links others : List Link) (left : marks.Walk key links)
    (right : marks.Walk key others) : links = others := by
  have first := marks.trail_walk key links left (links.length + others.length) (by omega)
  have second := marks.trail_walk key others right (links.length + others.length) (by omega)
  exact List.reverse_inj.mp (first.symm.trans second)

theorem walk_stopped (key : Key) (links : List Link) (walk : marks.Walk key links) (empty : links = []) :
    marks.origin? key = none := by
  cases walk with
  | stop _ missing => exact missing
  | step origin links found before => simp at empty

theorem walk_begins (key : Key) (links : List Link) (walk : marks.Walk key links) (link : Link)
    (first : links.head? = some link) : marks.origin? link.source = none := by
  induction walk with
  | stop => exact nomatch first
  | step key origin links found before ih =>
      cases before with
      | stop _ missing =>
          rw [List.nil_append, List.head?_cons, Option.some.injEq] at first
          exact first ▸ missing
      | step => exact ih (by simpa using first)

theorem walk_ends (key : Key) (links : List Link) (walk : marks.Walk key links) (link : Link)
    (last : links.getLast? = some link) : link.target = key := by
  rw [marks.walk_trail key links walk, List.getLast?_reverse] at last
  exact marks.trail_begins _ key link last

theorem walk_linked (key : Key) (links : List Link) (walk : marks.Walk key links) :
    links.IsChain fun a b => a.target = b.source := by
  rw [marks.walk_trail key links walk]
  exact List.isChain_reverse.mpr (marks.trail_linked _ key)

theorem walk_origin (key : Key) (links : List Link) (walk : marks.Walk key links) (link : Link)
    (member : link ∈ links) : marks.origin? link.target = some ⟨link.source, link.reason⟩ := by
  rw [marks.walk_trail key links walk, List.mem_reverse] at member
  exact marks.trail_origin _ key link member

theorem walk_link (key : Key) (links : List Link) (walk : marks.Walk key links) (link : Link)
    (member : link ∈ links) :
    ∃ before, marks.Walk link.source before ∧ marks.Walk link.target (before ++ [link]) ∧
      before.length < links.length := by
  induction walk with
  | stop => exact nomatch member
  | step key origin links found before ih =>
      rw [List.length_append, List.length_singleton]
      rcases List.mem_append.mp member with earlier | here
      · obtain ⟨shorter, source, target, less⟩ := ih earlier
        exact ⟨shorter, source, target, by omega⟩
      · rw [List.mem_singleton.mp here]
        exact ⟨links, before, .step key origin links found before, Nat.lt_succ_self _⟩

-- A key of a walk has a shorter walk than the keys after it, so no key comes twice.
theorem walk_once (key : Key) (links : List Link) (walk : marks.Walk key links) :
    (links.map (·.source) ++ [key]).Nodup := by
  have whole := walk
  induction walk with
  | stop => simp
  | step key origin links found before ih =>
      rw [List.map_append]
      refine List.nodup_append.mpr ⟨ih before, by simp, ?_⟩
      intro source member other single same
      rw [List.mem_singleton.mp single] at same
      rw [← List.map_append] at member
      obtain ⟨link, linkMember, rfl⟩ := List.mem_map.mp member
      obtain ⟨shorter, walked, _, less⟩ := marks.walk_link key _ whole link linkMember
      rw [same] at walked
      rw [marks.walk_unique key _ _ walked whole] at less
      exact Nat.lt_irrefl _ less

theorem walk_targets (key : Key) (links : List Link) (walk : marks.Walk key links) :
    (links.map (·.target)).Nodup := by
  induction walk with
  | stop => exact .nil
  | step key origin links found before ih =>
      rw [List.map_append]
      refine List.nodup_append.mpr ⟨ih, by simp, ?_⟩
      intro target member other single same
      rw [List.map_singleton, List.mem_singleton] at single
      obtain ⟨link, linkMember, rfl⟩ := List.mem_map.mp member
      obtain ⟨shorter, _, walked, less⟩ := marks.walk_link _ _ before link linkMember
      rw [same, single] at walked
      have lengths := congrArg List.length
        (marks.walk_unique key _ _ walked (.step key origin links found before))
      simp only [List.length_append, List.length_singleton] at lengths
      omega

theorem origin_marked (key : Key) (origin : Origin) (found : marks.origin? key = some origin) :
    key ∈ marks.keys := by
  rw [← contains_iff_mem, contains]
  cases known : marks.find? key with
  | none => simp [origin?, known] at found
  | some mark => rfl

theorem walk_bound (key : Key) (links : List Link) (walk : marks.Walk key links) :
    links.length ≤ marks.size := by
  have inside : links.map (·.target) ⊆ marks.keys := by
    intro target member
    obtain ⟨link, linkMember, rfl⟩ := List.mem_map.mp member
    exact marks.origin_marked _ _ (marks.walk_origin key links walk link linkMember)
  simpa [keys, size] using (marks.walk_targets key links walk).length_le_of_subset inside

theorem explain_walk (key : Key) (links : List Link) (walk : marks.Walk key links) :
    marks.explain key = links := by
  have bound := marks.walk_bound key links walk
  rw [explain, marks.trail_walk key links walk _ (by omega), List.reverse_reverse]

theorem explain_stopped (key : Key) (missing : marks.origin? key = none) : marks.explain key = [] :=
  marks.explain_walk key [] (.stop key missing)

end Walks

theorem is_root_iff (marks : Marks) (key : Key) :
    marks.isRoot key = true ↔ key ∈ marks.keys ∧ marks.origin? key = none := by
  rw [← contains_iff_mem, isRoot, contains, origin?]
  cases marks.find? key with
  | none => simp
  | some mark => simp

section Growth

variable (marks : Marks) (added : List Mark)

theorem origin_kept (key : Key) (marked : key ∈ marks.keys) :
    (Marks.mk (marks.made ++ added)).origin? key = marks.origin? key := by
  rw [← contains_iff_mem, contains, find?] at marked
  obtain ⟨mark, found⟩ := Option.isSome_iff_exists.mp marked
  simp only [origin?, find?, List.find?_append, found, Option.some_or]

def Founded (marks : Marks) : Prop :=
  ∀ key origin, marks.origin? key = some origin → origin.source ∈ marks.keys

theorem walk_kept (founded : marks.Founded) (key : Key) (links : List Link) (marked : key ∈ marks.keys)
    (walk : marks.Walk key links) : (Marks.mk (marks.made ++ added)).Walk key links := by
  induction walk with
  | stop key missing => exact .stop key ((marks.origin_kept added key marked).trans missing)
  | step key origin links found _ ih =>
      exact .step key origin links ((marks.origin_kept added key marked).trans found)
        (ih (founded key origin found))

theorem discover_first (home : Nat) (source : Key) (edges : List Edge) (mark : Mark)
    (member : mark ∈ marks.discover home source edges) :
    ∃ edge, edges.find? (fun edge => edge.target == mark.node.key) = some edge ∧
      mark.origin = some ⟨source, edge.reason⟩ := by
  induction edges generalizing marks with
  | nil => exact nomatch member
  | cons edge rest ih =>
      have passed : ∀ others : Marks, others.contains edge.target = true →
          mark ∈ others.discover home source rest →
          ∃ found, (edge :: rest).find? (fun edge => edge.target == mark.node.key) = some found ∧
            mark.origin = some ⟨source, found.reason⟩ := by
        intro others held later
        obtain ⟨fresh, _⟩ := others.discover_mem home source rest mark later
        have other : (edge.target == mark.node.key) = false :=
          beq_false_of_ne fun same => nomatch (same ▸ held).symm.trans fresh
        rw [List.find?_cons, other]
        exact ih others later
      cases held : marks.contains edge.target with
      | true =>
          rw [marks.discover_held home source edge rest held] at member
          exact passed marks held member
      | false =>
          rw [marks.discover_fresh home source edge rest held, List.mem_cons] at member
          rcases member with rfl | later
          · exact ⟨edge, by simp, rfl⟩
          · exact passed _ (by simp [contains_insert]) later

theorem discover_origin (home : Nat) (source : Key) (edges : List Edge) (key : Key)
    (unmarked : key ∉ marks.keys)
    (marked : key ∈ (Marks.mk (marks.made ++ marks.discover home source edges)).keys) :
    ∃ edge, edges.find? (fun edge => edge.target == key) = some edge ∧
      (Marks.mk (marks.made ++ marks.discover home source edges)).origin? key = some ⟨source, edge.reason⟩ := by
  have absent : marks.find? key = none := by
    cases known : marks.find? key with
    | none => rfl
    | some mark => exact absurd ((marks.contains_iff_mem key).mp (by simp [contains, known])) unmarked
  rw [← contains_iff_mem, contains] at marked
  obtain ⟨mark, found⟩ := Option.isSome_iff_exists.mp marked
  have discovered := found
  rw [find?, List.find?_append, ← find?, absent, Option.none_or] at discovered
  have here : mark.node.key = key := by simpa using List.find?_some discovered
  obtain ⟨edge, first, origin⟩ := marks.discover_first home source edges mark
    (List.mem_of_find?_eq_some discovered)
  exact ⟨edge, here ▸ first, by rw [origin?, found, Option.bind_some, origin]⟩

end Growth

end Marks

end ArtifactGraph
