import ArtifactGraph.Proofs.Trails

set_option autoImplicit false

namespace ArtifactGraph.Marks

def ofInserts (inserts : List Mark) : Marks :=
  inserts.foldl (fun marks mark => marks.insert mark.node mark.origin) {}

def first? (inserts : List Mark) (key : Key) : Option Mark :=
  inserts.find? fun mark => mark.node.key == key

theorem find_insert (marks : Marks) (mark : Mark) (key : Key) :
    (marks.insert mark.node mark.origin).find? key = (marks.find? key).or (first? [mark] key) := by
  cases held : marks.contains mark.node.key with
  | false => rw [find?, insert_appends marks mark.node mark.origin held, List.find?_append, first?, find?]
  | true =>
      rw [insert, if_pos held]
      by_cases same : mark.node.key = key
      · obtain ⟨old, found⟩ := Option.isSome_iff_exists.mp (same ▸ held : (marks.find? key).isSome = true)
        rw [found, Option.some_or]
      · simp [first?, same]

theorem find_inserts (inserts : List Mark) (key : Key) : (ofInserts inserts).find? key = first? inserts key := by
  suffices run : ∀ marks : Marks,
      (inserts.foldl (fun marks mark => marks.insert mark.node mark.origin) marks).find? key =
        (marks.find? key).or (first? inserts key) from run {}
  induction inserts with
  | nil => simp [first?]
  | cons mark rest ih =>
      intro marks
      have split : first? (mark :: rest) key = (first? [mark] key).or (first? rest key) := by
        rw [first?, ← List.singleton_append, List.find?_append]
        rfl
      rw [List.foldl_cons, ih, find_insert, split, Option.or_assoc]

theorem origin_inserts (inserts : List Mark) (key : Key) (origin : Origin) :
    (ofInserts inserts).origin? key = some origin ↔ ∃ node, first? inserts key = some ⟨node, some origin⟩ := by
  rw [origin?, find_inserts]
  cases first? inserts key with
  | none => simp
  | some mark =>
      obtain ⟨node, recorded⟩ := mark
      simp

def Endless (marks : Marks) (key : Key) : Prop :=
  ∃ path : Nat → Key, path 0 = key ∧ ∀ turn, ∃ reason, marks.origin? (path turn) = some ⟨path (turn + 1), reason⟩

def back (marks : Marks) (key : Key) : Nat → Key
  | 0 => key
  | turns + 1 => ((marks.origin? (marks.back key turns)).map (·.source)).getD (marks.back key turns)

section Endless

variable (marks : Marks)

theorem endless_led (key : Key) (endless : marks.Endless key) :
    ∃ origin, marks.origin? key = some origin ∧ marks.Endless origin.source := by
  obtain ⟨path, rfl, leads⟩ := endless
  obtain ⟨reason, found⟩ := leads 0
  exact ⟨_, found, fun turn => path (turn + 1), rfl, fun turn => leads (turn + 1)⟩

theorem walk_not_endless (key : Key) (links : List Link) (walk : marks.Walk key links) : ¬ marks.Endless key := by
  induction walk with
  | stop key missing =>
      intro endless
      obtain ⟨origin, found, _⟩ := marks.endless_led key endless
      exact nomatch missing.symm.trans found
  | step key origin links found _ ih =>
      intro endless
      obtain ⟨other, again, onwards⟩ := marks.endless_led key endless
      exact ih (Option.some.inj (found.symm.trans again) ▸ onwards)

theorem endless_of_no_walk (key : Key) (none : ∀ links, ¬ marks.Walk key links) : marks.Endless key := by
  have unwalked : ∀ turn links, ¬ marks.Walk (marks.back key turn) links := by
    intro turn
    induction turn with
    | zero => exact none
    | succ turn ih =>
        intro links walk
        cases found : marks.origin? (marks.back key turn) with
        | none => exact ih [] (.stop _ found)
        | some origin =>
            have next : marks.back key (turn + 1) = origin.source := by simp [back, found]
            exact ih _ (.step _ origin links found (next ▸ walk))
  refine ⟨marks.back key, rfl, fun turn => ?_⟩
  cases found : marks.origin? (marks.back key turn) with
  | none => exact absurd (.stop _ found) (unwalked turn [])
  | some origin => exact ⟨origin.reason, by simp [back, found]⟩

theorem trail_endless (limit : Nat) (key : Key) (endless : marks.Endless key) :
    (marks.trail limit key).length = limit := by
  induction limit generalizing key with
  | zero => rfl
  | succ limit ih =>
      obtain ⟨origin, found, onwards⟩ := marks.endless_led key endless
      rw [marks.trail_led limit key origin found, List.length_cons, ih origin.source onwards]

end Endless

-- The loop of an explanation, with nothing else that bounds its turns. It adds links to
-- those that it has, and gives up once there are more links than marks.
inductive Turns (marks : Marks) : List Link → Key → List Link → Prop where
  | stop (chain : List Link) (key : Key) (missing : marks.origin? key = none) : Turns marks chain key chain
  | cut (chain : List Link) (key : Key) (origin : Origin) (found : marks.origin? key = some origin)
      (long : marks.size < chain.length + 1) :
      Turns marks chain key (chain ++ [⟨origin.source, key, origin.reason⟩])
  | next (chain : List Link) (key : Key) (origin : Origin) (result : List Link)
      (found : marks.origin? key = some origin) (short : chain.length + 1 ≤ marks.size)
      (rest : Turns marks (chain ++ [⟨origin.source, key, origin.reason⟩]) origin.source result) :
      Turns marks chain key result

section Turns

variable (marks : Marks)

theorem turns_unique (chain : List Link) (key : Key) (result other : List Link)
    (first : marks.Turns chain key result) (second : marks.Turns chain key other) : other = result := by
  induction first with
  | stop chain key missing =>
      cases second with
      | stop => rfl
      | cut _ _ _ found | next _ _ _ _ found => exact nomatch missing.symm.trans found
  | cut chain key origin found long =>
      cases second with
      | stop _ _ missing => exact nomatch missing.symm.trans found
      | cut _ _ another again => rw [Option.some.inj (again.symm.trans found)]
      | next _ _ _ _ _ short => exact absurd long (Nat.not_lt.mpr short)
  | next chain key origin result found short _ ih =>
      cases second with
      | stop _ _ missing => exact nomatch missing.symm.trans found
      | cut _ _ _ _ long => exact absurd long (Nat.not_lt.mpr short)
      | next _ _ another _ again _ rest => exact ih (Option.some.inj (again.symm.trans found) ▸ rest)

theorem turns_trail (room : Nat) (chain : List Link) (key : Key) (enough : chain.length + room = marks.size) :
    marks.Turns chain key (chain ++ marks.trail (room + 1) key) := by
  induction room generalizing chain key with
  | zero =>
      cases found : marks.origin? key with
      | none =>
          rw [marks.trail_stopped _ key found, List.append_nil]
          exact .stop chain key found
      | some origin =>
          rw [marks.trail_led 0 key origin found]
          exact .cut chain key origin found (by omega)
  | succ room ih =>
      cases found : marks.origin? key with
      | none =>
          rw [marks.trail_stopped _ key found, List.append_nil]
          exact .stop chain key found
      | some origin =>
          have rest := ih (chain ++ [⟨origin.source, key, origin.reason⟩]) origin.source (by simp; omega)
          rw [List.append_assoc, List.singleton_append, ← marks.trail_led (room + 1) key origin found] at rest
          exact .next chain key origin _ found (by omega) rest

theorem explain_turns (key : Key) (result : List Link) :
    marks.Turns [] key result ↔ result.reverse = marks.explain key := by
  have turns := marks.turns_trail marks.size [] key (Nat.zero_add _)
  rw [List.nil_append] at turns
  rw [explain, List.reverse_inj]
  constructor
  · exact marks.turns_unique [] key _ result turns
  · exact fun same => same ▸ turns

end Turns

theorem unmarked_or_root (marks : Marks) (key : Key) (missing : marks.origin? key = none) :
    key ∉ marks.keys ∨ marks.isRoot key = true := by
  by_cases marked : key ∈ marks.keys
  · exact .inr ((marks.is_root_iff key).mpr ⟨marked, missing⟩)
  · exact .inl marked

def start (key : Key) (links : List Link) : Key := (links.head?.map (·.source)).getD key

theorem walk_start (marks : Marks) (key : Key) (links : List Link) (walk : marks.Walk key links) :
    marks.origin? (start key links) = none := by
  cases first : links.head? with
  | none =>
      rw [start, first]
      exact marks.walk_stopped key links walk (List.head?_eq_none_iff.mp first)
  | some link =>
      rw [start, first]
      exact marks.walk_begins key links walk link first

structure Recounts (inserts : List Mark) (key : Key) (links : List Link) : Prop where
  linked : links.IsChain fun a b => a.target = b.source
  ends : ∀ last, links.getLast? = some last → last.target = key
  recorded : ∀ link ∈ links, ∃ node, first? inserts link.target = some ⟨node, some ⟨link.source, link.reason⟩⟩

theorem explain_recounts (inserts : List Mark) (key : Key) :
    Recounts inserts key ((ofInserts inserts).explain key) where
  linked := List.isChain_reverse.mpr (trail_linked _ _ key)
  ends last found := by
    rw [explain, List.getLast?_reverse] at found
    exact trail_begins _ _ key last found
  recorded link member := by
    rw [explain, List.mem_reverse] at member
    exact (origin_inserts inserts link.target _).mp (trail_origin _ _ key link member)

-- Origins may name keys that were never inserted, and keys that they themselves explain.
theorem explanations_end (inserts : List Mark) (key : Key) :
    let marks := ofInserts inserts
    let links := marks.explain key
    (∀ other origin, marks.origin? other = some origin ↔ ∃ node, first? inserts other = some ⟨node, some origin⟩) ∧
    (∀ result, marks.Turns [] key result ↔ result.reverse = links) ∧ Recounts inserts key links ∧
    (marks.Walk key links ∧ (start key links ∉ marks.keys ∨ marks.isRoot (start key links) = true) ∧
        links.length ≤ marks.size ∧ ¬ marks.Endless key ∨
      marks.Endless key ∧ (∀ walk, ¬ marks.Walk key walk) ∧ links.length = marks.size + 1) := by
  intro marks links
  refine ⟨origin_inserts inserts, marks.explain_turns key, explain_recounts inserts key, ?_⟩
  by_cases ended : ∃ walk, marks.Walk key walk
  · obtain ⟨walk, walked⟩ := ended
    have whole : links = walk := marks.explain_walk key walk walked
    rw [whole]
    exact .inl ⟨walked, marks.unmarked_or_root _ (marks.walk_start key walk walked),
      marks.walk_bound key walk walked, marks.walk_not_endless key walk walked⟩
  · have unwalked := not_exists.mp ended
    have endless := marks.endless_of_no_walk key unwalked
    refine .inr ⟨endless, unwalked, ?_⟩
    rw [show links = (marks.trail (marks.size + 1) key).reverse from rfl, List.length_reverse,
      marks.trail_endless _ key endless]

example :
    let body (n : Nat) : Key := .body ⟨n⟩
    let mark (n source : Nat) : Mark := ⟨⟨0, body n⟩, some ⟨body source, "call"⟩⟩
    ((ofInserts [mark 0 1, mark 1 2]).explain (body 0)).length = 2 ∧
      ((ofInserts [mark 0 1, mark 1 1]).explain (body 0)).length = 3 := by decide

end ArtifactGraph.Marks
