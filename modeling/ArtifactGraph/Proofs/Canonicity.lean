import ArtifactGraph.Proofs.Handles
import ArtifactGraph.Proofs.Sessions

set_option autoImplicit false

namespace ArtifactGraph

namespace Registry

structure Lists (registry : Registry) (keys : List Key) : Prop where
  counted : keys.length = registry.size
  placed : ∀ key made, registry.find? key = some made ↔
    keys[made.serial]? = some key ∧ made.node = ⟨registry.number, key⟩

theorem lists_empty (site : Site) : (empty site).Lists [] :=
  ⟨rfl, fun key made => by simp [find_empty]⟩

theorem Lists.add {registry : Registry} {keys : List Key} (lists : registry.Lists keys) (key : Key)
    (missing : registry.find? key = none) : (registry.add key).Lists (keys ++ [key]) where
  counted := by
    rw [List.length_append, lists.counted]
    rfl
  placed query made := by
    have number : (registry.add key).number = registry.number := rfl
    rw [find_add, number, stored_concat, lists.counted]
    by_cases same : query = key
    · subst same
      have unlisted : ¬ (keys[made.serial]? = some query ∧ made.node = ⟨registry.number, query⟩) :=
        fun listed => nomatch missing.symm.trans ((lists.placed query made).mpr listed)
      obtain ⟨node, serial⟩ := made
      rw [if_pos rfl, Option.some.injEq, Instance.mk.injEq, or_and_right, or_iff_left unlisted]
      simp [fresh, size, eq_comm, and_comm]
    · simp [same, lists.placed query made]

theorem Lists.mem_iff {registry : Registry} {keys : List Key} (lists : registry.Lists keys) (key : Key) :
    key ∈ keys ↔ ∃ made, registry.find? key = some made := by
  rw [List.mem_iff_getElem?]
  constructor
  · rintro ⟨serial, stored⟩
    exact ⟨⟨⟨registry.number, key⟩, serial⟩, (lists.placed key _).mpr ⟨stored, rfl⟩⟩
  · rintro ⟨made, found⟩
    exact ⟨made.serial, ((lists.placed key made).mp found).1⟩

theorem Lists.once {registry : Registry} {keys : List Key} (lists : registry.Lists keys) : keys.Nodup := by
  refine List.pairwise_iff_getElem.mpr fun a b inside within less same => ?_
  have stored := List.getElem?_eq_getElem within
  have first := (lists.placed keys[b] ⟨⟨registry.number, keys[b]⟩, a⟩).mpr
    ⟨(List.getElem?_eq_getElem inside).trans (congrArg some same), rfl⟩
  rw [(lists.placed keys[b] ⟨⟨registry.number, keys[b]⟩, b⟩).mpr ⟨stored, rfl⟩] at first
  exact Nat.ne_of_gt less (congrArg Instance.serial (Option.some.inj first))

theorem Lists.apart {registry : Registry} {keys : List Key} (lists : registry.Lists keys) (a b : Key)
    (made other : Instance) (left : registry.find? a = some made) (right : registry.find? b = some other)
    (same : made.serial = other.serial) : a = b := by
  have stored := ((lists.placed a made).mp left).1
  rw [same, ((lists.placed b other).mp right).1] at stored
  exact (Option.some.inj stored).symm

structure Vetted (catalog : Catalog) (registry : Registry) : Prop where
  listed : ∃ keys, registry.Lists keys
  admitted : ∀ key, registry.contains key = true → catalog.Admits key

structure Grows (before after : Registry) : Prop where
  number : after.number = before.number
  kept : ∀ key made, before.find? key = some made → after.find? key = some made

theorem grows_refl (registry : Registry) : registry.Grows registry := ⟨rfl, fun _ _ found => found⟩

theorem grows_trans (a b c : Registry) (first : a.Grows b) (second : b.Grows c) : a.Grows c :=
  ⟨second.number.trans first.number, fun key made found => second.kept key made (first.kept key made found)⟩

theorem add_grows (registry : Registry) (key : Key) (missing : registry.find? key = none) :
    registry.Grows (registry.add key) := by
  refine ⟨rfl, fun query made found => ?_⟩
  have different : query ≠ key := by
    rintro rfl
    exact nomatch missing.symm.trans found
  rw [find_add, if_neg different, found]

theorem register_grows (registry : Registry) (catalog : Catalog) (key : Key) :
    registry.Grows (registry.register catalog key).2 := by
  rcases registry.register_cases catalog key with ⟨_, result⟩ | ⟨missing, _, result⟩ | ⟨_, _, _, _, result⟩ <;>
    rw [result]
  · exact registry.grows_refl
  · exact registry.add_grows key ((registry.missing_iff key).mp missing)
  · exact registry.grows_refl

theorem register_vetted (registry : Registry) (catalog : Catalog) (key : Key)
    (vetted : registry.Vetted catalog) : (registry.register catalog key).2.Vetted catalog := by
  constructor
  · obtain ⟨keys, lists⟩ := vetted.listed
    rcases registry.register_cases catalog key with
      ⟨_, result⟩ | ⟨missing, _, result⟩ | ⟨_, _, _, _, result⟩ <;> rw [result]
    · exact ⟨keys, lists⟩
    · exact ⟨keys ++ [key], lists.add key ((registry.missing_iff key).mp missing)⟩
    · exact ⟨keys, lists⟩
  · intro query held
    rcases registry.register_adds catalog key query held with old | ⟨same, admitted⟩
    · exact vetted.admitted query old
    · exact same ▸ admitted

theorem request_ok (registry : Registry) (catalog : Catalog) (key : Key) (made : Instance)
    (granted : (registry.request catalog key).1 = .ok made) :
    (∀ query, (registry.request catalog key).2.find? query =
      if query = key then some made else registry.find? query) ∧
    (registry.request catalog key).2.size =
      registry.size + (if (registry.find? key).isSome then 0 else 1) := by
  rcases registry.request_cases catalog key with
    ⟨old, found, result⟩ | ⟨missing, _, result⟩ | ⟨_, _, _, _, result⟩ <;> rw [result] at granted ⊢
  · obtain rfl := Except.ok.inj granted
    refine ⟨fun query => ?_, by simp [found]⟩
    by_cases same : query = key <;> simp [same, found]
  · obtain rfl := Except.ok.inj granted
    exact ⟨registry.find_add key, by simp [missing, size, add]⟩
  · cases granted

theorem request_untouched (registry : Registry) (catalog : Catalog) (key : Key) (fault : Fault)
    (refused : (registry.request catalog key).1 = .error fault) :
    (registry.request catalog key).2 = registry := by
  rcases registry.request_cases catalog key with
    ⟨_, _, result⟩ | ⟨_, _, result⟩ | ⟨_, _, _, _, result⟩ <;> rw [result] at refused ⊢
  · exact nomatch refused

theorem Vetted.accepts {registry : Registry} {catalog : Catalog} (vetted : registry.Vetted catalog) (key : Key) :
    (∃ made, (registry.request catalog key).1 = .ok made) ↔ catalog.Admits key := by
  rcases registry.request_cases catalog key with
    ⟨made, found, result⟩ | ⟨_, admitted, result⟩ | ⟨_, refused, _, _, result⟩ <;> rw [result]
  · exact iff_of_true ⟨made, rfl⟩ (vetted.admitted key (by simp [contains, found]))
  · exact iff_of_true ⟨_, rfl⟩ admitted
  · simp [refused]

theorem Vetted.refuses {registry : Registry} {catalog : Catalog} (vetted : registry.Vetted catalog) (key : Key)
    (fault : Fault) (checked : catalog.checkKey key = .error fault) :
    (registry.request catalog key).1 = .error fault := by
  have refused : ¬ catalog.Admits key := fun admitted =>
    nomatch checked.symm.trans ((catalog.check_key_ok key).mpr admitted)
  rcases registry.request_cases catalog key with
    ⟨made, found, _⟩ | ⟨_, admitted, _⟩ | ⟨_, _, other, again, result⟩
  · exact absurd (vetted.admitted key (by simp [contains, found])) refused
  · exact absurd admitted refused
  · rw [result, Except.error.inj (again.symm.trans checked)]

end Registry

-- What can happen around the registry of a session. Each call brings bodies of its
-- own; elsewhere, other registries share the cells.
inductive Event where
  | call (bodies : Bodies) (command : Command)
  | elsewhere (names : Cells String) (edges : Cells (List Edge)) (read : List MethodId)

namespace Session

def undergo (session : Session) : Event → Session
  | .call bodies command => perform bodies session command
  | .elsewhere names edges read =>
      { session with workspace := { session.workspace with names, edges, read } }

def through (site : Site) (events : List Event) : Session := events.foldl undergo (fresh site)

theorem through_append (site : Site) (events later : List Event) :
    through site (events ++ later) = later.foldl undergo (through site events) :=
  List.foldl_append

section Registries

variable (keeps : Catalog → Registry → Prop)
  (grow : ∀ a b registry, a.Extends b → keeps a registry → keeps b registry)
  (register : ∀ catalog registry key, keeps catalog registry →
    keeps catalog (registry.register catalog key).2)

include grow register

theorem undergo_keeps (session : Session) (event : Event)
    (now : keeps session.catalog session.workspace.registry) :
    keeps (session.undergo event).catalog (session.undergo event).workspace.registry := by
  cases event with
  | elsewhere names edges read => exact now
  | call bodies command =>
      refine perform_keeps bodies (fun catalog workspace => keeps catalog workspace.registry)
        ?_ ?_ ?_ ?_ session command now
      · exact fun a b workspace grown holds => grow a b workspace.registry grown holds
      · exact fun catalog workspace key holds => register catalog workspace.registry key holds
      · exact fun catalog workspace node holds =>
          workspace.needs_registry ⟨catalog, bodies⟩ (keeps catalog) (register catalog) node holds
      · exact fun _ _ _ holds => holds

theorem undergo_all_keeps (session : Session) (events : List Event)
    (now : keeps session.catalog session.workspace.registry) :
    keeps (events.foldl undergo session).catalog (events.foldl undergo session).workspace.registry := by
  induction events generalizing session with
  | nil => exact now
  | cons event rest ih => exact ih _ (undergo_keeps keeps grow register session event now)

end Registries

theorem through_vetted (site : Site) (events : List Event) :
    (through site events).workspace.registry.Vetted (through site events).catalog := by
  refine undergo_all_keeps (fun catalog registry => registry.Vetted catalog) ?_ ?_ (fresh site) events ?_
  · exact fun a b registry grown vetted =>
      ⟨vetted.listed, fun key held => Catalog.extends_admits a b grown key (vetted.admitted key held)⟩
  · exact fun catalog registry key vetted => registry.register_vetted catalog key vetted
  · refine ⟨⟨[], Registry.lists_empty site⟩, fun key held => ?_⟩
    exact nomatch held.symm.trans (Registry.contains_empty site key)

theorem through_grows (site : Site) (events later : List Event) :
    (through site events).workspace.registry.Grows (through site (events ++ later)).workspace.registry := by
  rw [through_append]
  refine undergo_all_keeps (fun _ registry => (through site events).workspace.registry.Grows registry)
    ?_ ?_ _ later (Registry.grows_refl _)
  · exact fun _ _ _ _ grows => grows
  · exact fun catalog registry key grows => Registry.grows_trans _ _ _ grows (registry.register_grows catalog key)

structure Vouches (session : Session) : Prop where
  looked : ∀ key, session.workspace.registry.lookup key =
    (session.workspace.registry.find? key).map (·.node)
  registered : ∀ key, session.workspace.register session.catalog key =
    ((session.workspace.request session.catalog key).1.map (·.node),
      (session.workspace.request session.catalog key).2)
  admitted : ∀ key made, session.workspace.registry.find? key = some made →
    made.node = ⟨session.workspace.registry.number, key⟩ ∧ session.catalog.Admits key
  accepts : ∀ key, (∃ made, (session.workspace.request session.catalog key).1 = .ok made) ↔
    session.catalog.Admits key
  misfit : ∀ key, key.payload.shape ≠ key.expects →
    (session.workspace.request session.catalog key).1 =
      .error (.misfit key.kind key.expects key.payload.shape)
  unknown : ∀ key, key.payload.shape = key.expects → session.catalog.hasPayload key.payload = false →
    (session.workspace.request session.catalog key).1 = .error (.unknownPayload key.kind key.payload)
  untouched : ∀ key fault, (session.workspace.request session.catalog key).1 = .error fault →
    (session.workspace.request session.catalog key).2 = session.workspace
  held : ∀ key made, (session.workspace.request session.catalog key).1 = .ok made →
    let after := (session.workspace.request session.catalog key).2
    after.registry.find? key = some made ∧ after.registry.lookup key = some made.node ∧
    (∀ other, other ≠ key → after.registry.find? other = session.workspace.registry.find? other) ∧
    after.registry.size = session.workspace.registry.size +
      (if (session.workspace.registry.find? key).isSome then 0 else 1)
  counted : ∃ keys : List Key, keys.Nodup ∧ keys.length = session.workspace.registry.size ∧
    ∀ key, key ∈ keys ↔ ∃ made, session.workspace.registry.find? key = some made

-- Answers to lookups and to requests, at any moment while the events went on.
inductive Told (site : Site) (events : List Event) : Key → Instance → Prop where
  | lookup (earlier later : List Event) (split : events = earlier ++ later) (key : Key) (made : Instance)
      (found : (through site earlier).workspace.registry.find? key = some made) : Told site events key made
  | request (earlier : List Event) (bodies : Bodies) (key : Key) (later : List Event)
      (split : events = earlier ++ .call bodies (.register key) :: later) (made : Instance)
      (granted : ((through site earlier).workspace.request (through site earlier).catalog key).1 = .ok made) :
      Told site events key made

structure Remembers (site : Site) (events : List Event) : Prop where
  lasting : ∀ key made, Told site events key made →
    (through site events).workspace.registry.find? key = some made
  one : ∀ key made another, Told site events key made → Told site events key another → made = another
  apart : ∀ key other made another, Told site events key made → Told site events other another →
    made.serial = another.serial → key = other

theorem vetted_vouches (session : Session)
    (vetted : session.workspace.registry.Vetted session.catalog) : session.Vouches where
  looked _ := rfl
  registered _ := rfl
  admitted key made found :=
    ⟨session.workspace.registry.find_node key made found,
      vetted.admitted key (by simp [Registry.contains, found])⟩
  accepts := vetted.accepts
  misfit key wrong := vetted.refuses key _ (by simp [Catalog.checkKey, Key.checkFit, wrong, bind, Except.bind])
  unknown key fits absent :=
    vetted.refuses key _ (by simp [Catalog.checkKey, Key.checkFit, fits, absent, bind, Except.bind])
  untouched key fault refused := by
    have same := session.workspace.registry.request_untouched session.catalog key fault refused
    simp only [Workspace.request, same]
  held key made granted := by
    obtain ⟨found, size⟩ := session.workspace.registry.request_ok session.catalog key made granted
    have here := (found key).trans (if_pos rfl)
    refine ⟨here, ?_, fun other different => (found other).trans (if_neg different), size⟩
    simp only [Workspace.request, Registry.lookup, here, Option.map_some]
  counted := by
    obtain ⟨keys, lists⟩ := vetted.listed
    exact ⟨keys, lists.once, lists.counted, lists.mem_iff⟩

theorem undergo_register (session : Session) (bodies : Bodies) (key : Key) :
    (session.undergo (.call bodies (.register key))).workspace =
      (session.workspace.request session.catalog key).2 := rfl

theorem told_lasting (site : Site) (events : List Event) (key : Key) (made : Instance)
    (told : Told site events key made) : (through site events).workspace.registry.find? key = some made := by
  cases told with
  | lookup earlier later split _ _ found => exact split ▸ (through_grows site earlier later).kept key made found
  | request earlier bodies _ later split _ granted =>
      have now : (through site (earlier ++ [.call bodies (.register key)])).workspace.registry.find? key =
          some made := by
        rw [through_append, List.foldl_cons, List.foldl_nil, undergo_register]
        exact ((vetted_vouches _ (through_vetted site earlier)).held key made granted).1
      have whole : events = (earlier ++ [.call bodies (.register key)]) ++ later := by simp [split]
      rw [whole]
      exact (through_grows site _ later).kept key made now

theorem through_remembers (site : Site) (events : List Event) : Remembers site events where
  lasting := told_lasting site events
  one key made another first second :=
    Option.some.inj ((told_lasting site events key made first).symm.trans (told_lasting site events key another second))
  apart key other made another first second same := by
    obtain ⟨keys, lists⟩ := (through_vetted site events).listed
    exact lists.apart key other made another (told_lasting site events key made first)
      (told_lasting site events other another second) same

theorem nodes_canonical (site : Site) (events : List Event) :
    (through site events).Vouches ∧ Remembers site events :=
  ⟨vetted_vouches _ (through_vetted site events), through_remembers site events⟩

end Session

end ArtifactGraph
