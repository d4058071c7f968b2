import ArtifactGraph.Graph.Registry
import ArtifactGraph.Proofs.Catalogs

set_option autoImplicit false

namespace ArtifactGraph

def Catalog.Admits (catalog : Catalog) (key : Key) : Prop :=
  key.payload.shape = key.expects ∧ catalog.hasPayload key.payload = true

instance (catalog : Catalog) (key : Key) : Decidable (catalog.Admits key) :=
  inferInstanceAs (Decidable (_ ∧ _))

namespace Catalog

theorem check_key_ok (catalog : Catalog) (key : Key) :
    catalog.checkKey key = .ok () ↔ catalog.Admits key := by
  by_cases fits : key.payload.shape = key.expects
  · have passed : key.checkFit = .ok () := if_pos fits
    by_cases held : catalog.hasPayload key.payload = true <;>
      simp [checkKey, passed, Admits, fits, held, bind, Except.bind]
  · have refused : key.checkFit = .error (.misfit key.kind key.expects key.payload.shape) := if_neg fits
    simp [checkKey, refused, Admits, fits, bind, Except.bind]

theorem extends_has_payload (a b : Catalog) (grown : a.Extends b) (payload : Payload)
    (held : a.hasPayload payload = true) : b.hasPayload payload = true := by
  cases payload with
  | type id => exact extends_has_type a b grown id held
  | method id => exact extends_has_method a b grown id held
  | delegate record => exact extends_has_method a b grown record.target held

theorem extends_admits (a b : Catalog) (grown : a.Extends b) (key : Key) (admitted : a.Admits key) :
    b.Admits key :=
  ⟨admitted.1, extends_has_payload a b grown key.payload admitted.2⟩

end Catalog

namespace Registry

theorem contains_add (registry : Registry) (key query : Key) :
    (registry.add key).contains query = true ↔ registry.contains query = true ∨ query = key := by
  rw [contains, find_add, contains]
  by_cases same : query = key <;> simp [same]

theorem missing_iff (registry : Registry) (key : Key) :
    registry.contains key = false ↔ registry.find? key = none := by
  simp [contains]

theorem contains_empty (site : Site) (key : Key) : (empty site).contains key = false :=
  (missing_iff _ key).mpr (find_empty site key)

theorem contains_mem (registry : Registry) (key : Key) (held : registry.contains key = true) :
    key ∈ registry.keys := by
  obtain ⟨made, found⟩ := Option.isSome_iff_exists.mp held
  refine List.mem_flatMap.mpr ⟨registry.shard key, ?_, Index.get_mem _ key made found⟩
  simp [shard]

theorem lookup_iff (registry : Registry) (key : Key) (node : Node) :
    registry.lookup key = some node ↔ registry.contains key = true ∧ ⟨registry.number, key⟩ = node := by
  rw [lookup, contains]
  cases found : registry.find? key with
  | none => simp
  | some made => simp [registry.find_node key made found]

theorem lookup_self_iff (registry : Registry) (node : Node) :
    registry.lookup node.key = some node ↔
      registry.contains node.key = true ∧ node.home = registry.number := by
  rw [lookup_iff]
  refine and_congr_right fun _ => ⟨fun same => (congrArg Node.home same).symm, ?_⟩
  rintro home
  rw [← home]

theorem request_cases (registry : Registry) (catalog : Catalog) (key : Key) :
    (∃ made, registry.find? key = some made ∧ registry.request catalog key = (.ok made, registry)) ∨
    (registry.find? key = none ∧ catalog.Admits key ∧
      registry.request catalog key = (.ok (registry.fresh key), registry.add key)) ∨
    (registry.find? key = none ∧ ¬ catalog.Admits key ∧
      ∃ fault, catalog.checkKey key = .error fault ∧
        registry.request catalog key = (.error fault, registry)) := by
  rw [request]
  cases found : registry.find? key with
  | some made => exact .inl ⟨made, rfl, rfl⟩
  | none =>
      cases checked : catalog.checkKey key with
      | ok done =>
          have admitted := (catalog.check_key_ok key).mp checked
          exact .inr (.inl ⟨rfl, admitted, by simp [create, found]⟩)
      | error fault =>
          have refused : ¬ catalog.Admits key := fun admitted => by
            simp [(catalog.check_key_ok key).mpr admitted] at checked
          exact .inr (.inr ⟨rfl, refused, fault, rfl, rfl⟩)

theorem register_cases (registry : Registry) (catalog : Catalog) (key : Key) :
    (registry.contains key = true ∧
      registry.register catalog key = (.ok ⟨registry.number, key⟩, registry)) ∨
    (registry.contains key = false ∧ catalog.Admits key ∧
      registry.register catalog key = (.ok ⟨registry.number, key⟩, registry.add key)) ∨
    (registry.contains key = false ∧ ¬ catalog.Admits key ∧
      ∃ fault, catalog.checkKey key = .error fault ∧
        registry.register catalog key = (.error fault, registry)) := by
  rw [missing_iff, register]
  rcases registry.request_cases catalog key with
    ⟨made, found, result⟩ | ⟨missing, admitted, result⟩ | ⟨missing, refused, fault, checked, result⟩ <;>
    rw [result]
  · have node := registry.find_node key made found
    exact .inl ⟨by simp [contains, found], by simp [Except.map, node]⟩
  · exact .inr (.inl ⟨missing, admitted, rfl⟩)
  · exact .inr (.inr ⟨missing, refused, fault, checked, rfl⟩)

theorem register_held (registry : Registry) (catalog : Catalog) (key : Key)
    (held : registry.contains key = true) :
    registry.register catalog key = (.ok ⟨registry.number, key⟩, registry) := by
  rcases registry.register_cases catalog key with ⟨-, result⟩ | ⟨missing, _⟩ | ⟨missing, _⟩
  · exact result
  · exact nomatch held.symm.trans missing
  · exact nomatch held.symm.trans missing

theorem register_number (registry : Registry) (catalog : Catalog) (key : Key) :
    (registry.register catalog key).2.number = registry.number := by
  rcases registry.register_cases catalog key with ⟨-, result⟩ | ⟨-, -, result⟩ | ⟨-, -, _, -, result⟩ <;>
    rw [result]
  rfl

theorem register_keeps (registry : Registry) (catalog : Catalog) (key query : Key)
    (held : registry.contains query = true) :
    (registry.register catalog key).2.contains query = true := by
  rcases registry.register_cases catalog key with ⟨-, result⟩ | ⟨-, -, result⟩ | ⟨-, -, _, -, result⟩ <;>
    rw [result]
  · exact held
  · exact (registry.contains_add key query).mpr (.inl held)
  · exact held

theorem register_adds (registry : Registry) (catalog : Catalog) (key query : Key)
    (held : (registry.register catalog key).2.contains query = true) :
    registry.contains query = true ∨ (query = key ∧ catalog.Admits key) := by
  rcases registry.register_cases catalog key with
    ⟨-, result⟩ | ⟨-, admitted, result⟩ | ⟨-, -, _, -, result⟩ <;> rw [result] at held
  · exact .inl held
  · exact ((registry.contains_add key query).mp held).imp_right fun same => ⟨same, admitted⟩
  · exact .inl held

theorem register_ok (registry : Registry) (catalog : Catalog) (key : Key) (node : Node)
    (accepted : (registry.register catalog key).1 = .ok node) :
    node = ⟨registry.number, key⟩ ∧ (registry.register catalog key).2.contains key = true := by
  rcases registry.register_cases catalog key with
    ⟨held, result⟩ | ⟨-, -, result⟩ | ⟨-, -, _, -, result⟩ <;> rw [result] at accepted ⊢
  · exact ⟨(Except.ok.inj accepted).symm, held⟩
  · exact ⟨(Except.ok.inj accepted).symm, (registry.contains_add key key).mpr (.inr rfl)⟩
  · exact nomatch accepted

theorem register_contains (registry : Registry) (catalog : Catalog) (key query : Key) (node : Node)
    (accepted : (registry.register catalog key).1 = .ok node) :
    (registry.register catalog key).2.contains query = true ↔
      registry.contains query = true ∨ key = query := by
  constructor
  · intro held
    exact (registry.register_adds catalog key query held).imp_right fun added => added.1.symm
  · rintro (held | rfl)
    · exact registry.register_keeps catalog key query held
    · exact (registry.register_ok catalog key node accepted).2

theorem register_refused (registry : Registry) (catalog : Catalog) (key : Key) (fault : Fault)
    (missing : registry.contains key = false) (checked : catalog.checkKey key = .error fault) :
    registry.register catalog key = (.error fault, registry) := by
  rcases registry.register_cases catalog key with ⟨held, _⟩ | ⟨_, admitted, _⟩ | ⟨_, _, other, again, result⟩
  · exact nomatch held.symm.trans missing
  · exact nomatch checked.symm.trans ((catalog.check_key_ok key).mpr admitted)
  · rw [result, Except.error.inj (again.symm.trans checked)]

theorem register_untouched (registry : Registry) (catalog : Catalog) (key : Key) (fault : Fault)
    (refused : (registry.register catalog key).1 = .error fault) :
    (registry.register catalog key).2 = registry := by
  rcases registry.register_cases catalog key with
    ⟨-, result⟩ | ⟨-, -, result⟩ | ⟨-, -, _, -, result⟩ <;> rw [result] at refused ⊢
  · exact nomatch refused

theorem register_accepts (registry : Registry) (catalog : Catalog) (key : Key) :
    (∃ node, (registry.register catalog key).1 = .ok node) ↔
      registry.contains key = true ∨ catalog.Admits key := by
  rcases registry.register_cases catalog key with
    ⟨held, result⟩ | ⟨-, admitted, result⟩ | ⟨missing, refused, _, -, result⟩ <;> rw [result]
  · simp [held]
  · simp [admitted]
  · simp [missing, refused]

theorem register_all_cons (registry : Registry) (catalog : Catalog) (key : Key) (rest : List Key) :
    (∃ fault, (registry.register catalog key).1 = .error fault ∧
      registry.registerAll catalog (key :: rest) =
        (.error fault, (registry.register catalog key).2)) ∨
    (∃ node, (registry.register catalog key).1 = .ok node ∧
      registry.registerAll catalog (key :: rest) =
        (registry.register catalog key).2.registerAll catalog rest) := by
  rcases registry.register_cases catalog key with
    ⟨_, result⟩ | ⟨_, _, result⟩ | ⟨_, _, fault, _, result⟩
  · exact .inr ⟨_, by rw [result], by simp only [registerAll, result]⟩
  · exact .inr ⟨_, by rw [result], by simp only [registerAll, result]⟩
  · exact .inl ⟨fault, by rw [result], by simp only [registerAll, result]⟩

theorem register_all_induction (catalog : Catalog) (keeps : Registry → Prop)
    (step : ∀ registry key, keeps registry → keeps (registry.register catalog key).2) (registry : Registry)
    (keys : List Key) (now : keeps registry) : keeps (registry.registerAll catalog keys).2 := by
  induction keys generalizing registry with
  | nil => exact now
  | cons key rest ih =>
      have next := step registry key now
      rcases registry.register_all_cons catalog key rest with ⟨_, _, result⟩ | ⟨_, _, result⟩ <;> rw [result]
      · exact next
      · exact ih _ next

theorem register_all_keeps (registry : Registry) (catalog : Catalog) (keys : List Key) (query : Key)
    (held : registry.contains query = true) :
    (registry.registerAll catalog keys).2.contains query = true := by
  refine register_all_induction catalog (fun after => after.contains query = true) ?_ registry keys held
  exact fun after key stays => after.register_keeps catalog key query stays

theorem register_all_adds (registry : Registry) (catalog : Catalog) (keys : List Key) (query : Key)
    (held : (registry.registerAll catalog keys).2.contains query = true) :
    registry.contains query = true ∨ (query ∈ keys ∧ catalog.Admits query) := by
  induction keys generalizing registry with
  | nil => exact .inl held
  | cons key rest ih =>
      have first : (registry.register catalog key).2.contains query = true →
          registry.contains query = true ∨ (query ∈ key :: rest ∧ catalog.Admits query) := by
        intro present
        rcases registry.register_adds catalog key query present with old | ⟨same, admitted⟩
        · exact .inl old
        · exact .inr ⟨by simp [same], same ▸ admitted⟩
      rcases registry.register_all_cons catalog key rest with ⟨_, _, result⟩ | ⟨_, _, result⟩ <;>
        rw [result] at held
      · exact first held
      · rcases ih _ held with present | ⟨member, admitted⟩
        · exact first present
        · exact .inr ⟨List.mem_cons_of_mem key member, admitted⟩

theorem register_all_ok (registry : Registry) (catalog : Catalog) (keys : List Key)
    (accepted : (registry.registerAll catalog keys).1 = .ok ()) :
    ∀ key ∈ keys, (registry.registerAll catalog keys).2.contains key = true := by
  induction keys generalizing registry with
  | nil => simp
  | cons key rest ih =>
      rcases registry.register_all_cons catalog key rest with ⟨_, _, result⟩ | ⟨node, first, result⟩ <;>
        rw [result] at accepted ⊢
      · exact nomatch accepted
      · have held := (registry.register_ok catalog key node first).2
        intro other member
        rcases List.mem_cons.mp member with same | later
        · rw [same]
          exact register_all_keeps _ catalog rest key held
        · exact ih _ accepted other later

theorem register_all_accepts (registry : Registry) (catalog : Catalog) (keys : List Key) :
    (registry.registerAll catalog keys).1 = .ok () ↔
      ∀ key ∈ keys, registry.contains key = true ∨ catalog.Admits key := by
  constructor
  · intro accepted key member
    have held := registry.register_all_ok catalog keys accepted key member
    exact (registry.register_all_adds catalog keys key held).imp_right And.right
  · intro welcome
    induction keys generalizing registry with
    | nil => rfl
    | cons key rest ih =>
        obtain ⟨node, first⟩ := (registry.register_accepts catalog key).mpr (welcome key (by simp))
        rcases registry.register_all_cons catalog key rest with ⟨_, refused, _⟩ | ⟨_, _, result⟩
        · exact nomatch first.symm.trans refused
        · rw [result]
          refine ih _ fun other member => ?_
          exact (welcome other (List.mem_cons_of_mem key member)).imp_left
            (registry.register_keeps catalog key other)

theorem register_all_held (registry : Registry) (catalog : Catalog) (keys : List Key)
    (held : ∀ key ∈ keys, registry.contains key = true) :
    registry.registerAll catalog keys = (.ok (), registry) := by
  induction keys with
  | nil => rfl
  | cons key rest ih =>
      have first := registry.register_held catalog key (held key (by simp))
      simp only [registerAll, first]
      exact ih fun other member => held other (List.mem_cons_of_mem key member)

theorem register_all_again (registry : Registry) (catalog : Catalog) (keys : List Key) :
    (registry.registerAll catalog keys).2.registerAll catalog keys = registry.registerAll catalog keys := by
  induction keys generalizing registry with
  | nil => rfl
  | cons key rest ih =>
      cases first : registry.register catalog key with
      | mk answer next =>
          cases answer with
          | ok node =>
              have held := (registry.register_ok catalog key node (congrArg Prod.fst first)).2
              rw [first] at held
              have stays := next.register_all_keeps catalog rest key held
              simp only [registerAll, first, register_held _ catalog key stays]
              exact ih next
          | error fault =>
              have same := registry.register_untouched catalog key fault (congrArg Prod.fst first)
              rw [first] at same
              simp only [registerAll, first, same]

theorem register_all_stops (registry : Registry) (catalog : Catalog) (keys : List Key) (fault : Fault)
    (sound : ∀ key, registry.contains key = true → catalog.Admits key)
    (refused : (registry.registerAll catalog keys).1 = .error fault) :
    ∃ key, keys.find? (fun key => decide (¬ catalog.Admits key)) = some key ∧
      catalog.checkKey key = .error fault := by
  induction keys generalizing registry with
  | nil => exact nomatch refused
  | cons key rest ih =>
      rcases registry.register_cases catalog key with
        ⟨held, first⟩ | ⟨_, admitted, first⟩ | ⟨_, bad, other, checked, first⟩ <;>
        simp only [registerAll, first] at refused
      · rw [List.find?_cons_of_neg (by simpa using sound key held)]
        exact ih registry sound refused
      · rw [List.find?_cons_of_neg (by simpa using admitted)]
        refine ih _ ?_ refused
        intro query present
        rcases (registry.contains_add key query).mp present with old | rfl
        · exact sound query old
        · exact admitted
      · rw [List.find?_cons_of_pos (by simpa using bad)]
        exact ⟨key, rfl, checked.trans (congrArg Except.error (Except.error.inj refused))⟩

end Registry

end ArtifactGraph
