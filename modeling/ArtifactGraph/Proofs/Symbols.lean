import ArtifactGraph.Proofs.Registries
import ArtifactGraph.Proofs.Unfoldings
import ArtifactGraph.Symbol.Naming

set_option autoImplicit false

namespace ArtifactGraph

def Payload.handle : Payload → Handle
  | .type id => .type id
  | .method id => .method id
  | .delegate record => .method record.target

namespace Catalog

theorem key_of_kind (a b : Key) (kind : a.kind = b.kind) (payload : a.payload = b.payload) : a = b := by
  cases a <;> cases b <;> simp_all [Key.kind, Key.payload]

def MethodsAgree (catalog : Catalog) (a b : MethodId) : Prop :=
  ∃ form other, catalog.method? a = some form ∧ catalog.method? b = some other ∧ form.Agrees other

inductive PayloadsAgree (catalog : Catalog) : Payload → Payload → Prop where
  | type (id : TypeId) : PayloadsAgree catalog (.type id) (.type id)
  | method (a b : MethodId) (agree : catalog.MethodsAgree a b) :
      PayloadsAgree catalog (.method a) (.method b)
  | delegate (a b : MethodId) (binding : Binding) (agree : catalog.MethodsAgree a b) :
      PayloadsAgree catalog (.delegate ⟨a, binding⟩) (.delegate ⟨b, binding⟩)

inductive UnfoldsPayload (catalog : Catalog) : Payload → PayloadTree → Prop where
  | type (id : TypeId) (tree : TypeTree) (done : catalog.unfoldType id = .ok tree) :
      UnfoldsPayload catalog (.type id) (.type tree)
  | method (id : MethodId) (tree : MethodTree) (done : catalog.unfoldMethod id = .ok tree) :
      UnfoldsPayload catalog (.method id) (.method tree)
  | delegate (id : MethodId) (binding : Binding) (tree : MethodTree)
      (done : catalog.unfoldMethod id = .ok tree) :
      UnfoldsPayload catalog (.delegate ⟨id, binding⟩) (.delegate tree binding)

theorem symbol_spell (catalog : Catalog) (key : Key) (tree : PayloadTree)
    (unfolds : catalog.UnfoldsPayload key.payload tree) :
    catalog.symbol key = .ok (String.ofList (Label.spell ⟨key.kind, tree⟩)) := by
  generalize given : key.payload = payload at unfolds
  cases unfolds with
  | type id tree done | method id tree done | delegate id binding tree done =>
      simp [symbol, label, given, unfoldPayload, done, bind, Except.bind, pure, Except.pure, Except.map]

theorem type_name_spell (catalog : Catalog) (id : TypeId) (tree : TypeTree)
    (done : catalog.unfoldType id = .ok tree) : catalog.typeName id = .ok (String.ofList tree.spell) := by
  rw [typeName, done]
  rfl

theorem method_name_spell (catalog : Catalog) (id : MethodId) (tree : MethodTree)
    (done : catalog.unfoldMethod id = .ok tree) : catalog.methodName id = .ok (String.ofList tree.spell) := by
  rw [methodName, done]
  rfl

theorem symbol_unfolds (catalog : Catalog) (key : Key) (name : String) (named : catalog.symbol key = .ok name) :
    ∃ tree, catalog.UnfoldsPayload key.payload tree ∧ name = String.ofList (Label.spell ⟨key.kind, tree⟩) := by
  have unfolds : ∃ tree, catalog.UnfoldsPayload key.payload tree := by
    cases done : catalog.unfoldPayload key.payload with
    | error fault => simp [symbol, label, done, bind, Except.bind, Except.map] at named
    | ok tree =>
        generalize key.payload = payload at done
        cases payload <;>
          simp only [unfoldPayload, bind_ok_iff, pure, Except.pure, Except.ok.injEq] at done <;>
          obtain ⟨part, found, rfl⟩ := done
        · exact ⟨_, .type _ part found⟩
        · exact ⟨_, .method _ part found⟩
        · exact ⟨_, .delegate _ _ part found⟩
  obtain ⟨tree, shown⟩ := unfolds
  rw [catalog.symbol_spell key tree shown] at named
  exact ⟨tree, shown, (Except.ok.inj named).symm⟩

section Sound

variable (catalog : Catalog) (sound : catalog.Sound)

include sound

theorem unfolds_payload_total (payload : Payload) (held : catalog.hasPayload payload = true) :
    ∃ tree, catalog.UnfoldsPayload payload tree := by
  cases payload with
  | type id =>
      obtain ⟨tree, done⟩ := unfold_type_total catalog sound id held
      exact ⟨_, .type id tree done⟩
  | method id =>
      obtain ⟨tree, done⟩ := unfold_method_total catalog sound id held
      exact ⟨_, .method id tree done⟩
  | delegate record =>
      obtain ⟨tree, done⟩ := unfold_method_total catalog sound record.target held
      exact ⟨_, .delegate record.target record.binding tree done⟩

theorem unfolds_payload_named (payload : Payload) (tree : PayloadTree)
    (unfolds : catalog.UnfoldsPayload payload tree) : tree.Named := by
  cases unfolds with
  | type => trivial
  | method id tree done => exact unfold_method_named catalog sound id tree done
  | delegate id binding tree done => exact unfold_method_named catalog sound id tree done

theorem unfold_method_same (a b : MethodId) (tree another : MethodTree)
    (left : catalog.unfoldMethod a = .ok tree) (right : catalog.unfoldMethod b = .ok another) :
    tree = another ↔ catalog.MethodsAgree a b := by
  obtain ⟨form, stored, first⟩ := (catalog.unfold_method_iff a tree).mp left
  obtain ⟨other, found, second⟩ := (catalog.unfold_method_iff b another).mp right
  rw [unfolds_agree catalog sound form other tree another first second]
  simp [MethodsAgree, stored, found]

theorem unfolds_payload_same (a b : Payload) (tree another : PayloadTree)
    (left : catalog.UnfoldsPayload a tree) (right : catalog.UnfoldsPayload b another) :
    tree = another ↔ catalog.PayloadsAgree a b := by
  cases left <;> cases right
  case type.type a first done b second found =>
      constructor
      · intro same
        obtain rfl := PayloadTree.type.inj same
        exact unfold_type_injective catalog sound a b first done found ▸ .type a
      · rintro ⟨⟩
        exact congrArg PayloadTree.type (Except.ok.inj (done.symm.trans found))
  case method.method a first done b second found =>
      have methods := unfold_method_same catalog sound a b first second done found
      constructor
      · exact fun same => .method a b (methods.mp (PayloadTree.method.inj same))
      · intro same
        cases same with
        | method _ _ agree => exact congrArg PayloadTree.method (methods.mpr agree)
  case delegate.delegate a left first done b right second found =>
      have methods := unfold_method_same catalog sound a b first second done found
      constructor
      · intro same
        obtain ⟨trees, rfl⟩ := PayloadTree.delegate.inj same
        exact .delegate a b left (methods.mp trees)
      · intro same
        cases same with
        | delegate _ _ _ agree => rw [methods.mpr agree]
  all_goals exact ⟨fun same => (nomatch same), fun agree => (nomatch agree)⟩

theorem symbol_total (key : Key) (held : catalog.hasPayload key.payload = true) :
    ∃ symbol, catalog.symbol key = .ok symbol := by
  obtain ⟨tree, unfolds⟩ := unfolds_payload_total catalog sound key.payload held
  exact ⟨_, symbol_spell catalog key tree unfolds⟩

theorem symbol_missing (key : Key) (missing : catalog.hasPayload key.payload = false) :
    catalog.symbol key = .error (.undescribed key.payload.handle) := by
  unfold symbol label
  generalize key.payload = payload at missing ⊢
  cases payload with
  | type id =>
      have absent := unfold_type_missing catalog sound id missing
      simp only [unfoldPayload, absent, Payload.handle, bind, Except.bind, Except.map]
  | method id =>
      have absent := unfold_method_missing catalog sound id missing
      simp only [unfoldPayload, absent, Payload.handle, bind, Except.bind, Except.map]
  | delegate record =>
      have absent := unfold_method_missing catalog sound record.target missing
      simp only [unfoldPayload, absent, Payload.handle, bind, Except.bind, Except.map]

theorem symbol_error_iff (key : Key) (fault : Fault) :
    catalog.symbol key = .error fault ↔
      catalog.hasPayload key.payload = false ∧ fault = .undescribed key.payload.handle := by
  cases held : catalog.hasPayload key.payload with
  | false => simp [symbol_missing catalog sound key held, eq_comm]
  | true =>
      obtain ⟨name, named⟩ := symbol_total catalog sound key held
      simp [named]

theorem symbol_same (a b : Key) (left : catalog.hasPayload a.payload = true)
    (right : catalog.hasPayload b.payload = true) :
    catalog.symbol a = catalog.symbol b ↔ a.kind = b.kind ∧ catalog.PayloadsAgree a.payload b.payload := by
  obtain ⟨tree, first⟩ := unfolds_payload_total catalog sound a.payload left
  obtain ⟨other, second⟩ := unfolds_payload_total catalog sound b.payload right
  rw [symbol_spell catalog a tree first, symbol_spell catalog b other second,
    ← unfolds_payload_same catalog sound a.payload b.payload tree other first second]
  constructor
  · intro same
    exact Label.mk.inj (Label.spell_injective ⟨a.kind, tree⟩ ⟨b.kind, other⟩
      (unfolds_payload_named catalog sound a.payload tree first)
      (unfolds_payload_named catalog sound b.payload other second)
      (String.ofList_injective (Except.ok.inj same)))
  · rintro ⟨kinds, trees⟩
    rw [kinds, trees]

end Sound

theorem symbols_agree_iff (history : List Description) (a b : Key)
    (left : (ofHistory history).hasPayload a.payload = true)
    (right : (ofHistory history).hasPayload b.payload = true) :
    ∃ one another, (ofHistory history).symbol a = .ok one ∧ (ofHistory history).symbol b = .ok another ∧
      (one = another ↔ a.kind = b.kind ∧ (ofHistory history).PayloadsAgree a.payload b.payload) := by
  have sound := history_sound history
  obtain ⟨one, first⟩ := symbol_total _ sound a left
  obtain ⟨another, second⟩ := symbol_total _ sound b right
  refine ⟨one, another, first, second, ?_⟩
  rw [← symbol_same _ sound a b left right, first, second, Except.ok.injEq]

def twins : List Description :=
  [.type (.named "App" "Main" []),
    .method { owner := ⟨0⟩, name := "Run" },
    .method { owner := ⟨0⟩, name := "Run", traits := { isStatic := true } }]

theorem twins_agree : (ofHistory twins).MethodsAgree ⟨0⟩ ⟨1⟩ :=
  ⟨_, _, rfl, rfl, rfl, rfl, rfl, rfl, rfl⟩

theorem twin_symbols_agree :
    (ofHistory twins).hasPayload (Key.stub .cast (.method ⟨0⟩)).payload = true ∧
    (ofHistory twins).hasPayload (Key.stub .cast (.method ⟨1⟩)).payload = true ∧
    ∃ one another, (ofHistory twins).symbol (.stub .cast (.method ⟨0⟩)) = .ok one ∧
      (ofHistory twins).symbol (.stub .cast (.method ⟨1⟩)) = .ok another ∧ one = another := by
  have left : (ofHistory twins).hasPayload (Key.stub .cast (.method ⟨0⟩)).payload = true := by decide
  have right : (ofHistory twins).hasPayload (Key.stub .cast (.method ⟨1⟩)).payload = true := by decide
  obtain ⟨one, another, first, second, same⟩ := symbols_agree_iff twins _ _ left right
  exact ⟨left, right, one, another, first, second, same.mpr ⟨rfl, .method _ _ twins_agree⟩⟩

end Catalog

end ArtifactGraph
