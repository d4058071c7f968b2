import ArtifactGraph.Artifact.Fault
import ArtifactGraph.Description.Catalog

set_option autoImplicit false

namespace ArtifactGraph

inductive TypeTree where
  | named (space name : String) (arguments : List TypeTree)
  | vector (element : TypeTree)
  | array (element : TypeTree) (rank : Nat)
  | pointer (element : TypeTree)
  | byRef (element : TypeTree)
  | typeParameter (position : Nat)
  | methodParameter (position : Nat)

-- Traits are left out: no symbol shows them.
structure MethodTree where
  owner : TypeTree
  name : String
  arguments : List TypeTree
  parameters : List TypeTree
  result : Option TypeTree

inductive PayloadTree where
  | type (tree : TypeTree)
  | method (tree : MethodTree)
  | delegate (tree : MethodTree) (binding : Binding)

structure Label where
  kind : Kind
  payload : PayloadTree

namespace Catalog

-- The parts of a type were described before it. So the tree of the type at
-- position `n` has at most `n + 1` layers, and `unfoldType` reaches them all.
def unfoldWithin (catalog : Catalog) : Nat → TypeId → Except Fault TypeTree
  | 0, id => .error (.undescribed (.type id))
  | depth + 1, id =>
    match catalog.type? id with
    | none => .error (.undescribed (.type id))
    | some (.named space name arguments) =>
        return .named space name (← arguments.mapM (catalog.unfoldWithin depth))
    | some (.vector element) => return .vector (← catalog.unfoldWithin depth element)
    | some (.array element rank) => return .array (← catalog.unfoldWithin depth element) rank
    | some (.pointer element) => return .pointer (← catalog.unfoldWithin depth element)
    | some (.byRef element) => return .byRef (← catalog.unfoldWithin depth element)
    | some (.typeParameter position) => return .typeParameter position
    | some (.methodParameter position) => return .methodParameter position

def unfoldType (catalog : Catalog) (id : TypeId) : Except Fault TypeTree :=
  catalog.unfoldWithin (id.position + 1) id

def unfoldMethod (catalog : Catalog) (id : MethodId) : Except Fault MethodTree :=
  match catalog.method? id with
  | none => .error (.undescribed (.method id))
  | some form => do
    let owner ← catalog.unfoldType form.owner
    let arguments ← form.arguments.mapM catalog.unfoldType
    let parameters ← form.parameters.mapM catalog.unfoldType
    let result ← form.result.mapM catalog.unfoldType
    return { owner, name := form.name, arguments, parameters, result }

def unfoldPayload (catalog : Catalog) : Payload → Except Fault PayloadTree
  | .type id => return .type (← catalog.unfoldType id)
  | .method id => return .method (← catalog.unfoldMethod id)
  | .delegate record => return .delegate (← catalog.unfoldMethod record.target) record.binding

def label (catalog : Catalog) (key : Key) : Except Fault Label :=
  return { kind := key.kind, payload := ← catalog.unfoldPayload key.payload }

end Catalog

end ArtifactGraph
