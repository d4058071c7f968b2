import ArtifactGraph.Artifact.Stub

set_option autoImplicit false

namespace ArtifactGraph

-- A virtual use records that a virtual method is called somewhere. A body is
-- compiled code.
inductive Kind where
  | stub (stub : Stub)
  | virtualUse
  | body
deriving DecidableEq

namespace Kind

def all : List Kind := Stub.all.map .stub ++ [.virtualUse, .body]

def rank (kind : Kind) : Nat := all.idxOf kind

def text : Kind → String
  | .stub made => made.text
  | .virtualUse => "VirtualMethodUse"
  | .body => "MethodEntry"

def tag : Kind → String
  | .body => "_nac_"
  | kind => "__" ++ kind.text ++ "_"

def precedes (a b : Kind) : Bool := a.rank ≤ b.rank

theorem mem_all (kind : Kind) : kind ∈ all := by
  cases kind with
  | stub made => simp [all, Stub.mem_all]
  | virtualUse | body => simp [all]

end Kind

inductive Key where
  | stub (stub : Stub) (payload : Payload)
  | virtualUse (method : MethodId)
  | body (method : MethodId)
deriving DecidableEq

namespace Key

def kind : Key → Kind
  | .stub made _ => .stub made
  | .virtualUse _ => .virtualUse
  | .body _ => .body

def payload : Key → Payload
  | .stub _ target => target
  | .virtualUse method | .body method => .method method

def expects : Key → PayloadShape
  | .stub made _ => made.expects
  | .virtualUse _ | .body _ => .method

def text : Key → String
  | .stub made target =>
      "Helper \x7b id: " ++ made.text ++ ", target: " ++ target.text ++ " \x7d"
  | .virtualUse method => "VirtualMethodUse(" ++ method.text ++ ")"
  | .body method => "MethodEntry(" ++ method.text ++ ")"

def bodyOf? : Key → Option MethodId
  | .body method => some method
  | _ => none

end Key

structure Edge where
  target : Key
  reason : String
deriving DecidableEq

structure Link where
  source : Key
  target : Key
  reason : String
deriving DecidableEq

def Edge.leaving (edge : Edge) (source : Key) : Link := ⟨source, edge.target, edge.reason⟩

end ArtifactGraph
