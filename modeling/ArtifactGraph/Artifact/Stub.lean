import ArtifactGraph.Description.Method

set_option autoImplicit false

namespace ArtifactGraph

inductive PayloadShape where
  | type
  | method
  | delegate
deriving DecidableEq

def PayloadShape.text : PayloadShape → String
  | .type => "type descriptor"
  | .method => "method descriptor"
  | .delegate => "delegate record"

inductive Payload where
  | type (id : TypeId)
  | method (id : MethodId)
  | delegate (record : Delegate)
deriving DecidableEq

namespace Payload

def shape : Payload → PayloadShape
  | .type _ => .type
  | .method _ => .method
  | .delegate _ => .delegate

def text : Payload → String
  | .type id => "Type(" ++ id.text ++ ")"
  | .method id => "Method(" ++ id.text ++ ")"
  | .delegate record => "Delegate(" ++ record.text ++ ")"

def label : Payload → String
  | .type id => id.text
  | .method id => id.text
  | .delegate record => record.target.text ++ " (" ++ record.binding.text ++ ")"

end Payload

inductive Stub where
  | newObject
  | newArray
  | virtualCall
  | isInstance
  | cast
  | plainStatics
  | tracedStatics
  | threadStatics
  | delegate
deriving DecidableEq

namespace Stub

def all : List Stub :=
  [.newObject, .newArray, .virtualCall, .isInstance, .cast, .plainStatics, .tracedStatics,
    .threadStatics, .delegate]

def rank (stub : Stub) : Nat := all.idxOf stub

def text : Stub → String
  | .newObject => "NewHelper"
  | .newArray => "NewArr1"
  | .virtualCall => "VirtualCall"
  | .isInstance => "IsInstanceOf"
  | .cast => "CastClass"
  | .plainStatics => "GetNonGCStaticBase"
  | .tracedStatics => "GetGCStaticBase"
  | .threadStatics => "GetThreadStaticBase"
  | .delegate => "DelegateCtor"

def expects : Stub → PayloadShape
  | .virtualCall => .method
  | .delegate => .delegate
  | _ => .type

theorem mem_all (stub : Stub) : stub ∈ all := by
  cases stub <;> decide

end Stub

end ArtifactGraph
