import ArtifactGraph.Artifact.Key

set_option autoImplicit false

namespace ArtifactGraph

inductive Handle where
  | type (id : TypeId)
  | method (id : MethodId)
deriving DecidableEq

def Handle.text : Handle → String
  | .type id => id.text
  | .method id => id.text

inductive Fault where
  | unknownPayload (kind : Kind) (payload : Payload)
  | misfit (kind : Kind) (expected found : PayloadShape)
  | undescribed (handle : Handle)
  | collision (symbol : String) (first second : Key)
deriving DecidableEq

namespace Fault

def detail : Fault → String
  | .unknownPayload kind payload =>
      kind.text ++ " node requested for unknown descriptor " ++ payload.label
  | .misfit kind expected found =>
      kind.text ++ " node requires a " ++ expected.text ++ " target, found " ++ found.text
  | .undescribed handle => "descriptor " ++ handle.text ++ " has no type-system entry"
  | .collision symbol first second =>
      "`" ++ first.text ++ "` and `" ++ second.text ++ "` both mangle to `" ++ symbol ++ "`"

def message (fault : Fault) : String := "internal compiler error: " ++ fault.detail

end Fault

def Key.checkFit (key : Key) : Except Fault Unit :=
  if key.payload.shape = key.expects then .ok ()
  else .error (.misfit key.kind key.expects key.payload.shape)

end ArtifactGraph
