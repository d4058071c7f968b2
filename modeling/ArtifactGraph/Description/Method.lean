import ArtifactGraph.Description.Type

set_option autoImplicit false

namespace ArtifactGraph

structure MethodId where
  position : Nat
deriving DecidableEq

namespace MethodId

def invalid : MethodId := ⟨nullPosition⟩

def isValid (id : MethodId) : Bool := id.position != nullPosition

def text (id : MethodId) : String :=
  if id.isValid then s!"MethodDesc({id.position})" else "MethodDesc::INVALID"

end MethodId

structure MethodTraits where
  isVirtual : Bool := false
  isAbstract : Bool := false
  isStatic : Bool := false
deriving DecidableEq

namespace MethodTraits

def ofBits (bits : Nat) : MethodTraits := ⟨bits.testBit 0, bits.testBit 1, bits.testBit 2⟩

def toBits (traits : MethodTraits) : Nat :=
  traits.isVirtual.toNat + 2 * traits.isAbstract.toNat + 4 * traits.isStatic.toNat

theorem of_bits_to_bits (traits : MethodTraits) : ofBits traits.toBits = traits := by
  rcases traits with ⟨_ | _, _ | _, _ | _⟩ <;> rfl

end MethodTraits

structure MethodForm where
  owner : TypeId
  name : String
  arguments : List TypeId := []
  parameters : List TypeId := []
  result : Option TypeId := none
  traits : MethodTraits := {}
deriving DecidableEq

def MethodForm.parts (form : MethodForm) : List TypeId :=
  form.owner :: form.arguments ++ form.parameters ++ form.result.toList

-- A closed delegate holds the first argument (of an instance method, the
-- receiver); an open one takes it from its caller.
inductive Binding where
  | closedInstance
  | closedStatic
  | openStatic
  | openInstance
deriving DecidableEq

namespace Binding

def all : List Binding := [.closedInstance, .closedStatic, .openStatic, .openInstance]

def rank (binding : Binding) : Nat := all.idxOf binding

def code : Binding → String
  | .closedInstance => "CI"
  | .closedStatic => "CS"
  | .openStatic => "OS"
  | .openInstance => "OI"

def text : Binding → String
  | .closedInstance => "ClosedInstance"
  | .closedStatic => "ClosedStatic"
  | .openStatic => "OpenStatic"
  | .openInstance => "OpenInstance"

end Binding

structure Delegate where
  target : MethodId
  binding : Binding
deriving DecidableEq

namespace Delegate

def text (delegate : Delegate) : String :=
  "DelegateInfo \x7b target: " ++ delegate.target.text ++
    ", shape: " ++ delegate.binding.text ++ " \x7d"

def precedes (a b : Delegate) : Bool :=
  a.target.position < b.target.position ||
    (a.target.position == b.target.position && a.binding.rank ≤ b.binding.rank)

end Delegate

end ArtifactGraph
