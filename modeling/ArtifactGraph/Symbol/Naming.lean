import ArtifactGraph.Symbol.Spelling

set_option autoImplicit false

namespace ArtifactGraph

namespace Catalog

def typeName (catalog : Catalog) (id : TypeId) : Except Fault String :=
  (catalog.unfoldType id).map fun tree => String.ofList tree.spell

def methodName (catalog : Catalog) (id : MethodId) : Except Fault String :=
  (catalog.unfoldMethod id).map fun tree => String.ofList tree.spell

def symbol (catalog : Catalog) (key : Key) : Except Fault String :=
  (catalog.label key).map fun label => String.ofList label.spell

end Catalog

def isSymbol (name : String) : Bool :=
  Kind.all.any fun kind => kind.tag.toList.isPrefixOf name.toList

end ArtifactGraph
