import ArtifactGraph.Symbol.Identifier
import ArtifactGraph.Symbol.Tree

set_option autoImplicit false

/-! Names are escaped; all else is a marker, `$$` and a letter. `_` closes a segment
of a space. `G`, `C`, `E` open, separate and close type arguments. `Z`, `A<rank>`,
`P`, `R` come after the element of a vector, array, pointer, reference. `T<n>`,
`M<n>` are parameters of the type, of the method. `F` separates the owner of a
method from its name; `S`, `C`, `V`, `E` open its parameters, separate them,
announce the result and close. `D` announces the binding of a delegate. -/
namespace ArtifactGraph

namespace Symbol

def marker (letter : Char) : List Char := ['$', '$', letter]

def digits (n : Nat) : List Char := Nat.toDigits 10 n

-- An empty segment keeps its marker, so that `A..B` and `A.B` differ. The global
-- space has no segment.
def spellSpace (space : String) : List Char :=
  if space.isEmpty then []
  else (space.toList.flatMap fun c => if c = '.' then marker '_' else escapeChar c) ++ marker '_'

end Symbol

open ArtifactGraph.Symbol

mutual

def TypeTree.spell : TypeTree → List Char
  | .named space name arguments =>
      spellSpace space ++ escape name.toList ++ TypeTree.spellArguments arguments
  | .vector element => element.spell ++ marker 'Z'
  | .array element rank => element.spell ++ marker 'A' ++ digits rank
  | .pointer element => element.spell ++ marker 'P'
  | .byRef element => element.spell ++ marker 'R'
  | .typeParameter position => marker 'T' ++ digits position
  | .methodParameter position => marker 'M' ++ digits position

def TypeTree.spellArguments : List TypeTree → List Char
  | [] => []
  | first :: rest => marker 'G' ++ first.spell ++ TypeTree.spellMore rest ++ marker 'E'

def TypeTree.spellMore : List TypeTree → List Char
  | [] => []
  | next :: rest => marker 'C' ++ next.spell ++ TypeTree.spellMore rest

end

def TypeTree.spellList : List TypeTree → List Char
  | [] => []
  | first :: rest => first.spell ++ TypeTree.spellMore rest

-- Overloads differ in their parameters alone, so these are spelled even when
-- there are none.
def MethodTree.spell (tree : MethodTree) : List Char :=
  tree.owner.spell ++ marker 'F' ++ escape tree.name.toList
    ++ TypeTree.spellArguments tree.arguments
    ++ marker 'S' ++ TypeTree.spellList tree.parameters
    ++ marker 'V' ++ tree.result.elim [] TypeTree.spell ++ marker 'E'

def PayloadTree.spell : PayloadTree → List Char
  | .type tree => tree.spell
  | .method tree => tree.spell
  | .delegate tree binding => tree.spell ++ marker 'D' ++ binding.code.toList

def Label.spell (label : Label) : List Char := label.kind.tag.toList ++ label.payload.spell

end ArtifactGraph
