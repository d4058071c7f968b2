import ArtifactGraph.Symbol.Naming

set_option autoImplicit false

namespace ArtifactGraph

structure Line where
  source : String
  target : String
  reason : String
deriving DecidableEq

def quoteChar (c : Char) : List Char :=
  if c = '\x5c' || c = '\x22' then ['\x5c', c] else [c]

def quote (text : String) : String :=
  "\x22" ++ String.ofList (text.toList.flatMap quoteChar) ++ "\x22"

namespace Line

def precedes (a b : Line) : Bool :=
  a.source < b.source || (a.source == b.source &&
    (a.target < b.target || (a.target == b.target && a.reason ≤ b.reason)))

def text (line : Line) : String :=
  line.source ++ " -> " ++ line.target ++ " : " ++ line.reason ++ "\n"

def dot (line : Line) : String :=
  "    " ++ quote line.source ++ " -> " ++ quote line.target ++
    " [label=" ++ quote line.reason ++ "];\n"

end Line

def Catalog.line (catalog : Catalog) (link : Link) : Except Fault Line := do
  let source ← catalog.symbol link.source
  let target ← catalog.symbol link.target
  return { source, target, reason := link.reason }

structure Report where
  links : List Link := []
deriving DecidableEq

namespace Report

def size (report : Report) : Nat := report.links.length

def isEmpty (report : Report) : Bool := report.links.isEmpty

def lines (report : Report) (catalog : Catalog) : Except Fault (List Line) :=
  return ((← report.links.mapM catalog.line).mergeSort Line.precedes).eraseReps

def text (report : Report) (catalog : Catalog) : Except Fault String :=
  return String.join ((← report.lines catalog).map Line.text)

def dot (report : Report) (catalog : Catalog) : Except Fault String :=
  return "digraph dependencies \x7b\n" ++
    String.join ((← report.lines catalog).map Line.dot) ++ "\x7d\n"

end Report

end ArtifactGraph
