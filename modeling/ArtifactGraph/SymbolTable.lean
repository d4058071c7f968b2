import ArtifactGraph.Graph.Cells

set_option autoImplicit false

namespace ArtifactGraph

structure Row where
  symbol : String
  node : Node
deriving DecidableEq

namespace Row

def precedes (a b : Row) : Bool :=
  a.symbol < b.symbol || (a.symbol == b.symbol && a.node.key.kind.precedes b.node.key.kind)

def sameKey (a b : Row) : Bool := a.node.key == b.node.key

end Row

def Cells.nameAll (names : Cells String) (catalog : Catalog) :
    List Node → Except Fault (List Row) × Cells String
  | [] => (.ok [], names)
  | node :: rest =>
    match names.name catalog node with
    | (.error fault, names) => (.error fault, names)
    | (.ok symbol, names) =>
      match names.nameAll catalog rest with
      | (.error fault, names) => (.error fault, names)
      | (.ok rows, names) => (.ok (⟨symbol, node⟩ :: rows), names)

def clash? : List Row → Option (Row × Row)
  | first :: second :: rest =>
      if first.symbol = second.symbol then some (first, second) else clash? (second :: rest)
  | _ => none

structure SymbolTable where
  rows : Array Row := #[]
deriving DecidableEq

namespace SymbolTable

-- Within one registry a key has one kind and one symbol, so after the sort its
-- rows are neighbours.
def ofRows (rows : List Row) : Except Fault SymbolTable :=
  let distinct := (rows.mergeSort Row.precedes).eraseRepsBy Row.sameKey
  match clash? distinct with
  | some (first, second) => .error (.collision first.symbol first.node.key second.node.key)
  | none => .ok ⟨distinct.toArray⟩

def ofNodes (names : Cells String) (catalog : Catalog) (nodes : List Node) :
    Except Fault SymbolTable × Cells String :=
  match names.nameAll catalog nodes with
  | (.error fault, names) => (.error fault, names)
  | (.ok rows, names) => (ofRows rows, names)

def size (table : SymbolTable) : Nat := table.rows.size

def isEmpty (table : SymbolTable) : Bool := table.rows.isEmpty

def symbols (table : SymbolTable) : List String := table.rows.toList.map (·.symbol)

def search (table : SymbolTable) (symbol : String) (low high : Nat) : Option Nat :=
  if low < high then
    let middle := (low + high) / 2
    match table.rows[middle]? with
    | none => none
    | some row =>
      if row.symbol = symbol then some middle
      else if row.symbol < symbol then table.search symbol (middle + 1) high
      else table.search symbol low middle
  else none
termination_by high - low

def position? (table : SymbolTable) (symbol : String) : Option Nat :=
  table.search symbol 0 table.size

end SymbolTable

end ArtifactGraph
