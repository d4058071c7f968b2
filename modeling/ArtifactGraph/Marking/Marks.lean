import ArtifactGraph.Graph.Registry

set_option autoImplicit false

namespace ArtifactGraph

structure Origin where
  source : Key
  reason : String
deriving DecidableEq

structure Mark where
  node : Node
  origin : Option Origin
deriving DecidableEq

structure Marks where
  made : List Mark := []
deriving DecidableEq

namespace Marks

def size (marks : Marks) : Nat := marks.made.length

def isEmpty (marks : Marks) : Bool := marks.made.isEmpty

def find? (marks : Marks) (key : Key) : Option Mark :=
  marks.made.find? fun mark => mark.node.key == key

def contains (marks : Marks) (key : Key) : Bool := (marks.find? key).isSome

def insert (marks : Marks) (node : Node) (origin : Option Origin) : Marks :=
  if marks.contains node.key then marks else ⟨marks.made ++ [⟨node, origin⟩]⟩

def containsThenInsert (marks : Marks) (node : Node) (origin : Option Origin) : Bool × Marks :=
  (marks.contains node.key, marks.insert node origin)

def get? (marks : Marks) (key : Key) : Option Node := (marks.find? key).map (·.node)

def origin? (marks : Marks) (key : Key) : Option Origin := (marks.find? key).bind (·.origin)

def isRoot (marks : Marks) (key : Key) : Bool :=
  (marks.find? key).any fun mark => mark.origin.isNone

def nodes (marks : Marks) : List Node := marks.made.map (·.node)

def keys (marks : Marks) : List Key := marks.made.map (·.node.key)

def ofRoots (roots : List Node) : Marks :=
  roots.foldl (fun marks root => marks.insert root none) {}

def trail (marks : Marks) : Nat → Key → List Link
  | 0, _ => []
  | limit + 1, key =>
    match marks.origin? key with
    | none => []
    | some origin => ⟨origin.source, key, origin.reason⟩ :: marks.trail limit origin.source

-- Origins inserted by hand may form a cycle. Such a trail is cut when it is one
-- longer than there are marks; a trail that ends is never that long.
def explain (marks : Marks) (key : Key) : List Link := (marks.trail (marks.size + 1) key).reverse

theorem contains_iff_mem (marks : Marks) (key : Key) :
    marks.contains key = true ↔ key ∈ marks.keys := by
  simp [contains, find?, keys]

theorem insert_appends (marks : Marks) (node : Node) (origin : Option Origin)
    (fresh : marks.contains node.key = false) :
    (marks.insert node origin).made = marks.made ++ [⟨node, origin⟩] := by
  simp only [insert, fresh]
  rfl

theorem contains_insert (marks : Marks) (node : Node) (origin : Option Origin) (key : Key) :
    (marks.insert node origin).contains key = (marks.contains key || node.key == key) := by
  cases held : marks.contains node.key with
  | true => by_cases same : node.key = key <;> simp_all [insert]
  | false =>
      have appended := insert_appends marks node origin held
      by_cases same : node.key = key <;>
        simp [contains, find?, appended, List.find?_append, same]

end Marks

end ArtifactGraph
