import ArtifactGraph.Artifact.Fault
import ArtifactGraph.Description.Catalog

set_option autoImplicit false

namespace ArtifactGraph

-- The node of a key in the registry with the number `home`.
structure Node where
  home : Nat
  key : Key
deriving DecidableEq

namespace Catalog

def hasPayload (catalog : Catalog) : Payload → Bool
  | .type id => catalog.hasType id
  | .method id => catalog.hasMethod id
  | .delegate record => catalog.hasMethod record.target

def checkKey (catalog : Catalog) (key : Key) : Except Fault Unit := do
  key.checkFit
  if catalog.hasPayload key.payload then .ok ()
  else .error (.unknownPayload key.kind key.payload)

end Catalog

-- A node as it was made. The serial tells it from whatever else its registry made.
structure Instance where
  node : Node
  serial : Nat
deriving DecidableEq

def shardCount : Nat := 16

-- The digest of a key tells its shard.
structure Site where
  number : Nat
  digest : Key → Nat

-- What stands under a key is a node of that key.
structure Registry extends Site where
  shards : Vector (Index Key Instance) shardCount
  made : Nat
  own : ∀ (place : Fin shardCount) key found, shards[place].get? key = some found →
    found.node = ⟨number, key⟩

namespace Registry

def empty (site : Site) : Registry where
  toSite := site
  shards := .replicate shardCount {}
  made := 0
  own place key found stored := by
    rw [Fin.getElem_fin, Vector.getElem_replicate] at stored
    cases stored

def size (registry : Registry) : Nat := registry.made

def shardOf (registry : Registry) (key : Key) : Fin shardCount :=
  ⟨registry.digest key % shardCount, Nat.mod_lt _ (by decide)⟩

def shard (registry : Registry) (key : Key) : Index Key Instance := registry.shards[registry.shardOf key]

def find? (registry : Registry) (key : Key) : Option Instance := (registry.shard key).get? key

def contains (registry : Registry) (key : Key) : Bool := (registry.find? key).isSome

def lookup (registry : Registry) (key : Key) : Option Node := (registry.find? key).map (·.node)

def keys (registry : Registry) : List Key := registry.shards.toList.flatMap Index.terms

def fresh (registry : Registry) (key : Key) : Instance := ⟨⟨registry.number, key⟩, registry.made⟩

def add (registry : Registry) (key : Key) : Registry where
  toSite := registry.toSite
  shards := registry.shards.set (registry.shardOf key) ((registry.shard key).insert key (registry.fresh key))
  made := registry.made + 1
  own place query found stored := by
    rw [Fin.getElem_fin, Vector.getElem_set] at stored
    split at stored
    · rw [Index.get_insert] at stored
      split at stored
      case isTrue same =>
        obtain rfl := Option.some.inj stored
        rw [same, fresh]
      case isFalse => exact registry.own (registry.shardOf key) query found stored
    · exact registry.own place query found stored

-- The key may have come in while it was checked, so it is looked up again.
def create (registry : Registry) (key : Key) : Instance × Registry :=
  match registry.find? key with
  | some made => (made, registry)
  | none => (registry.fresh key, registry.add key)

-- A key that is held was checked when it came in. Catalogs only grow, so it need
-- not be checked again.
def request (registry : Registry) (catalog : Catalog) (key : Key) : Except Fault Instance × Registry :=
  match registry.find? key with
  | some made => (.ok made, registry)
  | none =>
    match catalog.checkKey key with
    | .error fault => (.error fault, registry)
    | .ok () =>
      let (made, registry) := registry.create key
      (.ok made, registry)

def register (registry : Registry) (catalog : Catalog) (key : Key) : Except Fault Node × Registry :=
  let (answer, registry) := registry.request catalog key
  (answer.map (·.node), registry)

def registerAll (registry : Registry) (catalog : Catalog) :
    List Key → Except Fault Unit × Registry
  | [] => (.ok (), registry)
  | key :: rest =>
    match registry.register catalog key with
    | (.error fault, registry) => (.error fault, registry)
    | (.ok _, registry) => registry.registerAll catalog rest

theorem find_empty (site : Site) (key : Key) : (empty site).find? key = none := by
  simp only [find?, shard, empty, Fin.getElem_fin, Vector.getElem_replicate]
  rfl

theorem find_node (registry : Registry) (key : Key) (found : Instance)
    (stored : registry.find? key = some found) : found.node = ⟨registry.number, key⟩ :=
  registry.own (registry.shardOf key) key found stored

theorem shard_add (registry : Registry) (key query : Key) :
    (registry.add key).shard query =
      if registry.shardOf key = registry.shardOf query then (registry.shard key).insert key (registry.fresh key)
      else registry.shard query := by
  have written : (registry.add key).shard query =
      (registry.shards.set (registry.shardOf key) ((registry.shard key).insert key (registry.fresh key)))[
        registry.shardOf query] := rfl
  rw [written, Fin.getElem_fin, Vector.getElem_set]
  simp only [Fin.ext_iff, shard, Fin.getElem_fin]

theorem find_add (registry : Registry) (key query : Key) :
    (registry.add key).find? query =
      if query = key then some (registry.fresh key) else registry.find? query := by
  rw [find?, shard_add, find?]
  by_cases near : registry.shardOf key = registry.shardOf query
  · have here : registry.shard query = registry.shard key := by simp only [shard, near]
    rw [if_pos near, Index.get_insert, here]
  · have different : query ≠ key := by
      rintro rfl
      exact near rfl
    rw [if_neg near, if_neg different]

end Registry

end ArtifactGraph
