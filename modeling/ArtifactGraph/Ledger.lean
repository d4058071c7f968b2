import ArtifactGraph.Index

set_option autoImplicit false

namespace ArtifactGraph

-- The one position that is never handed out.
def nullPosition : Nat := 4294967295

theorem stored_concat {Entry : Type} (entries : List Entry) (position : Nat) (entry query : Entry) :
    (entries ++ [entry])[position]? = some query ↔
      (position = entries.length ∧ query = entry) ∨ entries[position]? = some query := by
  rcases Nat.lt_trichotomy position entries.length with before | rfl | behind
  · simp [List.getElem?_append_left before, Nat.ne_of_lt before]
  · simp [eq_comm]
  · have outside : (entries ++ [entry])[position]? = none := List.getElem?_eq_none (by simpa using Nat.succ_le_of_lt behind)
    simp [outside, Nat.le_of_lt behind, Nat.ne_of_gt behind]

structure Ledger (Entry : Type) where
  places : Index Entry Nat := {}
  entries : List Entry := []
deriving DecidableEq

namespace Ledger

variable {Entry : Type}

def size (ledger : Ledger Entry) : Nat := ledger.entries.length

def get? (ledger : Ledger Entry) (position : Nat) : Option Entry := ledger.entries[position]?

def push (ledger : Ledger Entry) (entry : Entry) : Ledger Entry :=
  ⟨ledger.places.insert entry ledger.size, ledger.entries ++ [entry]⟩

theorem size_push (ledger : Ledger Entry) (entry : Entry) :
    (ledger.push entry).size = ledger.size + 1 := by
  simp [push, size]

theorem get_push (ledger : Ledger Entry) (position : Nat) (entry query : Entry) :
    (ledger.push entry).get? position = some query ↔
      (position = ledger.size ∧ query = entry) ∨ ledger.get? position = some query :=
  stored_concat ledger.entries position entry query

theorem get_push_here (ledger : Ledger Entry) (entry : Entry) :
    (ledger.push entry).get? ledger.size = some entry :=
  (ledger.get_push ledger.size entry entry).mpr (.inl ⟨rfl, rfl⟩)

theorem get_bound (ledger : Ledger Entry) (position : Nat) :
    (ledger.get? position).isSome ↔ position < ledger.size := by
  simp [get?, size]

variable [DecidableEq Entry]

def find? (ledger : Ledger Entry) (entry : Entry) : Option Nat := ledger.places.get? entry

-- Somebody else may have put the entry in since it was last looked for, so it is
-- looked for again. A table that is full is told with its size.
def insert (ledger : Ledger Entry) (entry : Entry) : Except Nat Nat × Ledger Entry :=
  match ledger.find? entry with
  | some position => (.ok position, ledger)
  | none =>
    if ledger.size < nullPosition then (.ok ledger.size, ledger.push entry)
    else (.error ledger.size, ledger)

theorem find_push (ledger : Ledger Entry) (entry query : Entry) :
    (ledger.push entry).find? query = if query = entry then some ledger.size else ledger.find? query :=
  ledger.places.get_insert entry query ledger.size

end Ledger

end ArtifactGraph
