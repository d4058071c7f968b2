set_option autoImplicit false

namespace ArtifactGraph

structure Index (Term Value : Type) where
  written : List (Term × Value) := []
deriving DecidableEq

namespace Index

variable {Term Value : Type}

def insert (index : Index Term Value) (term : Term) (value : Value) : Index Term Value :=
  ⟨(term, value) :: index.written⟩

def terms (index : Index Term Value) : List Term := index.written.map Prod.fst

variable [DecidableEq Term]

def get? (index : Index Term Value) (term : Term) : Option Value := index.written.lookup term

theorem get_insert (index : Index Term Value) (term query : Term) (value : Value) :
    (index.insert term value).get? query = if query = term then some value else index.get? query := by
  by_cases same : query = term
  · simp [insert, get?, same]
  · have miss : (query == term) = false := beq_false_of_ne same
    simp [insert, get?, same, List.lookup_cons, miss]

theorem get_mem (index : Index Term Value) (term : Term) (value : Value)
    (found : index.get? term = some value) : term ∈ index.terms := by
  obtain ⟨before, after, split, _⟩ := List.lookup_eq_some_iff.mp found
  simp [terms, split]

end Index

end ArtifactGraph
