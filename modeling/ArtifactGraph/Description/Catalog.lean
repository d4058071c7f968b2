import ArtifactGraph.Description.Method

set_option autoImplicit false

namespace ArtifactGraph

inductive CatalogError where
  | unknownPart (id : TypeId)
  | badRank (rank : Nat)
  | unnamed
  | full (size : Nat)
deriving DecidableEq

def CatalogError.message : CatalogError → String
  | .unknownPart id => "unknown type descriptor " ++ id.text
  | .badRank rank => s!"array rank must be at least 1, found {rank}"
  | .unnamed => "descriptor name must not be empty"
  | .full size => s!"descriptor table exceeded capacity: {size} entries"

def TypeForm.defect? : TypeForm → Option CatalogError
  | .named _ name _ => if name.isEmpty then some .unnamed else none
  | .array _ rank => if rank = 0 then some (.badRank rank) else none
  | _ => none

def MethodForm.defect? (form : MethodForm) : Option CatalogError :=
  if form.name.isEmpty then some .unnamed else none

structure Catalog where
  types : Ledger TypeForm := {}
  methods : Ledger MethodForm := {}
deriving DecidableEq

namespace Catalog

def type? (catalog : Catalog) (id : TypeId) : Option TypeForm := catalog.types.get? id.position

def method? (catalog : Catalog) (id : MethodId) : Option MethodForm :=
  catalog.methods.get? id.position

def traits? (catalog : Catalog) (id : MethodId) : Option MethodTraits :=
  (catalog.method? id).map (·.traits)

def hasType (catalog : Catalog) (id : TypeId) : Bool :=
  id.isValid && id.position < catalog.types.size

def hasMethod (catalog : Catalog) (id : MethodId) : Bool :=
  id.isValid && id.position < catalog.methods.size

def unknownPart? (catalog : Catalog) (parts : List TypeId) : Option CatalogError :=
  (parts.find? fun id => !catalog.hasType id).map .unknownPart

def typeError? (catalog : Catalog) (form : TypeForm) : Option CatalogError :=
  form.defect?.or (catalog.unknownPart? form.parts)

def methodError? (catalog : Catalog) (form : MethodForm) : Option CatalogError :=
  form.defect?.or (catalog.unknownPart? form.parts)

def describeType (catalog : Catalog) (form : TypeForm) :
    Except CatalogError TypeId × Catalog :=
  match catalog.types.find? form with
  | some position => (.ok ⟨position⟩, catalog)
  | none =>
    match catalog.typeError? form with
    | some error => (.error error, catalog)
    | none =>
      match catalog.types.insert form with
      | (.ok position, types) => (.ok ⟨position⟩, { catalog with types })
      | (.error size, types) => (.error (.full size), { catalog with types })

def describeMethod (catalog : Catalog) (form : MethodForm) :
    Except CatalogError MethodId × Catalog :=
  match catalog.methods.find? form with
  | some position => (.ok ⟨position⟩, catalog)
  | none =>
    match catalog.methodError? form with
    | some error => (.error error, catalog)
    | none =>
      match catalog.methods.insert form with
      | (.ok position, methods) => (.ok ⟨position⟩, { catalog with methods })
      | (.error size, methods) => (.error (.full size), { catalog with methods })

end Catalog

end ArtifactGraph
