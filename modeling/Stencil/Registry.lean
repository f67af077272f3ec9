import Stencil.Failure
import Stencil.Table

/-!
# Registries

Named entries of one kind.  Registering refuses a name that is taken, replacing one that is not.
-/

namespace Stencil

structure Registry (Entry : Type) where
  kind : RegistryKind
  entries : Table Entry

namespace Registry

variable {Entry : Type}

def empty (kind : RegistryKind) : Registry Entry :=
  ⟨kind, []⟩

def get? (registry : Registry Entry) (name : String) : Option Entry :=
  Table.get? name registry.entries

def exists? (registry : Registry Entry) (name : String) : Bool :=
  Table.contains name registry.entries

/-- The registered names in ascending order. -/
def names (registry : Registry Entry) : List String :=
  Table.names registry.entries

def insert (registry : Registry Entry) (name : String) (entry : Entry) : Registry Entry :=
  { registry with entries := Table.insert name entry registry.entries }

def register (registry : Registry Entry) (name : String) (entry : Entry) :
    Except Failure (Registry Entry) :=
  if registry.exists? name then
    .error (.registry registry.kind name .alreadyExists)
  else
    .ok (registry.insert name entry)

def replace (registry : Registry Entry) (name : String) (entry : Entry) :
    Except Failure (Registry Entry) :=
  if registry.exists? name then
    .ok (registry.insert name entry)
  else
    .error (.registry registry.kind name .doesNotExist)

/-- A registry is shown by its kind and its names. -/
def describe (registry : Registry Entry) : String :=
  let names := registry.names.map Text.quoted
  "Registry \x7b kind: " ++ Text.quoted registry.kind.label ++ ", names: [" ++
    String.intercalate ", " names ++ "] \x7d"

end Registry

end Stencil
