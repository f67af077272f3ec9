/-!
# Tables

Finite maps from names, kept as their entries in ascending order of the names.  Names are compared
by code points.
-/

namespace Stencil

abbrev Table (α : Type) := List (String × α)

namespace Table

variable {α : Type}

def get? (name : String) : Table α → Option α
  | [] => none
  | (key, value) :: rest => if key = name then some value else get? name rest

def contains (name : String) (table : Table α) : Bool :=
  (get? name table).isSome

def names (table : Table α) : List String :=
  table.map Prod.fst

/-- Binds a name, in place of the binding it may have. -/
def insert (name : String) (value : α) : Table α → Table α
  | [] => [(name, value)]
  | (key, old) :: rest =>
    if key = name then (name, value) :: rest
    else if name < key then (name, value) :: (key, old) :: rest
    else (key, old) :: insert name value rest

/-- Binds all names of a list, one after the other. -/
def insertAll (table : Table α) (entries : List (String × α)) : Table α :=
  entries.foldl (fun table (name, value) => insert name value table) table

/-- The table of some bindings in any order; the last binding of a name counts. -/
def ofList (entries : List (String × α)) : Table α :=
  insertAll [] entries

@[simp]
theorem get?_nil (name : String) : get? name ([] : Table α) = none := rfl

theorem get?_insert_self (name : String) (value : α) (table : Table α) :
    get? name (insert name value table) = some value := by
  induction table with
  | nil => simp [insert, get?]
  | cons entry rest ih =>
    obtain ⟨key, old⟩ := entry
    by_cases hkey : key = name
    · simp [insert, get?, hkey]
    · by_cases hlt : name < key
      · simp [insert, get?, hkey, hlt]
      · simp [insert, get?, hkey, hlt, ih]

theorem get?_insert_of_ne {name other : String} (hne : other ≠ name) (value : α)
    (table : Table α) : get? other (insert name value table) = get? other table := by
  induction table with
  | nil => simp [insert, get?, hne.symm]
  | cons entry rest ih =>
    obtain ⟨key, old⟩ := entry
    by_cases hkey : key = name
    · subst hkey
      simp [insert, get?, hne.symm]
    · by_cases hlt : name < key
      · simp [insert, get?, hkey, hlt, hne.symm]
      · simp [insert, get?, hkey, hlt, ih]

theorem get?_insert (name other : String) (value : α) (table : Table α) :
    get? other (insert name value table) =
      if other = name then some value else get? other table := by
  by_cases hname : other = name
  · subst hname
    simp [get?_insert_self]
  · simp [hname, get?_insert_of_ne hname]

end Table

end Stencil
