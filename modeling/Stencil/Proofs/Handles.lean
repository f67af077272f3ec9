import Stencil.Proofs.Parts

/-!
# The macros in a value

A value holds macros as items, as entries, and as the defaults of another macro.  Nothing that an
operator or a call makes out of values holds a macro which was not in one of them.
-/

namespace Stencil

namespace Value

mutual

/-- The scopes of all macros that a value holds. -/
def handles : Value → List ScopeHandle
  | list items => handlesOfItems items
  | map entries => handlesOfEntries entries
  | procedure _ _ ⟨_, defaulted, _, _⟩ scope => scope :: handlesOfEntries defaulted
  | _ => []

def handlesOfItems : List Value → List ScopeHandle
  | [] => []
  | item :: items => item.handles ++ handlesOfItems items

def handlesOfEntries : List (String × Value) → List ScopeHandle
  | [] => []
  | (_, value) :: entries => value.handles ++ handlesOfEntries entries

end

variable {Holds Holds' : ScopeHandle → Prop}

/-- All macros that the value holds have a scope of this kind. -/
def Within (Holds : ScopeHandle → Prop) (value : Value) : Prop :=
  ∀ handle ∈ value.handles, Holds handle

theorem Within.imp {value : Value} (hwithin : value.Within Holds)
    (himp : ∀ handle, Holds handle → Holds' handle) : value.Within Holds' :=
  fun handle hmem => himp handle (hwithin handle hmem)

theorem forall_mem_handlesOfItems {items : List Value} :
    (∀ handle ∈ handlesOfItems items, Holds handle) ↔ ∀ item ∈ items, item.Within Holds := by
  induction items with
  | nil => simp [handlesOfItems]
  | cons item items ih =>
    rw [handlesOfItems, List.forall_mem_append, ih, List.forall_mem_cons]
    rfl

theorem forall_mem_handlesOfEntries {entries : List (String × Value)} :
    (∀ handle ∈ handlesOfEntries entries, Holds handle) ↔
      ∀ entry ∈ entries, entry.2.Within Holds := by
  induction entries with
  | nil => simp [handlesOfEntries]
  | cons entry entries ih =>
    rw [handlesOfEntries, List.forall_mem_append, ih, List.forall_mem_cons]
    rfl

@[simp]
theorem within_list {items : List Value} :
    (list items).Within Holds ↔ ∀ item ∈ items, item.Within Holds :=
  forall_mem_handlesOfItems

@[simp]
theorem within_map {entries : List (String × Value)} :
    (map entries).Within Holds ↔ ∀ entry ∈ entries, entry.2.Within Holds :=
  forall_mem_handlesOfEntries

/-- A macro holds the handle of its own scope and those of its defaults. -/
@[simp]
theorem within_procedure {identity : Nat} {definition : Macro Token} {signature : Signature Value}
    {scope : ScopeHandle} : (procedure identity definition signature scope).Within Holds ↔
      Holds scope ∧ ∀ entry ∈ signature.defaulted, entry.2.Within Holds := by
  rw [Within, handles, List.forall_mem_cons, forall_mem_handlesOfEntries]

/-- Whether the value is neither a collection nor a macro. -/
def isPlain : Value → Bool
  | list _ | map _ | procedure _ _ _ _ => false
  | _ => true

/-- Values that hold neither macros nor other values hold no handles. -/
theorem within_of_isPlain {value : Value} (hplain : value.isPlain) : value.Within Holds := by
  cases value with
  | list | map | procedure => cases hplain
  | _ => simp [Within, handles]

/-- A collection holds the handles that its parts hold. -/
theorem hereditary_within : Hereditary (Within Holds) where
  scalar value hscalar := by
    cases value with
    | list | map | function | procedure | error => cases hscalar
    | _ => exact within_of_isPlain rfl
  list _ := within_list
  map _ := within_map

end Value

open Value

variable {Holds Holds' : ScopeHandle → Prop}

/-! ## Tables -/

namespace Table

/-- All macros in the table have a scope of this kind. -/
def Within (Holds : ScopeHandle → Prop) (table : Table Value) : Prop :=
  ∀ entry ∈ table, entry.2.Within Holds

theorem within_nil : Within Holds [] :=
  all_nil

variable {table : Table Value}

theorem Within.imp (hwithin : Within Holds table)
    (himp : ∀ handle, Holds handle → Holds' handle) : Within Holds' table :=
  All.imp hwithin fun _ hvalue => hvalue.imp himp

theorem Within.insert (hwithin : Within Holds table) (name : String) {value : Value}
    (hvalue : value.Within Holds) : Within Holds (Table.insert name value table) :=
  All.insert hwithin name hvalue

theorem Within.insertAll (hwithin : Within Holds table) {entries : List (String × Value)}
    (hentries : ∀ entry ∈ entries, entry.2.Within Holds) :
    Within Holds (Table.insertAll table entries) :=
  All.insertAll hwithin hentries

end Table

/-! ## Arguments -/

namespace Arguments

/-- All macros among the arguments have a scope of this kind. -/
structure Within (Holds : ScopeHandle → Prop) (arguments : Arguments) : Prop where
  positional : ∀ value ∈ arguments.positional, value.Within Holds
  named : Table.Within Holds arguments.named

theorem within_iff_all {arguments : Arguments} :
    arguments.Within Holds ↔ arguments.All (Value.Within Holds) :=
  ⟨fun hwithin => ⟨hwithin.positional, hwithin.named⟩, fun hall => ⟨hall.positional, hall.named⟩⟩

theorem within_empty : Within Holds {} :=
  within_iff_all.2 all_empty

end Arguments

/-- The bindings of a call hold no other macros than the arguments and the defaults. -/
theorem Signature.within_bind {signature : Signature Value} {arguments : Arguments}
    {bound : Table Value} (hdefaults : ∀ entry ∈ signature.defaulted, entry.2.Within Holds)
    (hwithin : arguments.Within Holds) (hbind : signature.bind arguments = .ok bound) :
    Table.Within Holds bound :=
  all_bind hereditary_within hdefaults (Arguments.within_iff_all.1 hwithin) hbind

end Stencil
