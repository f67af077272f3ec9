import Mathlib
import Stencil.Call.Arguments
import Stencil.Operator.Access
import Stencil.Operator.Binary

/-!
# Properties that values share with their parts

A property of values is hereditary if a collection has it just when all its parts do.  Whatever an
operator or a call makes out of values that have such a property has it too.
-/

namespace Stencil

namespace Value

/-- Whether the value is a null, a boolean, a number or a text. -/
def isScalar : Value → Bool
  | null | bool _ | integer _ | float _ | string _ | safe _ => true
  | _ => false

/-- All scalars have the property, and collections have it if their parts do. -/
structure Hereditary (good : Value → Prop) : Prop where
  scalar : ∀ value : Value, value.isScalar → good value
  list : ∀ items, good (.list items) ↔ ∀ item ∈ items, good item
  map : ∀ entries, good (.map entries) ↔ ∀ entry ∈ entries, good entry.2

end Value

variable {good : Value → Prop}

/-! ## Tables -/

namespace Table

/-- All values of the table have the property. -/
def All (good : Value → Prop) (table : Table Value) : Prop :=
  ∀ entry ∈ table, good entry.2

theorem all_nil : All good [] :=
  fun _ hmem => absurd hmem List.not_mem_nil

variable {table : Table Value}

theorem All.imp {good' : Value → Prop} (hall : All good table)
    (himp : ∀ value, good value → good' value) : All good' table :=
  fun entry hmem => himp _ (hall entry hmem)

/-- What is found in a table is one of its values. -/
theorem All.get? (hall : All good table) {name : String} {value : Value}
    (hget : Table.get? name table = some value) : good value := by
  induction table with
  | nil => cases hget
  | cons entry table ih =>
    obtain ⟨key, first⟩ := entry
    rw [All, List.forall_mem_cons] at hall
    rw [Table.get?] at hget
    split at hget
    · cases hget
      exact hall.1
    · exact ih hall.2 hget

theorem All.insert (hall : All good table) (name : String) {value : Value} (hvalue : good value) :
    All good (Table.insert name value table) := by
  induction table with
  | nil => simpa [Table.insert, All] using hvalue
  | cons entry table ih =>
    obtain ⟨key, first⟩ := entry
    rw [All, List.forall_mem_cons] at hall
    rw [Table.insert]
    split
    · exact List.forall_mem_cons.2 ⟨hvalue, hall.2⟩
    · split
      · exact List.forall_mem_cons.2 ⟨hvalue, List.forall_mem_cons.2 hall⟩
      · exact List.forall_mem_cons.2 ⟨hall.1, ih hall.2⟩

theorem All.insertAll (hall : All good table) {entries : List (String × Value)}
    (hentries : All good entries) : All good (Table.insertAll table entries) := by
  induction entries generalizing table with
  | nil => exact hall
  | cons entry entries ih =>
    rw [All, List.forall_mem_cons] at hentries
    exact ih (hall.insert entry.1 hentries.1) hentries.2

end Table

/-! ## Arguments -/

namespace Arguments

/-- All arguments have the property. -/
structure All (good : Value → Prop) (arguments : Arguments) : Prop where
  positional : ∀ value ∈ arguments.positional, good value
  named : Table.All good arguments.named

theorem all_empty : All good {} :=
  ⟨fun _ hmem => absurd hmem List.not_mem_nil, Table.all_nil⟩

variable {arguments : Arguments}

theorem All.addPositional (hall : arguments.All good) {values : List Value}
    (hvalues : ∀ value ∈ values, good value) : (arguments.addPositional values).All good :=
  ⟨List.forall_mem_append.2 ⟨hall.positional, hvalues⟩, hall.named⟩

theorem All.addNamed (hall : arguments.All good) {entries : List (String × Value)}
    (hentries : Table.All good entries) : (arguments.addNamed entries).All good :=
  ⟨hall.positional, hall.named.insertAll hentries⟩

end Arguments

namespace Signature

variable {signature : Signature Value} {arguments : Arguments}

/-- Parameters are filled with defaults and arguments alone. -/
theorem all_fill (hdefaults : Table.All good signature.defaulted) (hall : arguments.All good) :
    Table.All good (signature.fill arguments) := by
  have hdefaulted : Table.All good (Table.ofList signature.defaulted) :=
    Table.all_nil.insertAll hdefaults
  have hpositional : Table.All good (bindPositional signature.parameters arguments.positional
      (Table.ofList signature.defaulted)) :=
    hdefaulted.insertAll fun entry hmem => hall.positional _ (List.of_mem_zip hmem).2
  refine hpositional.insertAll fun entry hmem => hall.named entry ?_
  rw [splitNamed, List.partition_eq_filter_filter] at hmem
  exact List.mem_of_mem_filter hmem

/-- The bindings of a call have a property that the arguments and the defaults have. -/
theorem all_bind (hgood : Value.Hereditary good) {bound : Table Value}
    (hdefaults : Table.All good signature.defaulted) (hall : arguments.All good)
    (hbind : signature.bind arguments = .ok bound) : Table.All good bound := by
  have hfill := all_fill hdefaults hall
  have hsurplus : good (.list (arguments.positional.drop signature.parameters.length)) :=
    (hgood.list _).2 fun value hmem => hall.positional value (List.mem_of_mem_drop hmem)
  have hunknown : good (.map (splitNamed signature.parameters arguments.named).2) := by
    refine (hgood.map _).2 fun entry hmem => hall.named entry ?_
    rw [splitNamed, List.partition_eq_filter_filter] at hmem
    exact List.mem_of_mem_filter hmem
  unfold bind at hbind
  dsimp only at hbind
  split at hbind
  · cases hbind
  · split at hbind
    · cases hbind
    · split at hbind
      · cases hbind
      · cases hbind
        unfold addSurplus
        dsimp only
        split
        · split
          · exact (hfill.insert _ hsurplus).insert _ hunknown
          · exact hfill.insert _ hunknown
        · split
          · exact hfill.insert _ hsurplus
          · exact hfill

end Signature

/-! ## Operators -/

namespace Operator

variable {value key left right result : Value}

/-- A subscript yields an element of the sequence. -/
theorem mem_of_elementAt? {α : Type} {items : List α} {position : Int64} {item : α}
    (helement : elementAt? items position = some item) : item ∈ items := by
  rw [elementAt?_eq_bind] at helement
  obtain ⟨place, -, hplace⟩ := Option.bind_eq_some_iff.1 helement
  exact List.mem_of_getElem? hplace

/-- A slice has elements of the sequence alone. -/
theorem mem_of_between {α : Type} {items : List α} {start stop : Option Int64} {item : α}
    (hitem : item ∈ between items start stop) : item ∈ items := by
  rw [between_eq] at hitem
  exact List.mem_of_mem_take (List.mem_of_mem_drop hitem)

/-- Repetition brings in no new elements. -/
theorem mem_of_repeated {α : Type} {items items' : List α} {times : Int64} {item : α}
    (hrepeated : repeated items times = .ok items') (hitem : item ∈ items') : item ∈ items := by
  unfold repeated at hrepeated
  dsimp only at hrepeated
  split at hrepeated
  · cases hrepeated
    split at hitem
    · cases hitem
    · obtain ⟨copy, hcopy, hitem⟩ := List.mem_flatten.1 hitem
      rwa [List.eq_of_mem_replicate hcopy] at hitem
  · cases hrepeated

theorem exists_of_map_eq_ok {ε α β : Type} {f : α → β} {outcome : Except ε α} {value : β}
    (hmap : outcome.map f = .ok value) : ∃ first, outcome = .ok first ∧ f first = value := by
  cases outcome with
  | error fault => cases hmap
  | ok first =>
    cases hmap
    exact ⟨first, rfl, rfl⟩

/-- Arithmetic on numbers yields numbers, so no operator can make a collection of them. -/
theorem isScalar_fitting {op : BinaryOp} {number? : Option Int64}
    (hresult : fitting op number? = .ok result) : result.isScalar := by
  unfold fitting at hresult
  split at hresult
  · cases hresult
    rfl
  · cases hresult

theorem isScalar_integerPower {base exponent : Int64}
    (hresult : integerPower base exponent = .ok result) : result.isScalar := by
  unfold integerPower at hresult
  split at hresult
  · exact isScalar_fitting hresult
  · cases hresult
    rfl

theorem isScalar_integerArithmetic {op : BinaryOp} {first second : Int64}
    (hresult : integerArithmetic op first second = .ok result) : result.isScalar := by
  unfold integerArithmetic at hresult
  split at hresult
  · cases hresult
  · split at hresult
    · exact isScalar_fitting hresult
    · exact isScalar_fitting hresult
    · exact isScalar_fitting hresult
    · cases hresult
      rfl
    · exact isScalar_fitting hresult
    · exact isScalar_fitting hresult
    · exact isScalar_integerPower hresult

theorem isScalar_floatArithmetic {op : BinaryOp} {first second : Float}
    (hresult : floatArithmetic op first second = .ok result) : result.isScalar := by
  unfold floatArithmetic at hresult
  split at hresult
  · cases hresult
  · cases hresult
    rfl

theorem isScalar_applySign {sign : Sign} (hresult : applySign sign value = .ok result) :
    result.isScalar := by
  unfold applySign at hresult
  split at hresult
  · split at hresult
    · cases hresult
      rfl
    · cases hresult
  · cases hresult
    rfl
  · cases hresult
    rfl
  · cases hresult
    rfl
  · cases hresult

end Operator

namespace Value.Hereditary

open Operator

variable {value key left right result : Value} (hgood : Hereditary good)
include hgood

theorem getD_null {value? : Option Value} (hvalue : ∀ value ∈ value?, good value) :
    good (value?.getD .null) := by
  cases value? with
  | none => exact hgood.scalar _ rfl
  | some value => exact hvalue value rfl

/-- A subscript of a collection is a part of it, and of a text it is a text. -/
theorem subscript (hvalue : good value) (hresult : Operator.subscript value key = .ok result) :
    good result := by
  have hchar (text : String) (position : Int64) :
      good (((elementAt? text.toList position).map fun char =>
        .string (String.singleton char)).getD .null) := by
    refine hgood.getD_null fun item hitem => ?_
    obtain ⟨char, -, rfl⟩ := Option.map_eq_some_iff.1 hitem
    exact hgood.scalar _ rfl
  unfold Operator.subscript at hresult
  split at hresult
  · cases hresult
    exact hgood.scalar _ rfl
  · split at hresult
    · cases hresult
      exact hgood.getD_null fun item hitem =>
        (hgood.list _).1 hvalue item (mem_of_elementAt? hitem)
    · cases hresult
  · split at hresult
    · cases hresult
      exact hchar _ _
    · cases hresult
  · split at hresult
    · cases hresult
      exact hchar _ _
    · cases hresult
  · cases hresult
    exact hgood.getD_null fun item hitem => Table.All.get? ((hgood.map _).1 hvalue) hitem
  · cases hresult

theorem select {selector : Selector} (hvalue : good value)
    (hresult : Operator.select value selector = .ok result) : good result := by
  unfold Operator.select at hresult
  split at hresult
  · split at hresult
    · cases hresult
      exact hgood.getD_null fun item hitem => Table.All.get? ((hgood.map _).1 hvalue) hitem
    · cases hresult
      exact hgood.scalar _ rfl
  · split at hresult
    · exact hgood.subscript hvalue hresult
    · cases hresult
      exact hgood.scalar _ rfl

/-- The parts of a slice are parts of the whole. -/
theorem slice {start stop : Option Value} (hvalue : good value)
    (hresult : Operator.slice value start stop = .ok result) : good result := by
  unfold Operator.slice at hresult
  cases hstart : sliceBound start with
  | error fault =>
    rw [hstart] at hresult
    cases hresult
  | ok first =>
    cases hstop : sliceBound stop with
    | error fault =>
      rw [hstart, hstop] at hresult
      cases hresult
    | ok last =>
      rw [hstart, hstop] at hresult
      simp only [bind, Except.bind] at hresult
      split at hresult
      · cases hresult
        exact (hgood.list _).2 fun item hitem =>
          (hgood.list _).1 hvalue item (mem_of_between hitem)
      · cases hresult
        exact hgood.scalar _ rfl
      · cases hresult
        exact hgood.scalar _ rfl
      · cases hresult
        exact hgood.scalar _ rfl
      · cases hresult

theorem repetition? {times : Int64} (hvalue : good value)
    (hresult : Operator.repetition? value times = some (.ok result)) : good result := by
  unfold Operator.repetition? at hresult
  split at hresult
  · obtain ⟨items', hrepeated, rfl⟩ := exists_of_map_eq_ok (Option.some.inj hresult)
    exact (hgood.list _).2 fun item hitem =>
      (hgood.list _).1 hvalue item (mem_of_repeated hrepeated hitem)
  · obtain ⟨chars, -, rfl⟩ := exists_of_map_eq_ok (Option.some.inj hresult)
    exact hgood.scalar _ rfl
  · obtain ⟨chars, -, rfl⟩ := exists_of_map_eq_ok (Option.some.inj hresult)
    exact hgood.scalar _ rfl
  · cases hresult

/-- The parts of a sum of lists are those of its two operands. -/
theorem sequenceArithmetic? {op : BinaryOp} (hleft : good left) (hright : good right)
    (hresult : Operator.sequenceArithmetic? op left right = some (.ok result)) : good result := by
  unfold Operator.sequenceArithmetic? at hresult
  split at hresult
  · split at hresult
    · cases hresult
      exact (hgood.list _).2
        (List.forall_mem_append.2 ⟨(hgood.list _).1 hleft, (hgood.list _).1 hright⟩)
    · split at hresult
      · cases hresult
        exact hgood.scalar _ rfl
      · cases hresult
  · split at hresult
    · exact hgood.repetition? hleft hresult
    · exact hgood.repetition? hright hresult
    · cases hresult
  · cases hresult

theorem arithmetic {op : BinaryOp} (hleft : good left) (hright : good right)
    (hresult : Operator.arithmetic op left right = .ok result) : good result := by
  unfold Operator.arithmetic at hresult
  split at hresult
  · exact hgood.scalar _ (isScalar_integerArithmetic hresult)
  · split at hresult
    · exact hgood.scalar _ (isScalar_floatArithmetic hresult)
    · cases hsequence : Operator.sequenceArithmetic? op left right with
      | none =>
        rw [hsequence] at hresult
        cases hresult
      | some outcome =>
        rw [hsequence] at hresult
        have houtcome : outcome = .ok result := hresult
        exact hgood.sequenceArithmetic? hleft hright (houtcome ▸ hsequence)

/-- Whatever an operator makes of two values with the property has it, comparisons included. -/
theorem binary {op : BinaryOp} (hleft : good left) (hright : good right)
    (hresult : Operator.binary op left right = .ok result) : good result := by
  cases op with
  | eq | ne | concat =>
    cases hresult
    exact hgood.scalar _ rfl
  | gt | gteq | lt | lteq | mem =>
    obtain ⟨verdict, -, rfl⟩ := exists_of_map_eq_ok hresult
    exact hgood.scalar _ rfl
  | or | and => cases hresult
  | _ => exact hgood.arithmetic hleft hright hresult

theorem applySign {sign : Sign} (hresult : Operator.applySign sign value = .ok result) :
    good result :=
  hgood.scalar _ (isScalar_applySign hresult)

end Value.Hereditary

end Stencil
