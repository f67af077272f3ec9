import Stencil.Call.Arguments
import Stencil.Proofs.Table

/-!
# Binding of arguments

A call that fits a signature binds every parameter: to its named argument, else to the positional
one that falls on it, else to its default.  What is left over is bound last, under the two names
that are kept for it.
-/

namespace Stencil

namespace Signature

variable {signature : Signature Value} {arguments : Arguments} {bound : Table Value}
  {index : Nat} {name : String}

/-- The argument for the parameter of a name at a position, or else its default. -/
def valueFor? (signature : Signature Value) (arguments : Arguments) (index : Nat) (name : String) :
    Option Value :=
  (arguments.getNamed? name).or ((arguments.get? index).or (Table.get? name signature.defaulted))

/-- The arguments that are left over behind those for the parameters. -/
def surplus (signature : Signature Value) (arguments : Arguments) : List Value :=
  arguments.positional.drop signature.parameters.length

/-- The named arguments that are for no parameter. -/
def unknown (signature : Signature Value) (arguments : Arguments) : Table Value :=
  (splitNamed signature.parameters arguments.named).2

theorem ordered_fill : (signature.fill arguments).Ordered :=
  ((Table.ordered_ofList _).insertAll _).insertAll _

theorem ordered_addSurplus (hordered : bound.Ordered) :
    (signature.addSurplus arguments bound).Ordered := by
  unfold addSurplus
  dsimp only
  split
  · split
    · exact (hordered.insert _ _).insert _ _
    · exact hordered.insert _ _
  · split
    · exact hordered.insert _ _
    · exact hordered

/-- Arguments fit if all parameters have values; the surplus comes on top of these. -/
theorem bind_eq_ok (hbind : signature.bind arguments = .ok bound) :
    bound = signature.addSurplus arguments (signature.fill arguments) ∧
      ∀ parameter ∈ signature.parameters, Table.contains parameter (signature.fill arguments) := by
  unfold bind at hbind
  dsimp only at hbind
  split at hbind
  · cases hbind
  · split at hbind
    · cases hbind
    · split at hbind
      · cases hbind
      · next hfound =>
        cases hbind
        exact ⟨rfl, by simpa using List.find?_eq_none.1 hfound⟩

theorem ordered_bind (hbind : signature.bind arguments = .ok bound) : bound.Ordered :=
  (bind_eq_ok hbind).1 ▸ ordered_addSurplus ordered_fill

theorem get?_fill (hdistinct : signature.parameters.Nodup) (hnamed : arguments.named.Ordered)
    (hname : signature.parameters[index]? = some name) :
    Table.get? name (signature.fill arguments) = signature.valueFor? arguments index name := by
  have hmem : name ∈ signature.parameters := List.mem_of_getElem? hname
  have hdefaulted : (Table.names signature.defaulted).Nodup := (List.nodup_append.1 hdistinct).2.1
  have hpositional :
      (Table.names (signature.parameters.zip arguments.positional)).Nodup :=
    hdistinct.sublist (Table.names_zip_sublist _ _)
  have hknown : (splitNamed signature.parameters arguments.named).1 =
      List.filter (fun entry => decide (entry.1 ∈ signature.parameters)) arguments.named := by
    rw [splitNamed, List.partition_eq_filter_filter]
  rw [fill, hknown, Table.get?_insertAll (hnamed.filter _).nodup_names, bindPositional,
    Table.get?_insertAll hpositional, Table.get?_ofList hdefaulted, Table.get?_zip hdistinct hname,
    Table.get?_filter_of_keeps fun _ => decide_eq_true hmem]
  rfl

/-! ## The surplus -/

theorem get?_addSurplus_of_accepts_positional (haccepts : signature.acceptsPositional) :
    Table.get? surplusPositional (signature.addSurplus arguments bound) =
      some (.list (signature.surplus arguments)) := by
  have hne : surplusPositional ≠ surplusNamed := by decide
  unfold addSurplus
  dsimp only
  rw [if_pos haccepts]
  split
  · rw [Table.get?_insert_of_ne hne, Table.get?_insert_self]
    rfl
  · rw [Table.get?_insert_self]
    rfl

theorem get?_addSurplus_of_accepts_named (haccepts : signature.acceptsNamed) :
    Table.get? surplusNamed (signature.addSurplus arguments bound) =
      some (.map (signature.unknown arguments)) := by
  unfold addSurplus
  dsimp only
  rw [if_pos haccepts, Table.get?_insert_self]
  rfl

/-- The name under which a signature binds what is left over of the arguments. -/
def Collects (signature : Signature Value) (name : String) : Prop :=
  (name = surplusPositional ∧ signature.acceptsPositional) ∨
    (name = surplusNamed ∧ signature.acceptsNamed)

theorem get?_addSurplus (hname : ¬ signature.Collects name) :
    Table.get? name (signature.addSurplus arguments bound) = Table.get? name bound := by
  obtain ⟨hpositional, hnamed⟩ := not_or.1 hname
  unfold addSurplus
  dsimp only
  split
  · next haccepts =>
    rw [Table.get?_insert_of_ne fun heq => hnamed ⟨heq, haccepts⟩]
    split
    · next haccepts => rw [Table.get?_insert_of_ne fun heq => hpositional ⟨heq, haccepts⟩]
    · rfl
  · split
    · next haccepts => rw [Table.get?_insert_of_ne fun heq => hpositional ⟨heq, haccepts⟩]
    · rfl

/-! ## Every parameter -/

/-- What a call binds to the parameter of a name at a position. -/
inductive Delivers (signature : Signature Value) (arguments : Arguments) (index : Nat) :
    String → Value → Prop where
  | value {name value} : ¬ signature.Collects name →
      signature.valueFor? arguments index name = some value →
      Delivers signature arguments index name value
  | surplus : signature.acceptsPositional →
      Delivers signature arguments index surplusPositional (.list (signature.surplus arguments))
  | unknown : signature.acceptsNamed →
      Delivers signature arguments index surplusNamed (.map (signature.unknown arguments))

/-- Only the names that are kept for surplus arguments are bound to anything else. -/
theorem Delivers.valueFor?_eq {value : Value}
    (hdelivers : signature.Delivers arguments index name value)
    (hname : ¬ signature.Collects name) :
    signature.valueFor? arguments index name = some value := by
  cases hdelivers with
  | value _ hvalue => exact hvalue
  | surplus haccepts => exact absurd (.inl ⟨rfl, haccepts⟩) hname
  | unknown haccepts => exact absurd (.inr ⟨rfl, haccepts⟩) hname

theorem exists_delivers_of_bind (hdistinct : signature.parameters.Nodup)
    (hnamed : arguments.named.Ordered) (hbind : signature.bind arguments = .ok bound)
    (hname : signature.parameters[index]? = some name) :
    ∃ value, Table.get? name bound = some value ∧
      signature.Delivers arguments index name value := by
  obtain ⟨rfl, hcontains⟩ := bind_eq_ok hbind
  by_cases hcollects : signature.Collects name
  · rcases hcollects with ⟨rfl, haccepts⟩ | ⟨rfl, haccepts⟩
    · exact ⟨_, get?_addSurplus_of_accepts_positional haccepts, .surplus haccepts⟩
    · exact ⟨_, get?_addSurplus_of_accepts_named haccepts, .unknown haccepts⟩
  · obtain ⟨value, hvalue⟩ :=
      Option.isSome_iff_exists.1 (hcontains name (List.mem_of_getElem? hname))
    refine ⟨value, (get?_addSurplus hcollects).trans hvalue, .value hcollects ?_⟩
    rw [← get?_fill hdistinct hnamed hname, hvalue]

end Signature

end Stencil
