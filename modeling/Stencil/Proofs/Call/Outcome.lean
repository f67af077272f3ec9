import Stencil.Proofs.Call.Binding

/-!
# What becomes of a call

A call is refused for its surplus positional arguments, for a name that is no parameter, or for a
parameter without a value, in this order.  Any other call binds its parameters, and what is left
over of its arguments is collected as it is.  Parameters may share a name, also with a collection.
-/

namespace Stencil

namespace Signature

variable {signature : Signature Value} {arguments : Arguments} {name : String}

/-! ## Named arguments for no parameter -/

theorem unknown_eq_filter :
    signature.unknown arguments =
      List.filter (fun entry => !decide (entry.1 ∈ signature.parameters)) arguments.named := by
  rw [unknown, splitNamed, List.partition_eq_filter_filter]
  rfl

theorem ordered_unknown (hnamed : arguments.named.Ordered) :
    (signature.unknown arguments).Ordered :=
  unknown_eq_filter ▸ hnamed.filter _

theorem mem_names_unknown_iff :
    name ∈ (signature.unknown arguments).names ↔
      name ∈ arguments.named.names ∧ name ∉ signature.parameters := by
  simp [unknown_eq_filter, Table.names]

theorem get?_unknown :
    Table.get? name (signature.unknown arguments) =
      if name ∈ signature.parameters then none else arguments.getNamed? name := by
  rw [unknown_eq_filter]
  split
  · next hname => exact Table.get?_filter_of_drops fun _ => by simpa using hname
  · next hname => exact Table.get?_filter_of_keeps fun _ => by simpa using hname

/-- A signature accepts the names of a call. -/
def AcceptsNames (signature : Signature Value) (arguments : Arguments) : Prop :=
  signature.acceptsNamed ∨ ∀ name ∈ arguments.named.names, name ∈ signature.parameters

theorem unexpectedName?_eq :
    signature.unexpectedName? arguments =
      if signature.acceptsNamed then none else (signature.unknown arguments).names.head? := by
  rw [Table.names, List.head?_map]
  rfl

theorem unexpectedName?_eq_some_iff (hnamed : arguments.named.Ordered) :
    signature.unexpectedName? arguments = some name ↔
      ¬ signature.acceptsNamed ∧
        IsLeast {other | other ∈ arguments.named.names ∧ other ∉ signature.parameters} name := by
  rw [unexpectedName?_eq]
  split
  · next haccepts => simp [haccepts]
  · next haccepts =>
    rw [(ordered_unknown hnamed).head?_eq_some_iff, and_iff_right haccepts]
    simp only [mem_names_unknown_iff]

theorem unexpectedName?_eq_none_iff :
    signature.unexpectedName? arguments = none ↔ signature.AcceptsNames arguments := by
  rw [unexpectedName?_eq, AcceptsNames]
  split
  · next haccepts => simp [haccepts]
  · next haccepts =>
    rw [List.head?_eq_none_iff, List.eq_nil_iff_forall_not_mem, or_iff_right haccepts]
    simp only [mem_names_unknown_iff, not_and, not_not]

/-! ## Parameters without a value -/

/-- A parameter has a value: its default, a positional argument at one of its positions, or the
argument of its name. -/
inductive Filled (signature : Signature Value) (arguments : Arguments) (name : String) : Prop where
  | default : name ∈ signature.defaulted.map Prod.fst → Filled signature arguments name
  | positional {index : Nat} : signature.parameters[index]? = some name →
      index < arguments.positional.length → Filled signature arguments name
  | named : name ∈ arguments.named.names → Filled signature arguments name

theorem mem_names_known_iff {parameters : List String} {named : Table Value} :
    name ∈ (splitNamed parameters named).1.names ↔ name ∈ named.names ∧ name ∈ parameters := by
  rw [splitNamed, List.partition_eq_filter_filter]
  simp [Table.names]

theorem mem_names_fill_iff :
    name ∈ (signature.fill arguments).names ↔
      name ∈ signature.defaulted.map Prod.fst ∨
        (∃ index : Nat, signature.parameters[index]? = some name ∧
          index < arguments.positional.length) ∨
        (name ∈ arguments.named.names ∧ name ∈ signature.parameters) := by
  rw [fill, Table.mem_names_insertAll, bindPositional, Table.mem_names_insertAll, Table.ofList,
    Table.mem_names_insertAll, Table.mem_names_zip_iff, mem_names_known_iff, or_assoc, or_assoc]
  exact or_iff_right List.not_mem_nil

theorem mem_names_fill_iff_of_mem (hname : name ∈ signature.parameters) :
    name ∈ (signature.fill arguments).names ↔ signature.Filled arguments name := by
  rw [mem_names_fill_iff]
  constructor
  · rintro (hdefault | ⟨index, hindex, hlt⟩ | ⟨hnamed, -⟩)
    · exact .default hdefault
    · exact .positional hindex hlt
    · exact .named hnamed
  · rintro (hdefault | ⟨hindex, hlt⟩ | hnamed)
    · exact .inl hdefault
    · exact .inr (.inl ⟨_, hindex, hlt⟩)
    · exact .inr (.inr ⟨hnamed, hname⟩)

/-- Only parameters are bound before the surplus. -/
theorem mem_parameters_of_mem_names_fill (hname : name ∈ (signature.fill arguments).names) :
    name ∈ signature.parameters := by
  rcases mem_names_fill_iff.1 hname with hdefault | ⟨index, hindex, -⟩ | ⟨-, hparameter⟩
  · exact List.mem_append_right _ hdefault
  · exact List.mem_of_getElem? hindex
  · exact hparameter

theorem mem_names_addSurplus_iff {bound : Table Value} :
    name ∈ (signature.addSurplus arguments bound).names ↔
      name ∈ bound.names ∨ signature.Collects name := by
  rw [← Table.contains_iff, ← Table.contains_iff]
  by_cases hcollects : signature.Collects name
  · simp only [hcollects, or_true, iff_true]
    rcases hcollects with ⟨rfl, haccepts⟩ | ⟨rfl, haccepts⟩
    · rw [Table.contains, get?_addSurplus_of_accepts_positional haccepts]
      rfl
    · rw [Table.contains, get?_addSurplus_of_accepts_named haccepts]
      rfl
  · simp only [hcollects, or_false, Table.contains, get?_addSurplus hcollects]

/-- Once all parameters have values, the parameters and the collections are bound. -/
theorem mem_names_bound_iff
    (hfilled : ∀ parameter ∈ signature.parameters, signature.Filled arguments parameter) :
    name ∈ (signature.addSurplus arguments (signature.fill arguments)).names ↔
      name ∈ signature.parameters ∨ signature.Collects name := by
  rw [mem_names_addSurplus_iff]
  refine or_congr_left' fun _ => ⟨mem_parameters_of_mem_names_fill, fun hname => ?_⟩
  exact (mem_names_fill_iff_of_mem hname).2 (hfilled name hname)

/-! ## The outcome -/

/-- A signature accepts the number of positional arguments of a call. -/
def AcceptsCount (signature : Signature Value) (arguments : Arguments) : Prop :=
  signature.acceptsPositional ∨ arguments.positional.length ≤ signature.parameters.length

/-- The first parameter in the order of their positions that has no value. -/
def FirstMissing (signature : Signature Value) (arguments : Arguments) (name : String) : Prop :=
  ∃ before behind, signature.parameters = before ++ name :: behind ∧
    ¬ signature.Filled arguments name ∧ ∀ earlier ∈ before, signature.Filled arguments earlier

theorem find?_missing_eq_some_iff :
    signature.parameters.find? (fun name => !Table.contains name (signature.fill arguments)) =
      some name ↔ signature.FirstMissing arguments name := by
  have hmissing {other : String} (hother : other ∈ signature.parameters) :
      (!Table.contains other (signature.fill arguments)) = true ↔
        ¬ signature.Filled arguments other := by
    rw [← mem_names_fill_iff_of_mem hother, ← Table.contains_iff, Bool.not_eq_true',
      Bool.not_eq_true]
  rw [List.find?_eq_some_iff_append, FirstMissing]
  constructor
  · rintro ⟨hname, before, behind, hsplit, hbefore⟩
    refine ⟨before, behind, hsplit, (hmissing (by simp [hsplit])).1 hname,
      fun earlier hearlier => ?_⟩
    by_contra hempty
    have hcontains := hbefore earlier hearlier
    rw [(hmissing (by simp [hsplit, hearlier])).2 hempty] at hcontains
    cases hcontains
  · rintro ⟨before, behind, hsplit, hname, hbefore⟩
    refine ⟨(hmissing (by simp [hsplit])).2 hname, before, behind, hsplit,
      fun earlier hearlier => ?_⟩
    rw [Bool.not_not, Table.contains_iff, mem_names_fill_iff_of_mem (by simp [hsplit, hearlier])]
    exact hbefore earlier hearlier

theorem find?_missing_eq_none_iff :
    signature.parameters.find? (fun name => !Table.contains name (signature.fill arguments)) =
      none ↔ ∀ name ∈ signature.parameters, signature.Filled arguments name := by
  rw [List.find?_eq_none]
  refine forall₂_congr fun name hname => ?_
  rw [← mem_names_fill_iff_of_mem hname, ← Table.contains_iff, Bool.not_eq_true', Bool.not_eq_false]

/-- What becomes of the arguments of a call. -/
inductive Outcome (signature : Signature Value) (arguments : Arguments) :
    Except BindFault (Table Value) → Prop where
  | tooMany : ¬ signature.AcceptsCount arguments →
      Outcome signature arguments
        (.error (.tooManyArguments signature.parameters.length arguments.positional.length))
  | unexpected {name : String} : signature.AcceptsCount arguments →
      signature.unexpectedName? arguments = some name →
      Outcome signature arguments (.error (.unexpectedKeyword name))
  | missing {name : String} : signature.AcceptsCount arguments →
      signature.AcceptsNames arguments → signature.FirstMissing arguments name →
      Outcome signature arguments (.error (.missingArgument name))
  | bound : signature.AcceptsCount arguments → signature.AcceptsNames arguments →
      (∀ name ∈ signature.parameters, signature.Filled arguments name) →
      Outcome signature arguments
        (.ok (signature.addSurplus arguments (signature.fill arguments)))

theorem acceptsCount_iff :
    signature.AcceptsCount arguments ↔
      ¬ (signature.parameters.length < arguments.positional.length ∧
        signature.acceptsPositional = false) := by
  rw [AcceptsCount, not_and_or, not_lt, Bool.not_eq_false, or_comm]

theorem bind_eq_of_outcome {result : Except BindFault (Table Value)}
    (houtcome : signature.Outcome arguments result) : signature.bind arguments = result := by
  unfold bind
  cases houtcome with
  | tooMany hcount => exact if_pos (not_not.1 (mt acceptsCount_iff.2 hcount))
  | unexpected hcount hname =>
    rw [if_neg (acceptsCount_iff.1 hcount), hname]
  | missing hcount hnames hmissing =>
    rw [if_neg (acceptsCount_iff.1 hcount), unexpectedName?_eq_none_iff.2 hnames]
    dsimp only
    rw [find?_missing_eq_some_iff.2 hmissing]
  | bound hcount hnames hfilled =>
    rw [if_neg (acceptsCount_iff.1 hcount), unexpectedName?_eq_none_iff.2 hnames]
    dsimp only
    rw [find?_missing_eq_none_iff.2 hfilled]

theorem exists_outcome (signature : Signature Value) (arguments : Arguments) :
    ∃ result, signature.Outcome arguments result := by
  by_cases hcount : signature.AcceptsCount arguments
  · cases hnames : signature.unexpectedName? arguments with
    | some name => exact ⟨_, .unexpected hcount hnames⟩
    | none =>
      have hnames := unexpectedName?_eq_none_iff.1 hnames
      cases hmissing : signature.parameters.find? fun name =>
          !Table.contains name (signature.fill arguments) with
      | some name => exact ⟨_, .missing hcount hnames (find?_missing_eq_some_iff.1 hmissing)⟩
      | none => exact ⟨_, .bound hcount hnames (find?_missing_eq_none_iff.1 hmissing)⟩
  · exact ⟨_, .tooMany hcount⟩

theorem bind_eq_iff {result : Except BindFault (Table Value)} :
    signature.bind arguments = result ↔ signature.Outcome arguments result := by
  refine ⟨fun hbind => ?_, bind_eq_of_outcome⟩
  obtain ⟨result', houtcome⟩ := exists_outcome signature arguments
  rwa [← hbind, bind_eq_of_outcome houtcome]

/-- A call is refused for the number of its positional arguments, for the least of its names that is
no parameter, or for the first parameter without a value, and the earlier reason counts; any other
call is bound, with nothing lost of what is left over. -/
theorem call_outcome (signature : Signature Value) {arguments : Arguments}
    (hnamed : arguments.named.Ordered) :
    let parameters := signature.parameters
    let strangers := {name | name ∈ arguments.named.names ∧ name ∉ parameters}
    (∀ expected got, signature.bind arguments = .error (.tooManyArguments expected got) ↔
        ¬ signature.AcceptsCount arguments ∧ expected = parameters.length ∧
          got = arguments.positional.length) ∧
      (∀ name, signature.bind arguments = .error (.unexpectedKeyword name) ↔
        signature.AcceptsCount arguments ∧ ¬ signature.acceptsNamed ∧ IsLeast strangers name) ∧
      (∀ name, signature.bind arguments = .error (.missingArgument name) ↔
        signature.AcceptsCount arguments ∧ signature.AcceptsNames arguments ∧
          signature.FirstMissing arguments name) ∧
      ((∃ bound, signature.bind arguments = .ok bound) ↔
        signature.AcceptsCount arguments ∧ signature.AcceptsNames arguments ∧
          ∀ name ∈ parameters, signature.Filled arguments name) ∧
      ∀ bound, signature.bind arguments = .ok bound →
        bound.Ordered ∧
        (∀ name, name ∈ bound.names ↔ name ∈ parameters ∨ signature.Collects name) ∧
        (signature.acceptsPositional → Table.get? surplusPositional bound =
          some (.list (arguments.positional.drop parameters.length))) ∧
        (signature.acceptsNamed → ∃ unknown : Table Value,
          Table.get? surplusNamed bound = some (.map unknown) ∧ unknown.Ordered ∧
          ∀ name, Table.get? name unknown =
            if name ∈ parameters then none else arguments.getNamed? name) := by
  intro parameters strangers
  simp only [bind_eq_iff]
  refine ⟨fun expected got => ⟨fun houtcome => ?_, ?_⟩, fun name => ⟨fun houtcome => ?_, ?_⟩,
    fun name => ⟨fun houtcome => ?_, ?_⟩, ⟨?_, ?_⟩, fun bound houtcome => ?_⟩
  · cases houtcome with
    | tooMany hcount => exact ⟨hcount, rfl, rfl⟩
  · rintro ⟨hcount, rfl, rfl⟩
    exact .tooMany hcount
  · cases houtcome with
    | unexpected hcount hname => exact ⟨hcount, (unexpectedName?_eq_some_iff hnamed).1 hname⟩
  · rintro ⟨hcount, hname⟩
    exact .unexpected hcount ((unexpectedName?_eq_some_iff hnamed).2 hname)
  · cases houtcome with
    | missing hcount hnames hmissing => exact ⟨hcount, hnames, hmissing⟩
  · rintro ⟨hcount, hnames, hmissing⟩
    exact .missing hcount hnames hmissing
  · rintro ⟨bound, houtcome⟩
    cases houtcome with
    | bound hcount hnames hfilled => exact ⟨hcount, hnames, hfilled⟩
  · rintro ⟨hcount, hnames, hfilled⟩
    exact ⟨_, .bound hcount hnames hfilled⟩
  · cases houtcome with
    | bound hcount hnames hfilled =>
      exact ⟨ordered_addSurplus ordered_fill, fun name => mem_names_bound_iff hfilled,
        get?_addSurplus_of_accepts_positional, fun haccepts =>
          ⟨_, get?_addSurplus_of_accepts_named haccepts, ordered_unknown hnamed,
            fun name => get?_unknown⟩⟩

/-- Of two names that are no parameters the lesser one is reported, before the parameter that has
no value. -/
theorem call_outcome_unexpected :
    let signature : Signature Value := ⟨["a", "b"], [("c", .null)], true, false⟩
    signature.bind ⟨[.integer 1], [("c", .null), ("y", .null), ("z", .null)]⟩ =
      .error (.unexpectedKeyword "y") := by
  intro signature
  let arguments : Arguments := ⟨[.integer 1], [("c", .null), ("y", .null), ("z", .null)]⟩
  have hnamed : Table.Ordered arguments.named := by
    simp only [arguments, Table.Ordered, List.pairwise_cons]
    decide
  obtain ⟨-, hunexpected, -⟩ := call_outcome signature hnamed
  refine (hunexpected "y").2 ⟨.inl rfl, by decide, ⟨by decide, by decide⟩, ?_⟩
  rintro name ⟨hname, hstranger⟩
  have hcases : name = "c" ∨ name = "y" ∨ name = "z" := by
    simpa [arguments, Table.names] using hname
  rcases hcases with rfl | rfl | rfl
  · exact absurd (by decide) hstranger
  · exact le_rfl
  · decide

end Signature

end Stencil
