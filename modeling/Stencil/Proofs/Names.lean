import Stencil.Proofs.Tree
import Stencil.Template

/-!
# Names in expressions

The names that an expression looks up are its own, if it is a name, and those of the nodes below it.
-/

namespace Stencil

namespace Expr

variable {Mark : Type} {name : String} {child expr : Expr Mark}

theorem mem_namesOfAll {items : List (Expr Mark)} :
    name ∈ namesOfAll items ↔ ∃ item ∈ items, name ∈ item.names := by
  induction items with
  | nil => simp [namesOfAll]
  | cons item items ih => simp [namesOfAll, ih]

theorem mem_namesOfPairs {pairs : List (Expr Mark × Expr Mark)} :
    name ∈ namesOfPairs pairs ↔ ∃ pair ∈ pairs, name ∈ pair.1.names ∨ name ∈ pair.2.names := by
  induction pairs with
  | nil => simp [namesOfPairs]
  | cons pair pairs ih => simp [namesOfPairs, ih, or_assoc]

theorem mem_namesOfNamed {named : List (String × Expr Mark)} :
    name ∈ namesOfNamed named ↔ ∃ value ∈ named.map Prod.snd, name ∈ value.names := by
  induction named with
  | nil => simp [namesOfNamed]
  | cons argument named ih => simp [namesOfNamed, ih]

theorem mem_namesOfOption {option : Option (Expr Mark)} :
    name ∈ namesOfOption option ↔ ∃ expr ∈ option, name ∈ expr.names := by
  cases option <;> simp [namesOfOption]

/-- A name that is looked up is the expression itself, or it is looked up right below. -/
theorem mem_names_iff : name ∈ expr.names ↔
    (∃ mark, expr = .name mark name) ∨ ∃ child ∈ expr.children, name ∈ child.names := by
  cases expr with
  | name mark own => simp [names, children, eq_comm]
  | dict mark pairs =>
    simp only [names, children, mem_namesOfPairs, List.mem_flatMap, reduceCtorEq, exists_false,
      false_or]
    constructor
    · rintro ⟨pair, hpair, hname | hname⟩
      · exact ⟨pair.1, ⟨pair, hpair, by simp⟩, hname⟩
      · exact ⟨pair.2, ⟨pair, hpair, by simp⟩, hname⟩
    · rintro ⟨child, ⟨pair, hpair, hchild⟩, hname⟩
      refine ⟨pair, hpair, ?_⟩
      rcases List.mem_pair.1 hchild with rfl | rfl
      · exact .inl hname
      · exact .inr hname
  | _ => simp [names, children, mem_namesOfAll, mem_namesOfNamed, mem_namesOfOption, or_and_right,
      exists_or]

theorem mem_names_of_mem_children (hchild : child ∈ expr.children) (hname : name ∈ child.names) :
    name ∈ expr.names :=
  mem_names_iff.2 (.inr ⟨child, hchild, hname⟩)

/-- What holds of all names of an expression holds of all names of the nodes below. -/
theorem everywhere_names {Holds : String → Prop} (hnames : ∀ name ∈ expr.names, Holds name) :
    expr.Everywhere fun node => ∀ name ∈ node.names, Holds name := by
  have hstep (expr : Expr Mark) (hbelow : ∀ child ∈ expr.children, child.Everywhere fun child =>
        (∀ name ∈ child.names, Holds name) →
          child.Everywhere fun node => ∀ name ∈ node.names, Holds name)
      (hnames : ∀ name ∈ expr.names, Holds name) :
      expr.Everywhere fun node => ∀ name ∈ node.names, Holds name :=
    .node hnames fun child hchild => (hbelow child hchild).root fun name hname =>
      hnames name (mem_names_of_mem_children hchild hname)
  exact (everywhere_of_children hstep expr).root hnames

theorem references_iff : expr.references name ↔ name ∈ expr.names :=
  decide_eq_true_iff

end Expr

/-- The names that a body looks up. -/
def Node.names {Mark : Type} : Node Mark → List String
  | text _ => []
  | output expr => expr.names

theorem Node.references_iff {Mark : Type} {name : String} {node : Node Mark} :
    node.references name ↔ name ∈ node.names := by
  cases node with
  | text content => simp [references, names]
  | output expr => exact Expr.references_iff

theorem Macro.references_iff {Mark : Type} {name : String} {definition : Macro Mark} :
    definition.references name ↔ ∃ node ∈ definition.body, name ∈ node.names := by
  simp [references, Node.references_iff]

end Stencil
