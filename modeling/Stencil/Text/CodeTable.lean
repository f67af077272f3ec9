/-!
# Tables of code points

A class of characters that a standard gives as a table is kept as the list of its maximal ranges of
code points, in ascending order. A row holds the first and the last code point of its range.
-/

namespace Stencil.Text

abbrev CodeTable := List (Nat × Nat)

def CodeTable.contains (table : CodeTable) (char : Char) : Bool :=
  table.any fun (first, last) => decide (first ≤ char.toNat) && decide (char.toNat ≤ last)

/-- A table whose ranges all start above a character does not hold it. -/
theorem CodeTable.contains_eq_false_of_lt {table : CodeTable} {char : Char}
    (habove : ∀ row ∈ table, char.toNat < row.1) : table.contains char = false := by
  simp only [CodeTable.contains, List.any_eq_false, Bool.and_eq_true, decide_eq_true_eq]
  rintro ⟨first, last⟩ hrow ⟨hfirst, _⟩
  have := habove _ hrow
  simp only at this
  omega

end Stencil.Text
