/-! Tabs as runs of spaces, with stops every eight columns. -/
namespace SqlSchema.Text

def expandFrom (column : Nat) : List Char → List Char
  | [] => []
  | c :: rest =>
    if c = '\t' then
      let width := 8 - column % 8
      List.replicate width ' ' ++ expandFrom (column + width) rest
    else if c = '\n' ∨ c = '\r' then c :: expandFrom 0 rest
    else c :: expandFrom (column + 1) rest

/-- A text with every tab filled up to the next stop; a line end starts the columns anew. -/
def expandTabs (cs : List Char) : List Char := expandFrom 0 cs

private theorem expandFrom_of_no_tab (column : Nat) (cs : List Char) (none : '\t' ∉ cs) :
    expandFrom column cs = cs := by
  induction cs generalizing column with
  | nil => rfl
  | cons c rest ih =>
    simp only [List.mem_cons, not_or] at none
    have different : c ≠ '\t' := fun equal => none.1 equal.symm
    simp only [expandFrom, different, if_false]
    split <;> rw [ih _ none.2]

theorem expandTabs_of_no_tab (cs : List Char) (none : '\t' ∉ cs) : expandTabs cs = cs :=
  expandFrom_of_no_tab 0 cs none

end SqlSchema.Text
