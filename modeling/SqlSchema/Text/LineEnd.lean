/-! Line ends. A carriage return, alone or with a line feed behind it, ends a line just as a line feed does. -/
namespace SqlSchema.Text

/-- A text in which every line ends with a line feed. -/
def unifyLineEnds : List Char → List Char
  | '\r' :: '\n' :: rest => '\n' :: unifyLineEnds rest
  | '\r' :: rest => '\n' :: unifyLineEnds rest
  | c :: rest => c :: unifyLineEnds rest
  | [] => []

theorem unifyLineEnds_of_feeds (cs : List Char) (feeds : '\r' ∉ cs) : unifyLineEnds cs = cs := by
  fun_induction unifyLineEnds cs <;> simp_all

end SqlSchema.Text
