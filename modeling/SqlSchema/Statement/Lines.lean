import SqlSchema.Text.Quoted

/-! Lines without white space at their ends. A line end between quotes does not end a line; a quote that is never
closed is an ordinary character. -/
namespace SqlSchema.Statement
open Text

/-- The lines of a text, where `current` is the part of the first line already read, its last character first. -/
def linesFrom (current : List Char) (cs : List Char) : List (List Char) :=
  match cs with
  | [] => [current.reverse]
  | '\r' :: '\n' :: rest => current.reverse :: linesFrom [] rest
  | c :: rest =>
    if isLineEnd c then current.reverse :: linesFrom [] rest
    else if c = '\x27' ∨ c = '\x22' then
      match _closed : Quoting.close ⟨c, .inLine, false⟩ rest with
      | some (inside, after) => linesFrom (c :: (c :: inside).reverse ++ current) after
      | none => linesFrom (c :: current) rest
    else linesFrom (c :: current) rest
termination_by cs.length
decreasing_by
  all_goals try have shorter := Quoting.close_shorter _ _ _ _ _closed
  all_goals simp only [List.length_cons]; omega

/-- A text with its lines cut at the right and every line end made a line feed. -/
def tidyLines (cs : List Char) : List Char := ['\n'].intercalate ((linesFrom [] cs).map trimRight)

end SqlSchema.Statement
