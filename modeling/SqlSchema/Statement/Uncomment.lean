import SqlSchema.Text.Blank
import SqlSchema.Token.Basic

/-! A statement without its comments. Comments in a row, with line ends and blanks between them, go together and
leave one blank or their last line ends, so that the words around them stay apart. -/
namespace SqlSchema.Statement
open Text

/-- Comments and line ends make up a run. -/
def inRun (t : Token) : Bool := t.isComment || t.kind == .lineEnd

/-- What a run of comments leaves: the line ends that it ends with, or a space. -/
def remains (run : List Char) : List Char :=
  match (run.reverse.takeWhile isLineEnd).reverse with
  | [] => [' ']
  | ends => ends

/-- The text of a run that does not reach the end of the statement and what follows it; none if it does. -/
def leadingRun (tokens : List Token) : Option (List Char × List Token) :=
  match tokens with
  | [] => none
  | t :: _ =>
    if t.isComment then
      match tokens.dropWhile inRun with
      | [] => none
      | rest => some ((tokens.takeWhile inRun).flatMap (·.text), rest)
    else none

theorem leadingRun_shorter (tokens rest : List Token) (run : List Char)
    (found : leadingRun tokens = some (run, rest)) : rest.length < tokens.length := by
  match tokens with
  | [] => simp [leadingRun] at found
  | t :: more =>
    by_cases comment : t.isComment = true
    · have first : inRun t = true := by simp [inRun, comment]
      have after : (t :: more).dropWhile inRun = rest := by
        simp only [leadingRun, comment, if_true] at found
        split at found
        · contradiction
        · exact (Prod.mk.inj (Option.some.inj found)).2
      rw [← after, List.dropWhile_cons_of_pos first]
      have := (List.dropWhile_suffix (l := more) inRun).length_le
      simp only [List.length_cons]
      omega
    · simp [leadingRun, comment] at found

/-- The run at the head together with the runs behind it that only white space parts from it. -/
def joinedRuns (tokens : List Token) : Option (List Char × List Token) :=
  match _found : leadingRun tokens with
  | none => none
  | some (run, rest) =>
    match joinedRuns (rest.dropWhile (·.isSpace)) with
    | none => some (run, rest)
    | some (more, after) => some (run ++ (rest.takeWhile (·.isSpace)).flatMap (·.text) ++ more, after)
termination_by tokens.length
decreasing_by
  have := leadingRun_shorter tokens rest run _found
  have := (List.dropWhile_suffix (l := rest) fun t : Token => t.isSpace).length_le
  omega

theorem joinedRuns_shorter (tokens rest : List Token) (run : List Char)
    (found : joinedRuns tokens = some (run, rest)) : rest.length < tokens.length := by
  fun_induction joinedRuns tokens generalizing run rest with
  | case1 => simp at found
  | case2 tokens text after first none ih =>
    cases Option.some.inj found
    exact leadingRun_shorter _ _ _ first
  | case3 tokens text after first more last joined ih =>
    cases Option.some.inj found
    have := ih _ _ joined
    have := leadingRun_shorter _ _ _ first
    have := (List.dropWhile_suffix (l := after) fun t : Token => t.isSpace).length_le
    omega

/-- Nothing takes the place of comments at the start and behind an opening parenthesis. -/
def dropsAfter (before : Option (List Char)) : Bool := before.isNone || before == some ['(']

/-- The pieces of text left of the tokens, where `before` is the piece in front of them. Comments at the end of a
statement are replaced one by one. -/
def piecesFrom (before : Option (List Char)) (tokens : List Token) : List (List Char) :=
  match tokens with
  | [] => []
  | t :: rest =>
    if t.isComment then
      match _joined : joinedRuns (t :: rest) with
      | some (run, after) =>
        if dropsAfter before then piecesFrom before after
        else remains run :: piecesFrom (some (remains run)) after
      | none =>
        if dropsAfter before then piecesFrom before rest
        else remains t.text :: piecesFrom (some (remains t.text)) rest
    else t.text :: piecesFrom (some t.text) rest
termination_by tokens.length
decreasing_by
  all_goals first
    | exact joinedRuns_shorter _ _ _ _joined
    | simp only [List.length_cons, Nat.lt_add_one]

def uncomment (tokens : List Token) : List Char := (piecesFrom none tokens).flatten

theorem uncomment_of_no_comment (tokens : List Token) (free : ∀ t ∈ tokens, t.isComment = false) :
    uncomment tokens = tokens.flatMap (·.text) := by
  have general (before : Option (List Char)) :
      (piecesFrom before tokens).flatten = tokens.flatMap (·.text) := by
    induction tokens generalizing before with
    | nil => simp [piecesFrom]
    | cons t rest ih =>
      have head := free t (by simp)
      rw [piecesFrom]
      simp [head, ih (fun u member => free u (by simp [member]))]
  exact general none

end SqlSchema.Statement
