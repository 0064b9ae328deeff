import SqlSchema.Dialect
import SqlSchema.Interruption
import SqlSchema.Statement.Lines
import SqlSchema.Statement.Nesting
import SqlSchema.Statement.Split
import SqlSchema.Statement.Uncomment
import SqlSchema.Token.Lexer

/-! A text without comments and with tidy lines, statement by statement. In MySQL a number sign outside quotes
starts a comment of its own, which is cut from the result. -/
namespace SqlSchema.Statement
open Text

/-- How a quote is closed where number signs are looked for: names in backticks know no backslash. -/
def hashQuoting (mark : Char) : Quoting := ⟨mark, if mark = '\x60' then .nothing else .any, false⟩

def isHashQuote (c : Char) : Bool := c == '\x27' || c == '\x22' || c == '\x60'

/-- A text without the parts from a number sign outside quotes up to the end of the line. -/
def cutHashes (cs : List Char) : List Char :=
  match cs with
  | [] => []
  | c :: rest =>
    if isHashQuote c then
      match _closed : (hashQuoting c).close rest with
      | some (inside, after) => c :: inside ++ c :: cutHashes after
      | none => c :: cutHashes rest
    else if c = '#' then cutHashes (rest.dropWhile (· != '\n'))
    else c :: cutHashes rest
termination_by cs.length
decreasing_by
  all_goals try have shorter := Quoting.close_shorter _ _ _ _ _closed
  all_goals try have suffix := (List.dropWhile_suffix (l := rest) (· != '\n')).length_le
  all_goals simp only [List.length_cons]; omega

def plain (tokens : List Token) : List Char := tidyLines (uncomment tokens)

/-- All statements of a text without comments, one directly behind the other. -/
def plainText (cs : List Char) : Except Interruption (List Char) :=
  let statements := split (Token.scan cs)
  if statements.any fun tokens => nestingLimit < nesting tokens then .error .nestingTooDeep
  else .ok (statements.flatMap plain)

/-- A text without comments and without white space around it. -/
def strip (d : Dialect) (cs : List Char) : Except Interruption (List Char) :=
  (plainText cs).map fun text => trim (if d = .mysql then cutHashes text else text)

end SqlSchema.Statement
