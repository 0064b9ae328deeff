import SqlSchema.Reader.Statement
import SqlSchema.Rejection
import SqlSchema.Statement.Kind
import SqlSchema.Statement.Strip
import SqlSchema.Text.Tabs

/-! From a text to its tree. Statements that begin with one of the five schema words are read by the rules of the
dialect; all others only have their kind told. -/
namespace SqlSchema.Tree
open Text

/-- Words that begin a statement about the schema. -/
def schemaWords : List String := ["CREATE", "ALTER", "DROP", "RENAME", "TRUNCATE"]

/-- A text without one semicolon at its end and the white space in front of that. -/
def dropSemicolon (cs : List Char) : List Char :=
  if cs.getLast? = some ';' then trimRight cs.dropLast else cs

def openingWord (cs : List Char) : String := String.ofList (upper (firstWord cs))

def expectedAt (failure : Reader.Failure) : SyntaxError := ⟨failure.position, .expected failure.expectation⟩

/-- Reads a statement that has no comments and no semicolon any more. -/
def ofPlain (d : Dialect) (cs : List Char) : Attempt SyntaxError Tree := do
  if cs.isEmpty then throw ⟨0, .emptyStatement⟩
  let word := openingWord cs
  if schemaWords.contains word then
    let statement ← ofExcept (((Reader.Rule.statement d).readAll (expandTabs cs)).mapError expectedAt)
    return .schema statement
  else
    match ← (Statement.classify cs : Except Interruption Statement.Kind) with
    | .known kind => return .other kind (String.ofList cs)
    | .unknown | .missing => throw ⟨0, .unknownStatement word⟩

def read (d : Dialect) (text : String) : Attempt SyntaxError Tree := do
  let plain ← (Statement.strip d text.toList : Except Interruption (List Char))
  ofPlain d (dropSemicolon plain)

end SqlSchema.Tree
