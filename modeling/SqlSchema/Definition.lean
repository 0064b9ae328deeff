import SqlSchema.Reader.Tree
import SqlSchema.Schema.Decode

/-! Definitions read from the text of one statement. -/
namespace SqlSchema.Definition

def action : Definition → String
  | .createTable _ _ => Tree.Action.create
  | .createIndex _ _ _ => Tree.Action.createIndex
  | .addIndex _ _ _ => Tree.Action.addIndex
  | .addPrimaryKey _ _ _ => Tree.Action.addPrimaryKey

def ofAction? (action : String) : Option (String → String → Index → Definition) :=
  if action = Tree.Action.createIndex then some .createIndex
  else if action = Tree.Action.addIndex then some .addIndex
  else if action = Tree.Action.addPrimaryKey then some .addPrimaryKey
  else none

def ofTree (text : String) (s : Tree.SchemaStatement) : Attempt Rejection Definition := do
  if s.action = Tree.Action.create then
    let some name := s.newName | Attempt.interrupt .tableMissing
    let some body := s.body | Attempt.interrupt .tableMissing
    return .createTable text (← Table.ofTree name.name body)
  else
    let some define := ofAction? s.action | throw (.unsupportedAction s.action)
    let some table := s.table | Attempt.interrupt .tableMissing
    return define text table.name (← Index.ofSpec s.action s.index s.indexColumns)

def ofText (d : Dialect) (text : String) : Attempt Rejection Definition := do
  match ← (Tree.read d text).adapt .syntaxError with
  | .schema s => ofTree text s
  | .other kind _ => throw (.otherStatement kind)

/-- Reads one statement; errors carry its text. -/
def read (d : Dialect) (text : String) : Attempt StatementError Definition :=
  (ofText d text).adapt (⟨·, text⟩)

end SqlSchema.Definition
