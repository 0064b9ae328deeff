import SqlSchema.Reader.Index
import SqlSchema.Text.Blank

/-! Statements about the schema. Definitions of tables and indexes are read in full; of all others only the action
and at most a table are kept. -/
namespace SqlSchema.Reader.Rule
open SqlSchema.Tree

/-- All that is left of the text, if it begins with something that can be seen. -/
def rest : Rule String :=
  recognised (.pattern "\\S.*") fun cs =>
    match cs with
    | c :: _ => if Text.isBlank c then none else some (String.ofList cs, cs.length)
    | [] => none

def table (d : Dialect) : Rule TableName := do
  let (qualifier, name) ← tableName d
  return { name, qualifier }

inductive Item where
  | column (c : Tree.Column)
  | index (i : Tree.Index)

def Item.column? : Item → Option Tree.Column
  | .column c => some c
  | .index _ => none

def Item.index? : Item → Option Tree.Index
  | .column _ => none
  | .index i => some i

def item (d : Dialect) : Rule Item :=
  choice (.choice [indexShape, .named "column definition"])
    [do return .index (← index d), do return .column (← column d)]

def createTable (d : Dialect) : Rule SchemaStatement := do
  keyword "CREATE"
  let _ ← optional (keyword "TEMPORARY")
  keyword "TABLE"
  let _ ← optional (keywords ["IF", "NOT", "EXISTS"])
  let newName ← table d
  let items ← parenthesized (listOf comma (item d))
  let options ← optional rest
  return { action := Action.create
           newName := some newName
           body := some { columns := items.filterMap Item.column?
                          indexes := items.filterMap Item.index?
                          options := String.ofList (Text.trim (options.getD "").toList) } }

def createIndex (d : Dialect) : Rule SchemaStatement := do
  keyword "CREATE"
  let unique ← optional (keyword "UNIQUE")
  keyword "INDEX"
  let _ ← optional (keyword "CONCURRENTLY")
  let _ ← optional (keywords ["IF", "NOT", "EXISTS"])
  let name ← indexName d
  keyword "ON"
  let table ← table d
  let _ ← optional usingMethod
  let columns ← columnNames d
  return { action := Action.createIndex
           table := some table
           index := some { name, unique := unique.isSome }
           indexColumns := columns }

def createdShape : Shape :=
  .choice [.choice [.choice [.keyword "TABLE", .keyword "TEMPORARY"], .keyword "UNIQUE"], .keyword "INDEX"]

/-- Anything else that can be created; the word for it becomes part of the action. -/
def createOther : Rule SchemaStatement := do
  keyword "CREATE"
  let _ ← optional (keywords ["OR", "REPLACE"])
  without createdShape (choice createdShape (["TABLE", "TEMPORARY", "UNIQUE", "INDEX"].map keyword))
  let kind ← word
  let _ ← optional rest
  return { action := Action.create ++ " " ++ kind.toLower }

/-- What an `ALTER TABLE` does: its action and, if it adds an index, the index and its columns. -/
abbrev Alteration := String × Option (IndexSpec × List String)

def addPrimaryKey (d : Dialect) : Rule Alteration := do
  keyword "ADD"
  let name ← optional do
    keyword "CONSTRAINT"
    without primaryKeyShape primaryKey
    identifier d
  primaryKey
  let _ ← optional usingMethod
  let columns ← columnNames d
  let _ ← optional usingMethod
  endOfText
  return (Action.addPrimaryKey, some ({ name := (givenName? name).getD "PRIMARY", unique := true }, columns))

def addUniqueConstraint (d : Dialect) : Rule Alteration := do
  keyword "ADD"
  keyword "CONSTRAINT"
  let name ← identifier d
  keyword "UNIQUE"
  let _ ← optional keyWord
  let _ ← optional usingMethod
  let columns ← columnNames d
  let _ ← optional usingMethod
  endOfText
  return (Action.addIndex, some ({ name, unique := true }, columns))

def addIndex (d : Dialect) : Rule Alteration := do
  keyword "ADD"
  let unique ← choice (.named "index") [
    do
      keyword "UNIQUE"
      let _ ← optional keyWord
      return true,
    do
      let _ ← keyWord
      return false]
  let name ← optional (indexName d)
  let _ ← optional usingMethod
  let columns ← columnNames d
  let _ ← optional usingMethod
  endOfText
  return (Action.addIndex, some ({ name := name.getD "", unique }, columns))

/-- The beginning of an alteration that adds an index. What begins like this is never some other alteration. -/
def addIndexStart (d : Dialect) : Rule Unit := do
  keyword "ADD"
  choice (.named "index") [
    keyword "UNIQUE",
    keyword "INDEX",
    keyword "KEY",
    primaryKey,
    do
      let _ ← constraintName d
      choice (.named "constraint type") [primaryKey, keyword "UNIQUE"]]

/-- Any other alteration; renaming has an action of its own. -/
def alterOther (d : Dialect) : Rule Alteration := do
  without (.named "index") (addIndexStart d)
  let text ← rest
  let first := String.ofList (Text.upper (Text.firstWord text.toList))
  return (if first = "RENAME" then Action.rename else Action.alter, none)

def methodShape : Shape := .optional (.silent (.sequence [.keyword "USING", wordShape]))

def columnNamesShape : Shape := .grouped (.sequence [
  .silent (.mark "("),
  .listOf (.sequence [
    identifierShape, .silent (.optional (.choice [.keyword "ASC", .keyword "DESC"]))]),
  .silent (.mark ")")])

def addedShapes : List Shape := [methodShape, columnNamesShape, methodShape, .named "end of text"]

def alterationShape : Shape :=
  let add := Shape.silent (.keyword "ADD")
  let constraint := Shape.silent (.keyword "CONSTRAINT")
  .choice [
    .sequence ([
      add,
      .optional (.sequence [constraint, .without primaryKeyShape, identifierShape]),
      .silent primaryKeyShape] ++ addedShapes),
    .sequence ([
      add, constraint, identifierShape, .silent (.keyword "UNIQUE"),
      .silent (.optional (.choice [.keyword "KEY", .keyword "INDEX"]))] ++ addedShapes),
    .sequence ([
      add,
      .choice [
        .sequence [.keyword "UNIQUE", .silent (.optional (.choice [.keyword "INDEX", .keyword "KEY"]))],
        .silent (.choice [.keyword "INDEX", .keyword "KEY"])],
      .optional (.sequence [.without (.keyword "USING"), identifierShape])] ++ addedShapes),
    .sequence [
      .without (.sequence [
        add,
        .choice [
          .keyword "UNIQUE", .keyword "INDEX", .keyword "KEY", primaryKeyShape,
          .sequence [
            .keyword "CONSTRAINT",
            .optional (.sequence [
              .without (.choice [primaryKeyShape, .keyword "UNIQUE"]), identifierShape]),
            .choice [primaryKeyShape, .keyword "UNIQUE"]]]]),
      .pattern "\\S.*"]]

def alteration (d : Dialect) : Rule Alteration :=
  choice alterationShape [addPrimaryKey d, addUniqueConstraint d, addIndex d, alterOther d]

def alterTable (d : Dialect) : Rule SchemaStatement := do
  keyword "ALTER"
  keyword "TABLE"
  let _ ← optional (keyword "ONLY")
  let table ← table d
  let (action, added) ← alteration d
  return { action
           table := some table
           index := added.map (·.1)
           indexColumns := (added.map (·.2)).getD [] }

/-- Of several tables that are dropped, the first one is kept. -/
def dropTable (d : Dialect) : Rule SchemaStatement := do
  keyword "DROP"
  let _ ← optional (keyword "TEMPORARY")
  keyword "TABLE"
  let _ ← optional (keywords ["IF", "EXISTS"])
  let tables ← listOf comma (table d)
  let _ ← optional (choice (.named "drop behaviour") [keyword "CASCADE", keyword "RESTRICT"])
  return { action := Action.drop, table := tables.head? }

def dropOther : Rule SchemaStatement := do
  keyword "DROP"
  let kind ← word
  let _ ← optional rest
  return { action := Action.drop ++ " " ++ kind.toLower }

def renameTable (d : Dialect) : Rule SchemaStatement := do
  keyword "RENAME"
  keyword "TABLE"
  let table ← table d
  let _ ← optional rest
  return { action := Action.rename, table := some table }

def truncateTable (d : Dialect) : Rule SchemaStatement := do
  keyword "TRUNCATE"
  let _ ← optional (keyword "TABLE")
  let table ← table d
  let _ ← optional rest
  return { action := Action.truncate, table := some table }

def statement (d : Dialect) : Rule SchemaStatement :=
  choice (.named "statement") [
    createTable d, createIndex d, createOther, alterTable d, dropTable d, dropOther, renameTable d, truncateTable d]

end SqlSchema.Reader.Rule
