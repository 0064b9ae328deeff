import SqlSchema.Reader.Column

/-! Index definitions inside a table definition, and the parts that they share with statements about indexes. -/
namespace SqlSchema.Reader.Rule

/-- The method of an index; it is not kept. -/
def usingMethod : Rule Unit := do
  keyword "USING"
  let _ ← word
  return ()

/-- The name of an index, which cannot be the word that introduces its method. -/
def indexName (d : Dialect) : Rule String := do
  without (.keyword "USING") (keyword "USING")
  identifier d

/-- The direction of a column; it is not kept. -/
def direction : Rule (Option Unit) :=
  optional (choice (.choice [.keyword "ASC", .keyword "DESC"]) [keyword "ASC", keyword "DESC"])

def indexColumn (d : Dialect) : Rule Tree.IndexColumn := do
  let column ← identifier d
  let length ← optional (parenthesized integer)
  let _ ← direction
  return { column, length }

def indexColumns (d : Dialect) : Rule (List Tree.IndexColumn) := parenthesized (listOf comma (indexColumn d))

def columnNames (d : Dialect) : Rule (List String) :=
  parenthesized (listOf comma do
    let name ← identifier d
    let _ ← direction
    return name)

def primaryKey : Rule Unit := keywords ["PRIMARY", "KEY"]

def primaryKeyShape : Shape := .sequence [.keyword "PRIMARY", .keyword "KEY"]

def constraintName (d : Dialect) : Rule (Option String) := do
  keyword "CONSTRAINT"
  optional do
    without (.choice [primaryKeyShape, .keyword "UNIQUE"])
      (choice (.named "constraint type") [primaryKey, keyword "UNIQUE"])
    identifier d

def uniqueType : Rule String :=
  choice (.named "unique index") [
    constant "unique key" ["UNIQUE", "KEY"],
    constant "unique index" ["UNIQUE", "INDEX"],
    constant "unique" ["UNIQUE"]]

/-- `KEY` or `INDEX`, in small letters. -/
def keyWord : Rule String :=
  choice (.choice [.keyword "KEY", .keyword "INDEX"]) [constant "key" ["KEY"], constant "index" ["INDEX"]]

def keyType : Rule String :=
  choice (.named "index") [
    do
      let kind ← choice (.choice [.keyword "SPATIAL", .keyword "FULLTEXT"])
        [constant "spatial" ["SPATIAL"], constant "fulltext" ["FULLTEXT"]]
      match ← optional keyWord with
      | some word => return kind ++ " " ++ word
      | none => return kind,
    constant "key" ["KEY"],
    constant "index" ["INDEX"]]

/-- A name that is empty counts as missing. -/
def givenName? (name : Option String) : Option String := name.filter (!·.isEmpty)

/-- The name, method and columns of an index, and the method once more. -/
def indexBody (d : Dialect) : Rule (Option String × List Tree.IndexColumn) := do
  let name ← optional (indexName d)
  let _ ← optional usingMethod
  let columns ← indexColumns d
  let _ ← optional usingMethod
  return (name, columns)

/-- A primary key. Without a name of its own it is called `PRIMARY`. -/
def primaryIndex (d : Dialect) : Rule Tree.Index := do
  let constraint ← optional (constraintName d)
  primaryKey
  let _ ← optional usingMethod
  let columns ← indexColumns d
  let _ ← optional usingMethod
  return { type := "primary key", name := (givenName? constraint.join).getD "PRIMARY"
           primary := true, unique := true, columns }

/-- A unique index. Its own name goes before the name of its constraint. -/
def uniqueIndex (d : Dialect) : Rule Tree.Index := do
  let constraint ← optional (constraintName d)
  let type ← uniqueType
  let (name, columns) ← indexBody d
  return { type, name := (givenName? name <|> givenName? constraint.join).getD "", unique := true, columns }

def plainIndex (d : Dialect) : Rule Tree.Index := do
  let type ← keyType
  let (name, columns) ← indexBody d
  return { type, name := (givenName? name).getD "", columns }

def indexShape : Shape := .named "index definition"

def index (d : Dialect) : Rule Tree.Index := choice indexShape [primaryIndex d, uniqueIndex d, plainIndex d]

end SqlSchema.Reader.Rule
