import SqlSchema.Reader.Literal

/-! Column definitions: a name, a type with its members or length, and attributes in any order. -/
namespace SqlSchema.Reader

inductive Attribute where
  | notNull (value : Bool)
  | default (value : Tree.Literal)
  | autoIncrement
  | key (option : Tree.KeyOption)
  | comment (text : Tree.Literal)
  | charset (name : String)
  | collate (name : String)
  /-- Renewing the column on update is read, but not kept. -/
  | onUpdate
deriving DecidableEq, Repr

/-- An attribute overrides what was said before. -/
def Attribute.apply (type : Tree.ColumnType) : Attribute → Tree.ColumnType
  | .notNull value => { type with notNull := value }
  | .default value => { type with default := some value }
  | .autoIncrement => { type with autoIncrement := true }
  | .key option => { type with keyOption := option }
  | .comment text => { type with comment := some text }
  | .charset name => { type with charset := name }
  | .collate name => { type with collate := name }
  | .onUpdate => type

namespace Rule

def longTypes : List (List String) := [
  ["double", "precision"],
  ["character", "varying"],
  ["bit", "varying"],
  ["timestamp", "with", "time", "zone"],
  ["timestamp", "without", "time", "zone"],
  ["time", "with", "time", "zone"],
  ["time", "without", "time", "zone"]]

def longTypeShape (words : List String) : Shape := .sequence (words.map .keyword)

def typeNameShape : Shape := .choice (longTypes.map longTypeShape ++ [wordShape])

def longType (words : List String) : Rule String := do
  keywords words
  return " ".intercalate words

/-- The name of a type in small letters: one of the long ones, or any word. -/
def typeName : Rule String :=
  choice typeNameShape (longTypes.map longType ++ [do return (← word).toLower])

def constant {α : Type} (value : α) (words : List String) : Rule α := do
  keywords words
  return value

def memberType (d : Dialect) : Rule Tree.ColumnType := do
  let name ← choice (.choice [.keyword "ENUM", .keyword "SET"])
    [constant "enum" ["ENUM"], constant "set" ["SET"]]
  let members ← parenthesized (listOf comma (string d))
  return { name, members }

def size : Rule (Tree.Literal × Option Tree.Literal) := parenthesized do
  let length ← integer
  let scale ← optional do
    comma
    integer
  return (length, scale)

def sizedType : Rule Tree.ColumnType := do
  let name ← typeName
  let size ← optional size
  return { name, length := size.map (·.1), scale := size.bind (·.2) }

def integerShape : Shape := .pattern "[+-]?\\d+(?![\\w.])"

def columnTypeShape (d : Dialect) : Shape := .choice [
  .sequence [
    .choice [.keyword "ENUM", .keyword "SET"],
    .grouped (.sequence [.silent (.mark "("), .listOf (stringShape d), .silent (.mark ")")])],
  .sequence [
    typeNameShape,
    .optional (.sequence [
      .silent (.mark "("), integerShape,
      .optional (.sequence [.silent (.mark ","), integerShape]), .silent (.mark ")")])]]

def columnType (d : Dialect) : Rule Tree.ColumnType := choice (columnTypeShape d) [memberType d, sizedType]

def doubleColon : Rule Unit :=
  recognised (.mark "::") fun cs => if [':', ':'].isPrefixOf cs then some ((), 2) else none

/-- A default value. In Postgres a type may follow two colons behind it; it is not kept. -/
def defaultValue : Dialect → Rule Tree.Literal
  | .mysql => value .mysql
  | .postgres => do
    let result ← value .postgres
    let _ ← optional do
      doubleColon
      typeName
    return result

def attributed {α : Type} (make : α → Attribute) (intro : List String) (r : Rule α) : Rule Attribute := do
  keywords intro
  return make (← r)

def columnAttribute (d : Dialect) : Rule Attribute :=
  choice (.named "attribute") [
    constant (.notNull true) ["NOT", "NULL"],
    constant (.notNull false) ["NULL"],
    attributed .default ["DEFAULT"] (defaultValue d),
    constant .autoIncrement ["AUTO_INCREMENT"],
    constant (.key .primary) ["PRIMARY", "KEY"],
    constant (.key .uniqueKey) ["UNIQUE", "KEY"],
    constant (.key .unique) ["UNIQUE"],
    constant (.key .spatialKey) ["SPATIAL", "KEY"],
    constant (.key .key) ["KEY"],
    attributed .comment ["COMMENT"] (stringLiteral d),
    charset,
    attributed .collate ["COLLATE"] word,
    onUpdate]
where
  charset : Rule Attribute := do
    choice (.named "character set") [keywords ["CHARACTER", "SET"], keyword "CHARSET"]
    return .charset (← word)
  onUpdate : Rule Attribute := do
    keywords ["ON", "UPDATE"]
    currentTimestamp
    return .onUpdate

/-- Words that begin an index or a constraint, and thus no column without quotes around its name. -/
def indexWords : List String :=
  ["PRIMARY", "UNIQUE", "KEY", "INDEX", "SPATIAL", "FULLTEXT", "CONSTRAINT", "FOREIGN", "CHECK"]

def indexWordsShape : Shape := .choice (indexWords.map .keyword)

def column (d : Dialect) : Rule Tree.Column := do
  without indexWordsShape (choice indexWordsShape (indexWords.map keyword))
  let name ← identifier d
  let type ← columnType d
  let unsigned ← optional (keyword "UNSIGNED")
  let zerofill ← optional (keyword "ZEROFILL")
  let attributes ← many (columnAttribute d)
  return { name
           type := attributes.foldl Attribute.apply
             { type with unsigned := unsigned.isSome, zerofill := zerofill.isSome } }

end Rule
end SqlSchema.Reader
