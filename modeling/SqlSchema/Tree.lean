/-! Trees of SQL statements as they are written: nothing in them is converted or checked yet. Kinds of literals and
keys that the grammar never produces are kept as bare numbers, since trees may also be made by hand. -/
namespace SqlSchema.Tree

inductive LiteralKind where
  | string
  | integer
  | float
  | hexNumber
  | hexString
  | placeholder
  | bit
  | other (code : Int)
deriving DecidableEq, Repr

namespace LiteralKind

def code : LiteralKind → Int
  | .string => 0
  | .integer => 1
  | .float => 2
  | .hexNumber => 3
  | .hexString => 4
  | .placeholder => 5
  | .bit => 6
  | .other code => code

def ofCode : Int → LiteralKind
  | 0 => .string
  | 1 => .integer
  | 2 => .float
  | 3 => .hexNumber
  | 4 => .hexString
  | 5 => .placeholder
  | 6 => .bit
  | code => .other code

theorem code_ofCode (n : Int) : (ofCode n).code = n := by
  unfold ofCode
  split <;> rfl

end LiteralKind

structure Literal where
  kind : LiteralKind
  text : String
deriving DecidableEq, Repr

inductive KeyOption where
  | none
  | primary
  | spatialKey
  | unique
  | uniqueKey
  | key
  | other (code : Int)
deriving DecidableEq, Repr

namespace KeyOption

def code : KeyOption → Int
  | .none => 0
  | .primary => 1
  | .spatialKey => 2
  | .unique => 3
  | .uniqueKey => 4
  | .key => 5
  | .other code => code

def ofCode : Int → KeyOption
  | 0 => .none
  | 1 => .primary
  | 2 => .spatialKey
  | 3 => .unique
  | 4 => .uniqueKey
  | 5 => .key
  | code => .other code

theorem code_ofCode (n : Int) : (ofCode n).code = n := by
  unfold ofCode
  split <;> rfl

end KeyOption

structure TableName where
  name : String
  qualifier : String := ""
deriving DecidableEq, Repr

def TableName.text (t : TableName) : String :=
  if t.qualifier.isEmpty then t.name else t.qualifier ++ "." ++ t.name

structure ColumnType where
  name : String
  unsigned : Bool := false
  zerofill : Bool := false
  notNull : Bool := false
  autoIncrement : Bool := false
  default : Option Literal := none
  length : Option Literal := none
  scale : Option Literal := none
  keyOption : KeyOption := .none
  comment : Option Literal := none
  charset : String := ""
  collate : String := ""
  members : List String := []
deriving DecidableEq, Repr

structure Column where
  name : String
  type : ColumnType
deriving DecidableEq, Repr

structure IndexColumn where
  column : String
  length : Option Literal := none
deriving DecidableEq, Repr

structure Index where
  type : String
  name : String
  primary : Bool := false
  unique : Bool := false
  columns : List IndexColumn := []
deriving DecidableEq, Repr

/-- What stands between the parentheses of a table definition, and the options behind them. -/
structure TableBody where
  columns : List Column := []
  indexes : List Index := []
  options : String := ""
deriving DecidableEq, Repr

structure IndexSpec where
  name : String
  unique : Bool := false
deriving DecidableEq, Repr

/-- A statement about the schema. Its action decides which parts it has: `create` has a new name and a body, the
index actions have a table, an index and its columns, all others at most a table. -/
structure SchemaStatement where
  action : String
  table : Option TableName := none
  newName : Option TableName := none
  body : Option TableBody := none
  index : Option IndexSpec := none
  indexColumns : List String := []
deriving DecidableEq, Repr

namespace Action

def create : String := "create"
def createIndex : String := "create index"
def addIndex : String := "add index"
def addPrimaryKey : String := "add primary key"
def alter : String := "alter"
def drop : String := "drop"
def rename : String := "rename"
def truncate : String := "truncate"

end Action
end Tree

/-- A statement as written: one about the schema, or any other with its kind and its text. -/
inductive Tree where
  | schema (statement : Tree.SchemaStatement)
  | other (kind text : String)
deriving DecidableEq, Repr

end SqlSchema
