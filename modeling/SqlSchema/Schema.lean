import SqlSchema.Number.Binary64

/-! The schema that statements define: tables with their columns and indexes, and values in decoded form. -/
namespace SqlSchema

/-- A literal of a statement. The text is kept as written, so that the literal can be put back into SQL. -/
inductive Value where
  | string (raw : String)
  | integer (raw : String) (value : Int)
  | float (raw : String) (value : Binary64)
  | hexNumber (raw : String)
  | hexString (raw : String)
  | placeholder (raw : String)
  | bit (raw : String) (value : Bool)
deriving DecidableEq, Repr

namespace Value

def raw : Value → String
  | .string raw | .integer raw _ | .float raw _ | .hexNumber raw | .hexString raw | .placeholder raw
  | .bit raw _ => raw

def typeName : Value → String
  | .string _ => "STRING"
  | .integer _ _ => "INTEGER"
  | .float _ _ => "FLOAT"
  | .hexNumber _ => "HEX_NUMBER"
  | .hexString _ => "HEX_STRING"
  | .placeholder _ => "PLACEHOLDER"
  | .bit _ _ => "BIT"

def string? : Value → Option String
  | .string raw => some raw
  | _ => none

def integer? : Value → Option Int
  | .integer _ value => some value
  | _ => none

def float? : Value → Option Binary64
  | .float _ value => some value
  | _ => none

def bit? : Value → Option Bool
  | .bit _ value => some value
  | _ => none

end Value

inductive KeyOption where
  | none
  | primary
  | spatialKey
  | unique
  | uniqueKey
  | key
deriving DecidableEq, Repr

def KeyOption.name : KeyOption → String
  | .none => "NONE"
  | .primary => "PRIMARY"
  | .spatialKey => "SPATIAL_KEY"
  | .unique => "UNIQUE"
  | .uniqueKey => "UNIQUE_KEY"
  | .key => "KEY"

def KeyOption.ordinal : KeyOption → Nat
  | .none => 0
  | .primary => 1
  | .spatialKey => 2
  | .unique => 3
  | .uniqueKey => 4
  | .key => 5

structure Column where
  name : String
  typeName : String
  unsigned : Bool := false
  notNull : Bool := false
  autoIncrement : Bool := false
  default : Option Value := none
  length : Option Value := none
  scale : Option Value := none
  keyOption : KeyOption := .none
  members : List String := []
deriving DecidableEq, Repr

structure IndexColumn where
  column : String
  length : Option Value := none
deriving DecidableEq, Repr

structure Index where
  name : String
  type : String
  columns : List IndexColumn := []
  primary : Bool := false
  unique : Bool := false
deriving DecidableEq, Repr

def Index.columnNames (i : Index) : List String := i.columns.map (·.column)

structure Table where
  name : String
  columns : List Column := []
  indexes : List Index := []
deriving DecidableEq, Repr

namespace Table

/-- The first column of the given name. -/
def column? (t : Table) (name : String) : Option Column := t.columns.find? (·.name == name)

def hasColumn (t : Table) (name : String) : Bool := (t.column? name).isSome

/-- The first index that is marked as primary. -/
def primaryIndex? (t : Table) : Option Index := t.indexes.find? (·.primary)

theorem hasColumn_iff (t : Table) (name : String) :
    t.hasColumn name = true ↔ ∃ column ∈ t.columns, column.name = name := by
  simp [hasColumn, column?, List.find?_isSome]

end Table

/-- What a statement adds to a schema, together with the statement's text. -/
inductive Definition where
  | createTable (statement : String) (table : Table)
  | createIndex (statement tableName : String) (index : Index)
  | addIndex (statement tableName : String) (index : Index)
  | addPrimaryKey (statement tableName : String) (index : Index)
deriving DecidableEq, Repr

namespace Definition

def statement : Definition → String
  | .createTable statement _ | .createIndex statement _ _ | .addIndex statement _ _
  | .addPrimaryKey statement _ _ => statement

def kind : Definition → String
  | .createTable _ _ => "create_table"
  | .createIndex _ _ _ => "create_index"
  | .addIndex _ _ _ => "add_index"
  | .addPrimaryKey _ _ _ => "add_primary_key"

def table? : Definition → Option Table
  | .createTable _ table => some table
  | _ => none

end Definition
end SqlSchema
