import SqlSchema.Document
import SqlSchema.Schema

/-! Schemas as documents. Every part is a mapping of all its fields in a fixed order, so that nothing is left out and
equal documents mean equal schemas. -/
namespace SqlSchema

/-- What a value stands for; the text itself where there is no decoded form. -/
def Value.content : Value → Document
  | .string raw | .hexNumber raw | .hexString raw | .placeholder raw => .text raw
  | .integer _ value => .integer value
  | .float _ value => .float value
  | .bit _ value => .bool value

def Value.document (v : Value) : Document :=
  .mapping [("type", .text v.typeName), ("raw", .text v.raw), ("value", v.content)]

def Column.document (c : Column) : Document :=
  .mapping [
    ("name", .text c.name),
    ("type", .text c.typeName),
    ("unsigned", .bool c.unsigned),
    ("not_null", .bool c.notNull),
    ("auto_increment", .bool c.autoIncrement),
    ("default", .ofOption Value.document c.default),
    ("length", .ofOption Value.document c.length),
    ("scale", .ofOption Value.document c.scale),
    ("key_option", .text c.keyOption.name),
    ("enum_values", .list (c.members.map .text))]

def IndexColumn.document (c : IndexColumn) : Document :=
  .mapping [("column", .text c.column), ("length", .ofOption Value.document c.length)]

def Index.document (i : Index) : Document :=
  .mapping [
    ("name", .text i.name),
    ("type", .text i.type),
    ("columns", .list (i.columns.map IndexColumn.document)),
    ("primary", .bool i.primary),
    ("unique", .bool i.unique)]

def Table.document (t : Table) : Document :=
  .mapping [
    ("name", .text t.name),
    ("columns", .list (t.columns.map Column.document)),
    ("indexes", .list (t.indexes.map Index.document))]

namespace Definition

def document (d : Definition) : Document :=
  let common := [("kind", .text d.kind), ("statement", .text d.statement)]
  match d with
  | .createTable _ table => .mapping (common ++ [("table", table.document)])
  | .createIndex _ tableName index | .addIndex _ tableName index | .addPrimaryKey _ tableName index =>
    .mapping (common ++ [("table_name", .text tableName), ("index", index.document)])

def documents (ds : List Definition) : Document := .list (ds.map document)

end Definition
end SqlSchema
