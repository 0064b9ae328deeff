import SqlSchema.Number.Decimal
import SqlSchema.Rejection
import SqlSchema.Schema
import SqlSchema.Tree

/-! Decoding of trees. Literals become values, definitions become columns and indexes, in the order in which they are
written; the first literal that cannot be decoded ends it. -/
namespace SqlSchema

/-- The number that a sign and ASCII digits stand for, if the whole text is made of them. -/
def integerOf? (cs : List Char) : Option Int :=
  let (negative, unsigned) := takeSign cs
  let (digits, after) := takeDigits unsigned
  if digits.isEmpty || !after.isEmpty then none
  else some (if negative then -(digitsValue digits : Int) else digitsValue digits)

/-- Whether a number has 64 bits, one of them for the sign. -/
def fitsWord (n : Int) : Bool := -(twoPow 63 : Int) ≤ n && n < twoPow 63

/-- How many digits a numeral has, the sign not counted. -/
def numeralWidth (cs : List Char) : Nat := (takeSign cs).2.length

def decodeInteger (raw : String) : Attempt Rejection Int := do
  let cs := raw.toList
  let malformed := Rejection.malformedNumber .integer raw
  match integerOf? cs with
  | some n =>
    if Interruption.digitLimit < numeralWidth cs then Attempt.interrupt (.integerTooLong (numeralWidth cs))
    else if fitsWord n then return n
    else throw malformed
  | none => throw malformed

/-- The nearest binary number, which must be finite. -/
def decodeFloat (raw : String) : Attempt Rejection Binary64 :=
  match (Decimal.read? raw.toList).bind Decimal.toBinary64? with
  | some x => return x
  | none => throw (.malformedNumber .float raw)

/-- Literals of an unknown kind have no value. -/
def Value.ofLiteral (l : Tree.Literal) : Attempt Rejection (Option Value) := do
  match l.kind with
  | .string => return some (.string l.text)
  | .integer => return some (.integer l.text (← decodeInteger l.text))
  | .float => return some (.float l.text (← decodeFloat l.text))
  | .hexNumber => return some (.hexNumber l.text)
  | .hexString => return some (.hexString l.text)
  | .placeholder => return some (.placeholder l.text)
  | .bit => return some (.bit l.text (l.text = "1"))
  | .other _ => return none

def Value.ofLiteral? : Option Tree.Literal → Attempt Rejection (Option Value)
  | some l => ofLiteral l
  | none => return none

def KeyOption.ofTree : Tree.KeyOption → Attempt Rejection KeyOption
  | .none => return .none
  | .primary => return .primary
  | .spatialKey => return .spatialKey
  | .unique => return .unique
  | .uniqueKey => return .uniqueKey
  | .key => return .key
  | .other code => Attempt.interrupt (.unknownKeyOption code)

def Column.ofTree (c : Tree.Column) : Attempt Rejection Column := do
  let default ← Value.ofLiteral? c.type.default
  let length ← Value.ofLiteral? c.type.length
  let scale ← Value.ofLiteral? c.type.scale
  let keyOption ← KeyOption.ofTree c.type.keyOption
  return { name := c.name
           typeName := c.type.name
           unsigned := c.type.unsigned
           notNull := c.type.notNull
           autoIncrement := c.type.autoIncrement
           default, length, scale, keyOption
           members := c.type.members }

def IndexColumn.ofTree (c : Tree.IndexColumn) : Attempt Rejection IndexColumn := do
  return { column := c.column, length := ← Value.ofLiteral? c.length }

def Index.ofTree (i : Tree.Index) : Attempt Rejection Index := do
  let columns ← i.columns.mapM IndexColumn.ofTree
  return { name := i.name, type := i.type, columns, primary := i.primary, unique := i.unique }

/-- Columns come first, then the indexes among them. -/
def Table.ofTree (name : String) (body : Tree.TableBody) : Attempt Rejection Table := do
  let columns ← body.columns.mapM Column.ofTree
  let indexes ← body.indexes.mapM Index.ofTree
  return { name, columns, indexes }

/-- The index that a statement of its own defines: it has no type, no lengths and is never marked as primary. -/
def Index.ofSpec (action : String) (spec : Option Tree.IndexSpec) (columns : List String) :
    Attempt Rejection Index :=
  match spec with
  | some spec => return { name := spec.name, type := "", columns := columns.map ({ column := · }), unique := spec.unique }
  | none => throw (.missingIndexSpec action)

end SqlSchema
