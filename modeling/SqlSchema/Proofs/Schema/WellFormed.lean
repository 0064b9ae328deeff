import SqlSchema.Proofs.Attempt
import SqlSchema.Schema.Decode

/-! Well-formed schemas. What a well-formed tree says is kept when it is decoded; the decoder itself only has to see
to it that numbers lie in their ranges. -/
namespace SqlSchema
open Attempt

/-- Small letters, digits and underscores of ASCII. -/
def isTypePart (c : Char) : Bool := c.isLower || c.isDigit || c == '_'

/-- One or more words, with single spaces between them. -/
def IsTypeName (name : String) : Prop :=
  ∃ words : List (List Char), words ≠ [] ∧ (∀ word ∈ words, word ≠ [] ∧ word.all isTypePart = true) ∧
    name.toList = [' '].intercalate words

/-- A value has the decoded form of its type and no other. Integers have 64 bits, other numbers are finite. -/
structure Value.WellFormed (v : Value) : Prop where
  string : v.string?.isSome = true ↔ v.typeName = "STRING"
  integer : v.integer?.isSome = true ↔ v.typeName = "INTEGER"
  float : v.float?.isSome = true ↔ v.typeName = "FLOAT"
  bit : v.bit?.isSome = true ↔ v.typeName = "BIT"
  inRange : ∀ n ∈ v.integer?, -9223372036854775808 ≤ n ∧ n ≤ 9223372036854775807
  finite : ∀ x ∈ v.float?, x.IsFinite

/-- A size: a number of 64 bits. -/
def Value.IsSize (v : Value) : Prop := v.typeName = "INTEGER" ∧ v.WellFormed

structure Column.WellFormed (c : Column) : Prop where
  typeName : IsTypeName c.typeName
  default : ∀ v ∈ c.default, v.WellFormed
  length : ∀ v ∈ c.length, v.IsSize
  scale : ∀ v ∈ c.scale, v.IsSize
  scaled : c.scale.isSome = true → c.length.isSome = true
  members : c.members ≠ [] → (c.typeName = "enum" ∨ c.typeName = "set") ∧ c.length = none ∧ c.scale = none

structure Index.WellFormed (i : Index) : Prop where
  columns : i.columns ≠ []
  lengths : ∀ c ∈ i.columns, ∀ v ∈ c.length, v.IsSize
  primary : i.primary = true ↔ i.type = "primary key"
  unique : i.unique = true ↔ i.primary = true ∨ "unique".toList <+: i.type.toList
  name : i.primary = true → i.name ≠ ""

structure Table.WellFormed (t : Table) : Prop where
  filled : t.columns ≠ [] ∨ t.indexes ≠ []
  columns : ∀ c ∈ t.columns, c.WellFormed
  indexes : ∀ i ∈ t.indexes, i.WellFormed

/-- An index with a statement of its own. -/
structure Index.Separate (i : Index) : Prop where
  type : i.type = ""
  primary : i.primary = false
  columns : i.columns ≠ []
  lengths : ∀ c ∈ i.columns, c.length = none

def Definition.WellFormed : Definition → Prop
  | .createTable _ table => table.WellFormed
  | .createIndex _ _ index | .addIndex _ _ index => index.Separate
  | .addPrimaryKey _ _ index => index.Separate ∧ index.unique = true ∧ index.name ≠ ""

namespace Tree

structure ColumnType.WellFormed (t : ColumnType) : Prop where
  name : IsTypeName t.name
  length : ∀ l ∈ t.length, l.kind = .integer
  scale : ∀ l ∈ t.scale, l.kind = .integer
  scaled : t.scale.isSome = true → t.length.isSome = true
  members : t.members ≠ [] → (t.name = "enum" ∨ t.name = "set") ∧ t.length = none ∧ t.scale = none

structure Index.WellFormed (i : Index) : Prop where
  columns : i.columns ≠ []
  lengths : ∀ c ∈ i.columns, ∀ l ∈ c.length, l.kind = .integer
  primary : i.primary = true ↔ i.type = "primary key"
  unique : i.unique = true ↔ i.primary = true ∨ "unique".toList <+: i.type.toList
  name : i.primary = true → i.name ≠ ""

structure TableBody.WellFormed (body : TableBody) : Prop where
  filled : body.columns ≠ [] ∨ body.indexes ≠ []
  columns : ∀ c ∈ body.columns, c.type.WellFormed
  indexes : ∀ i ∈ body.indexes, i.WellFormed

/-- The body of a table is in order, and so is a primary key that is added. -/
structure SchemaStatement.WellFormed (s : SchemaStatement) : Prop where
  body : ∀ body ∈ s.body, body.WellFormed
  primary : s.action = Action.addPrimaryKey → ∀ spec ∈ s.index, spec.unique = true ∧ spec.name ≠ ""

end Tree

theorem inRange_of_decodeInteger (raw : String) (n : Int) (given : (decodeInteger raw).Gives n) :
    -9223372036854775808 ≤ n ∧ n ≤ 9223372036854775807 := by
  unfold decodeInteger at given
  dsimp only at given
  split at given
  next m _ =>
    split at given
    · simp at given
    · split at given
      next fits =>
        have bound : (twoPow 63 : Int) = 9223372036854775808 := by decide
        obtain rfl := (gives_pure ..).mp given
        simp only [fitsWord, bound, Bool.and_eq_true, decide_eq_true_eq] at fits
        omega
      next => simp at given
  next => simp at given

theorem finite_of_decodeFloat (raw : String) (x : Binary64) (given : (decodeFloat raw).Gives x) : x.IsFinite := by
  unfold decodeFloat at given
  split at given
  next y found =>
    obtain rfl := (gives_pure ..).mp given
    obtain ⟨decimal, _, rounded⟩ := Option.bind_eq_some_iff.mp found
    exact decimal.toBinary64?_finite y rounded
  next => simp at given

namespace Value

theorem wellFormed_of_ofLiteral (l : Tree.Literal) (v : Value) (given : (ofLiteral l).Gives (some v)) :
    v.WellFormed := by
  obtain ⟨kind, text⟩ := l
  cases kind with
  | integer =>
    simp only [ofLiteral, gives_bind, gives_pure, Option.some.injEq] at given
    obtain ⟨n, decoded, rfl⟩ := given
    have inRange := inRange_of_decodeInteger text n decoded
    constructor <;> simp [string?, integer?, float?, bit?, typeName, inRange]
  | float =>
    simp only [ofLiteral, gives_bind, gives_pure, Option.some.injEq] at given
    obtain ⟨x, decoded, rfl⟩ := given
    have finite := finite_of_decodeFloat text x decoded
    constructor <;> simp [string?, integer?, float?, bit?, typeName, finite]
  | other code => simp [ofLiteral] at given
  | _ =>
    simp only [ofLiteral, gives_pure, Option.some.injEq] at given
    subst given
    constructor <;> simp [string?, integer?, float?, bit?, typeName]

variable {l : Option Tree.Literal} {found : Option Value}

theorem wellFormed_of_ofLiteral? (given : (ofLiteral? l).Gives found) : ∀ v ∈ found, v.WellFormed := by
  cases l with
  | none =>
    obtain rfl := (gives_pure ..).mp given
    nofun
  | some l =>
    rintro v rfl
    exact wellFormed_of_ofLiteral l v given

/-- Literals that are integers become sizes, and none of them is lost. -/
theorem sizes_of_ofLiteral? (integer : ∀ written ∈ l, written.kind = .integer) (given : (ofLiteral? l).Gives found) :
    (∀ v ∈ found, v.IsSize) ∧ found.isSome = l.isSome := by
  cases l with
  | none =>
    obtain rfl := (gives_pure ..).mp given
    exact ⟨nofun, rfl⟩
  | some l =>
    obtain ⟨kind, text⟩ := l
    obtain rfl : kind = .integer := integer _ rfl
    have decoded : (ofLiteral ⟨.integer, text⟩).Gives found := given
    simp only [ofLiteral, gives_bind, gives_pure] at decoded
    obtain ⟨n, _, rfl⟩ := decoded
    refine ⟨?_, rfl⟩
    rintro v ⟨rfl⟩
    exact ⟨rfl, wellFormed_of_ofLiteral? given _ rfl⟩

end Value

theorem Column.wellFormed_of_ofTree (c : Tree.Column) (column : Column) (formed : c.type.WellFormed)
    (given : (Column.ofTree c).Gives column) : column.WellFormed := by
  simp only [Column.ofTree, gives_bind, gives_pure] at given
  obtain ⟨default, defaulted, length, lengthened, scale, scaled, keyOption, _, rfl⟩ := given
  obtain ⟨lengths, longer⟩ := Value.sizes_of_ofLiteral? formed.length lengthened
  obtain ⟨scales, finer⟩ := Value.sizes_of_ofLiteral? formed.scale scaled
  refine ⟨formed.name, Value.wellFormed_of_ofLiteral? defaulted, lengths, scales, ?_, ?_⟩
  · rw [longer, finer]
    exact formed.scaled
  · intro listed
    obtain ⟨name, plain, whole⟩ := formed.members listed
    rw [plain, Option.isSome_none, Option.isSome_eq_false_iff, Option.isNone_iff_eq_none] at longer
    rw [whole, Option.isSome_none, Option.isSome_eq_false_iff, Option.isNone_iff_eq_none] at finer
    exact ⟨name, longer, finer⟩

theorem IndexColumn.size_of_ofTree (c : Tree.IndexColumn) (column : IndexColumn)
    (integer : ∀ l ∈ c.length, l.kind = .integer) (given : (IndexColumn.ofTree c).Gives column) :
    ∀ v ∈ column.length, v.IsSize := by
  simp only [IndexColumn.ofTree, gives_bind, gives_pure] at given
  obtain ⟨length, decoded, rfl⟩ := given
  exact (Value.sizes_of_ofLiteral? integer decoded).1

theorem Index.wellFormed_of_ofTree (i : Tree.Index) (index : Index) (formed : i.WellFormed)
    (given : (Index.ofTree i).Gives index) : index.WellFormed := by
  simp only [Index.ofTree, gives_bind, gives_pure] at given
  obtain ⟨columns, decoded, rfl⟩ := given
  refine ⟨?_, forall_mapM IndexColumn.size_of_ofTree formed.lengths decoded, formed.primary, formed.unique, formed.name⟩
  exact mt (mapM_eq_nil decoded).mp formed.columns

theorem Table.wellFormed_of_ofTree (name : String) (body : Tree.TableBody) (table : Table) (formed : body.WellFormed)
    (given : (Table.ofTree name body).Gives table) : table.WellFormed := by
  simp only [Table.ofTree, gives_bind, gives_pure] at given
  obtain ⟨columns, first, indexes, second, rfl⟩ := given
  refine ⟨?_, forall_mapM Column.wellFormed_of_ofTree formed.columns first,
    forall_mapM Index.wellFormed_of_ofTree formed.indexes second⟩
  exact formed.filled.imp (mt (mapM_eq_nil first).mp) (mt (mapM_eq_nil second).mp)

theorem Index.separate_of_ofSpec (action : String) (spec : Tree.IndexSpec) (names : List String) (index : Index)
    (filled : names ≠ []) (given : (Index.ofSpec action (some spec) names).Gives index) :
    index.Separate ∧ index.name = spec.name ∧ index.unique = spec.unique := by
  obtain rfl := (gives_pure ..).mp given
  refine ⟨⟨rfl, rfl, by simpa using filled, ?_⟩, rfl, rfl⟩
  intro c member
  obtain ⟨name, _, rfl⟩ := List.mem_map.mp member
  rfl

end SqlSchema
