import SqlSchema.Definition
import SqlSchema.Proofs.Schema.Decode

/-! Tables decoded from trees. A table has what its tree has, part by part and in the same order, and what fails first
on the way through the tree is what is reported. -/
namespace SqlSchema
open Attempt

/-! What fails. -/

/-- A literal that is no number of its kind, or none that can be kept. -/
def Tree.Literal.Malformed (l : Tree.Literal) : NumberKind → Prop
  | .integer => l.kind = .integer ∧ ¬ l.TooLong ∧ ∀ n, integerOf? l.text.toList = some n → fitsWord n = false
  | .float => l.kind = .float ∧ (Decimal.read? l.text.toList).bind Decimal.toBinary64? = none

inductive Detail.Fails : Detail → Break Rejection → Prop
  | malformed (l : Tree.Literal) (kind : NumberKind) (malformed : l.Malformed kind) :
    Fails (.literal (some l)) (.rejected (.malformedNumber kind l.text))
  | interrupted (x : Detail) (i : Interruption) (interrupts : x.Interrupts i) : Fails x (.interrupted i)

theorem rejects_decodeInteger_iff (l : Tree.Literal) (integer : l.kind = .integer) (e : Rejection) :
    (decodeInteger l.text).Rejects e ↔ l.Malformed .integer ∧ e = .malformedNumber .integer l.text := by
  simp only [decodeInteger, Tree.Literal.Malformed, Tree.Literal.TooLong, integer, true_and]
  cases found : integerOf? l.text.toList with
  | none => simp
  | some n =>
    by_cases long : Interruption.digitLimit < numeralWidth l.text.toList
    · simp [long]
    · cases fits : fitsWord n with
      | true => simp [long, fits]
      | false => simp [long, fits]

theorem rejects_decodeFloat_iff (l : Tree.Literal) (float : l.kind = .float) (e : Rejection) :
    (decodeFloat l.text).Rejects e ↔ l.Malformed .float ∧ e = .malformedNumber .float l.text := by
  simp only [decodeFloat, Tree.Literal.Malformed, float, true_and]
  cases (Decimal.read? l.text.toList).bind Decimal.toBinary64? <;> simp

theorem rejects_literal_iff (l : Tree.Literal) (e : Rejection) :
    (Value.ofLiteral l).Rejects e ↔ ∃ kind, l.Malformed kind ∧ e = .malformedNumber kind l.text := by
  constructor
  · intro rejected
    cases kind : l.kind with
    | integer =>
      have broken : (decodeInteger l.text).Rejects e := by simpa [Value.ofLiteral, kind] using rejected
      exact ⟨.integer, (rejects_decodeInteger_iff l kind e).mp broken⟩
    | float =>
      have broken : (decodeFloat l.text).Rejects e := by simpa [Value.ofLiteral, kind] using rejected
      exact ⟨.float, (rejects_decodeFloat_iff l kind e).mp broken⟩
    | _ => simp [Value.ofLiteral, kind] at rejected
  · rintro ⟨number, malformed, rfl⟩
    cases number with
    | integer =>
      have broken := (rejects_decodeInteger_iff l malformed.1 _).mpr ⟨malformed, rfl⟩
      simpa [Value.ofLiteral, malformed.1] using broken
    | float =>
      have broken := (rejects_decodeFloat_iff l malformed.1 _).mpr ⟨malformed, rfl⟩
      simpa [Value.ofLiteral, malformed.1] using broken

theorem rejects_detail_iff (x : Detail) (e : Rejection) :
    x.decode.Rejects e ↔ ∃ l kind, x = .literal (some l) ∧ l.Malformed kind ∧ e = .malformedNumber kind l.text := by
  match x with
  | .literal none => simp [Detail.decode, Value.ofLiteral?]
  | .literal (some l) =>
    have literal : (Detail.literal (some l)).decode.Rejects e ↔ (Value.ofLiteral l).Rejects e := by
      simp [Detail.decode, Value.ofLiteral?]
    rw [literal, rejects_literal_iff]
    constructor
    · rintro ⟨kind, malformed, rfl⟩
      exact ⟨l, kind, rfl, malformed, rfl⟩
    · rintro ⟨_, kind, same, malformed, rfl⟩
      cases same
      exact ⟨kind, malformed, rfl⟩
  | .key k => cases k <;> simp [Detail.decode, KeyOption.ofTree]

theorem breaks_detail_iff (x : Detail) (b : Break Rejection) : x.decode.Breaks b ↔ x.Fails b := by
  cases b with
  | rejected e =>
    refine (rejects_detail_iff x e).trans ⟨?_, ?_⟩
    · rintro ⟨l, kind, rfl, malformed, rfl⟩
      exact .malformed l kind malformed
    · intro fails
      cases fails with
      | malformed l kind malformed => exact ⟨l, kind, rfl, malformed, rfl⟩
  | interrupted i =>
    refine (stops_detail x i).trans ⟨?_, ?_⟩
    · exact .interrupted x i
    · intro fails
      cases fails with
      | interrupted _ _ interrupts => exact interrupts

theorem decodes_detail_iff (x : Detail) : (∃ u, x.decode.Gives u) ↔ ∀ b, ¬ x.Fails b := by
  simp only [exists_gives_iff, breaks_detail_iff]

theorem ofCode_eq_other_iff (code other : Int) :
    Tree.KeyOption.ofCode code = .other other ↔ (code < 0 ∨ 5 < code) ∧ code = other := by
  unfold Tree.KeyOption.ofCode
  split
  case h_7 =>
    have outside : code < 0 ∨ 5 < code := by grind
    simp [outside]
  all_goals simp

theorem fails_key_iff (code : Int) (b : Break Rejection) :
    (Detail.key (.ofCode code)).Fails b ↔ (code < 0 ∨ 5 < code) ∧ b = .interrupted (.unknownKeyOption code) := by
  constructor
  · intro fails
    generalize key : Tree.KeyOption.ofCode code = k at fails
    cases fails with
    | interrupted _ _ interrupts =>
      cases interrupts with
      | key other =>
        obtain ⟨outside, rfl⟩ := (ofCode_eq_other_iff ..).mp key
        exact ⟨outside, rfl⟩
  · rintro ⟨outside, rfl⟩
    rw [(ofCode_eq_other_iff ..).mpr ⟨outside, rfl⟩]
    exact .interrupted _ _ (.key code)

/-! What is decoded. -/

/-- A column with the parts of its tree, each of them kept as it is or decoded. Keys go by their numbers. -/
structure Column.Decodes (c : Tree.Column) (column : Column) : Prop where
  name : column.name = c.name
  typeName : column.typeName = c.type.name
  unsigned : column.unsigned = c.type.unsigned
  notNull : column.notNull = c.type.notNull
  autoIncrement : column.autoIncrement = c.type.autoIncrement
  default : (Value.ofLiteral? c.type.default).Gives column.default
  length : (Value.ofLiteral? c.type.length).Gives column.length
  scale : (Value.ofLiteral? c.type.scale).Gives column.scale
  keyOption : c.type.keyOption = .ofCode column.keyOption.ordinal
  members : column.members = c.type.members

structure IndexColumn.Decodes (c : Tree.IndexColumn) (part : IndexColumn) : Prop where
  column : part.column = c.column
  length : (Value.ofLiteral? c.length).Gives part.length

structure Index.Decodes (i : Tree.Index) (index : Index) : Prop where
  name : index.name = i.name
  type : index.type = i.type
  columns : List.Forall₂ IndexColumn.Decodes i.columns index.columns
  primary : index.primary = i.primary
  unique : index.unique = i.unique

/-- A table with one column and one index for each in the tree, and with no others. -/
structure Table.Decodes (name : String) (body : Tree.TableBody) (table : Table) : Prop where
  name : table.name = name
  columns : List.Forall₂ Column.Decodes body.columns table.columns
  indexes : List.Forall₂ Index.Decodes body.indexes table.indexes

theorem gives_keyOption_iff (k : Tree.KeyOption) (o : KeyOption) :
    (KeyOption.ofTree k).Gives o ↔ k = .ofCode o.ordinal := by
  cases k with
  | other code => cases o <;> simp [KeyOption.ofTree, Tree.KeyOption.ofCode, KeyOption.ordinal]
  | _ => cases o <;> simp [KeyOption.ofTree, Tree.KeyOption.ofCode, KeyOption.ordinal]

theorem gives_column_iff (c : Tree.Column) (column : Column) :
    (Column.ofTree c).Gives column ↔ column.Decodes c := by
  simp only [Column.ofTree, gives_bind, gives_pure, gives_keyOption_iff]
  constructor
  · rintro ⟨default, first, length, second, scale, third, keyOption, key, rfl⟩
    exact ⟨rfl, rfl, rfl, rfl, rfl, first, second, third, key, rfl⟩
  · intro decodes
    refine ⟨_, decodes.default, _, decodes.length, _, decodes.scale, _, decodes.keyOption, ?_⟩
    rw [← decodes.name, ← decodes.typeName, ← decodes.unsigned, ← decodes.notNull, ← decodes.autoIncrement,
      ← decodes.members]

theorem gives_indexColumn_iff (c : Tree.IndexColumn) (column : IndexColumn) :
    (IndexColumn.ofTree c).Gives column ↔ column.Decodes c := by
  simp only [IndexColumn.ofTree, gives_bind, gives_pure]
  constructor
  · rintro ⟨length, decoded, rfl⟩
    exact ⟨rfl, decoded⟩
  · intro decodes
    refine ⟨_, decodes.length, ?_⟩
    rw [← decodes.column]

theorem gives_index_iff (i : Tree.Index) (index : Index) : (Index.ofTree i).Gives index ↔ index.Decodes i := by
  simp only [Index.ofTree, gives_bind, gives_pure, gives_mapM_iff, gives_indexColumn_iff]
  constructor
  · rintro ⟨columns, decoded, rfl⟩
    exact ⟨rfl, rfl, decoded, rfl, rfl⟩
  · intro decodes
    refine ⟨_, decodes.columns, ?_⟩
    rw [← decodes.name, ← decodes.type, ← decodes.primary, ← decodes.unique]

theorem gives_table_iff (name : String) (body : Tree.TableBody) (table : Table) :
    (Table.ofTree name body).Gives table ↔ table.Decodes name body := by
  simp only [Table.ofTree, gives_bind, gives_pure, gives_mapM_iff, gives_column_iff, gives_index_iff]
  constructor
  · rintro ⟨columns, first, indexes, second, rfl⟩
    exact ⟨rfl, first, second⟩
  · intro decodes
    refine ⟨_, decodes.columns, _, decodes.indexes, ?_⟩
    rw [← decodes.name]

theorem exists_table_iff (name : String) (body : Tree.TableBody) :
    (∃ table, (Table.ofTree name body).Gives table) ↔ ∀ x ∈ body.details, ∀ b, ¬ x.Fails b := by
  rw [exists_gives_congr _ _ (breaks_table name body), exists_gives_mapM_iff]
  simp only [decodes_detail_iff]

/-! What does not matter. -/

namespace Tree

def Column.bare (c : Column) : Column :=
  { c with type := { c.type with zerofill := false, comment := none, charset := "", collate := "" } }

def TableBody.bare (body : TableBody) : TableBody :=
  { columns := body.columns.map Column.bare, indexes := body.indexes }

/-- A statement without the parts of its table that are not decoded. -/
def SchemaStatement.bare (s : SchemaStatement) : SchemaStatement :=
  { s with newName := s.newName.map fun t => { name := t.name }
           body := s.body.map TableBody.bare }

end Tree

theorem Table.ofTree_bare (name : String) (body : Tree.TableBody) : ofTree name body.bare = ofTree name body := by
  have same : Column.ofTree ∘ Tree.Column.bare = Column.ofTree := rfl
  simp only [ofTree, Tree.TableBody.bare, List.mapM_map, same]

theorem Definition.ofTree_bare (text : String) (s : Tree.SchemaStatement) : ofTree text s.bare = ofTree text s := by
  obtain ⟨action, table, newName, body, index, indexColumns⟩ := s
  cases newName <;> cases body <;> simp [ofTree, Tree.SchemaStatement.bare, Table.ofTree_bare]

/-- A table is decoded unless a part of its tree fails, which a key option does if it is none of the six. It then has
what the tree has, in the same order. Otherwise the first part that fails on the way through the columns and on through
the indexes is reported. Nothing else about the statement matters. -/
theorem Table.ofTree_exact (name : String) (body : Tree.TableBody) :
    ((∃ table, (Table.ofTree name body).Gives table) ↔ ∀ x ∈ body.details, ∀ b, ¬ x.Fails b) ∧
      (∀ table, (Table.ofTree name body).Gives table ↔ table.Decodes name body) ∧
      (∀ b, (Table.ofTree name body).Breaks b ↔
        ∃ before x after, body.details = before ++ x :: after ∧ (∀ y ∈ before, ∀ b, ¬ y.Fails b) ∧ x.Fails b) ∧
      (∀ code b, (Detail.key (.ofCode code)).Fails b ↔
        (code < 0 ∨ 5 < code) ∧ b = .interrupted (.unknownKeyOption code)) ∧
      ∀ text s, Definition.ofTree text s.bare = Definition.ofTree text s := by
  refine ⟨exists_table_iff name body, gives_table_iff name body, fun b => ?_, fails_key_iff, Definition.ofTree_bare⟩
  rw [breaks_table, breaks_mapM]
  simp only [decodes_detail_iff, breaks_detail_iff]

end SqlSchema
