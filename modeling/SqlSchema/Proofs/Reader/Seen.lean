import SqlSchema.Proofs.Reader.Similar
import SqlSchema.Proofs.Text.Lower
import SqlSchema.Reader.Statement

/-! What is seen of a tree. Names and literals look as their characters do, everything else is compared as it is, and
the options of a table are not looked at. -/
namespace SqlSchema.Reader.Comparison
open SqlSchema.Tree Rule

variable (k : Comparison)

def text (s : String) : String := String.ofList (s.toList.map k.see)

def literal (l : Literal) : Literal := { l with text := k.text l.text }

def columnType (t : ColumnType) : ColumnType :=
  { t with default := t.default.map k.literal
           length := t.length.map k.literal
           scale := t.scale.map k.literal
           comment := t.comment.map k.literal
           charset := k.text t.charset
           collate := k.text t.collate
           members := t.members.map k.text }

def attributed : Attribute → Attribute
  | .default value => .default (k.literal value)
  | .comment text => .comment (k.literal text)
  | .charset name => .charset (k.text name)
  | .collate name => .collate (k.text name)
  | kept => kept

def column (c : Tree.Column) : Tree.Column := ⟨k.text c.name, k.columnType c.type⟩

def indexColumn (c : Tree.IndexColumn) : Tree.IndexColumn := ⟨k.text c.column, c.length.map k.literal⟩

def index (i : Tree.Index) : Tree.Index := { i with name := k.text i.name, columns := i.columns.map k.indexColumn }

def item : Item → Item
  | .column c => .column (k.column c)
  | .index i => .index (k.index i)

def body (b : TableBody) : TableBody := { columns := b.columns.map k.column, indexes := b.indexes.map k.index }

def table (t : TableName) : TableName := ⟨k.text t.name, k.text t.qualifier⟩

def spec (s : IndexSpec) : IndexSpec := { s with name := k.text s.name }

def added (a : IndexSpec × List String) : IndexSpec × List String := (k.spec a.1, a.2.map k.text)

def alteration (a : Alteration) : Alteration := (a.1, a.2.map k.added)

def statement (s : SchemaStatement) : SchemaStatement :=
  { s with table := s.table.map k.table
           newName := s.newName.map k.table
           body := s.body.map k.body
           index := s.index.map k.spec
           indexColumns := s.indexColumns.map k.text }

variable {k}

theorem text_eq_iff {a b : String} : k.text a = k.text b ↔ a.toList.map k.see = b.toList.map k.see := by
  rw [text, text, String.ofList_inj]

theorem text_ofList (cs : List Char) : k.text (String.ofList cs) = String.ofList (cs.map k.see) := by
  rw [text, String.toList_ofList]

theorem isEmpty_text (s : String) : (k.text s).isEmpty = s.isEmpty := by
  have same : k.text s = "" ↔ s = "" := by
    rw [text, ← String.toList_inj, ← String.toList_inj, String.toList_ofList, String.toList_empty, List.map_eq_nil_iff]
  rw [Bool.eq_iff_iff, String.isEmpty_iff, String.isEmpty_iff, same]

/-- Words that look the same have one spelling in small letters. -/
theorem toLower_of_text {a b : String} (same : k.text a = k.text b) : a.toLower = b.toLower := by
  rw [Text.toLower_inj]
  exact Text.map_eq_of_coarser k.keeps (text_eq_iff.mp same)

theorem givenName?_map (name : Option String) : (givenName? name).map k.text = givenName? (name.map k.text) := by
  cases name with
  | none => rfl
  | some name =>
    simp only [givenName?, Option.filter, Option.map_some, isEmpty_text]
    split <;> rfl

theorem columnType_apply (type : ColumnType) (a : Attribute) :
    k.columnType (a.apply type) = (k.attributed a).apply (k.columnType type) := by
  cases a <;> rfl

theorem columnType_foldl (type : ColumnType) (attributes : List Attribute) :
    k.columnType (attributes.foldl Attribute.apply type) =
      (attributes.map k.attributed).foldl Attribute.apply (k.columnType type) := by
  induction attributes generalizing type with
  | nil => rfl
  | cons a more ih => rw [List.foldl_cons, ih, columnType_apply, List.map_cons, List.foldl_cons]

theorem filterMap_column? (items : List Item) :
    (items.filterMap Item.column?).map k.column = (items.map k.item).filterMap Item.column? := by
  rw [List.map_filterMap, List.filterMap_map]
  exact congrArg (List.filterMap · items) (funext fun i => by cases i <;> rfl)

theorem filterMap_index? (items : List Item) :
    (items.filterMap Item.index?).map k.index = (items.map k.item).filterMap Item.index? := by
  rw [List.map_filterMap, List.filterMap_map]
  exact congrArg (List.filterMap · items) (funext fun i => by cases i <;> rfl)

/-! Where all of a character is seen, all of a tree is. -/

variable {d e : Dialect}

@[simp] theorem text_exact : (exact d e).text = id := by
  funext s
  rw [text, exact, List.map_id, String.ofList_toList, id]

@[simp] theorem literal_exact : (exact d e).literal = id := by
  funext l
  simp [literal]

@[simp] theorem columnType_exact : (exact d e).columnType = id := by
  funext t
  simp [columnType]

@[simp] theorem column_exact : (exact d e).column = id := by
  funext c
  simp [column]

@[simp] theorem indexColumn_exact : (exact d e).indexColumn = id := by
  funext c
  simp [indexColumn]

@[simp] theorem index_exact : (exact d e).index = id := by
  funext i
  simp [index]

@[simp] theorem table_exact : (exact d e).table = id := by
  funext t
  simp [table]

@[simp] theorem spec_exact : (exact d e).spec = id := by
  funext s
  simp [spec]

/-- Of a whole statement only the options are missed. -/
theorem statement_exact (s : SchemaStatement) :
    (exact d e).statement s = { s with body := s.body.map fun b => { b with options := "" } } := by
  have same : (exact d e).body = fun b => { b with options := "" } := by
    funext b
    simp [body]
  simp [statement, same]

end SqlSchema.Reader.Comparison
