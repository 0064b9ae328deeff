import SqlSchema.Definition
import SqlSchema.Proofs.Written.Index

/-! Table definitions as they are written: the name of the table, perhaps with a qualifier, and columns and indexes in
any order between parentheses. -/
namespace SqlSchema.Written
open Text Reader

/-- The name of a table, perhaps with a qualifier. -/
structure TableName where
  qualifier : Option Name := none
  name : Name
deriving DecidableEq

namespace TableName

def chars (d : Dialect) (t : TableName) : List Char :=
  (t.qualifier.map fun n => n.quoted d ++ ['.']).getD [] ++ t.name.quoted d

def tree (t : TableName) : Tree.TableName :=
  { name := t.name.text, qualifier := (t.qualifier.map (·.text)).getD "" }

end TableName

/-- What stands between the parentheses of a table. -/
inductive Definition where
  | column (c : Column)
  | index (i : Index)
deriving DecidableEq

namespace Definition

def chars (d : Dialect) (gap : Nat) : Definition → List Char
  | .column c => c.chars d
  | .index i => i.chars d gap

def item : Definition → Rule.Item
  | .column c => .column c.tree
  | .index i => .index i.tree

def column? : Definition → Option Column
  | .column c => some c
  | .index _ => none

def index? : Definition → Option Index
  | .column _ => none
  | .index i => some i

end Definition

structure Table where
  name : TableName
  definitions : List Definition
  filled : definitions ≠ []
deriving DecidableEq

namespace Table

/-- The statement that creates the table, with so many spaces behind each comma. -/
def chars (d : Dialect) (gap : Nat) (t : Table) : List Char :=
  "CREATE".toList ++ (spaced ["TABLE"] ++ ' ' :: (t.name.chars d ++ ' ' :: '(' ::
    (joined gap (t.definitions.map (Definition.chars d gap)) ++ [')'])))

def columns (t : Table) : List Column := t.definitions.filterMap Definition.column?

def indexes (t : Table) : List Index := t.definitions.filterMap Definition.index?

def tree (t : Table) : Tree.SchemaStatement :=
  { action := Tree.Action.create
    newName := some t.name.tree
    body := some { columns := t.columns.map Column.tree, indexes := t.indexes.map Index.tree } }

/-- The table that is defined. -/
def decoded (t : Table) : SqlSchema.Table :=
  { name := t.name.name.text, columns := t.columns.map Column.decoded, indexes := t.indexes.map Index.decoded }

theorem gives_decoded (t : Table) (text : String) :
    (SqlSchema.Definition.ofTree text t.tree).Gives (.createTable text t.decoded) := by
  have columns := gives_mapM Column.tree Column.decoded Column.gives_decoded t.columns
  have indexes := gives_mapM Index.tree Index.decoded Index.gives_decoded t.indexes
  simp only [SqlSchema.Definition.ofTree, tree, if_true, Table.ofTree, Attempt.gives_bind, Attempt.gives_pure]
  exact ⟨_, ⟨_, columns, _, indexes, rfl⟩, rfl⟩

end Table
end SqlSchema.Written

namespace SqlSchema.Reader.Rule
open Text Written

variable {rest : List Char}

theorem takes_tableName (d : Dialect) (t : Written.TableName) (other : rest.head? ≠ some (nameMark d))
    (pointless : (mark '.').Refuses rest) :
    (table d).Takes (t.chars d ++ rest) t.tree rest := by
  obtain ⟨qualifier, name⟩ := t
  have own := takes_identifier d name other
  cases qualifier with
  | none =>
    have bare : (do
        let name ← identifier d
        mark '.'
        return name).Refuses (name.quoted d ++ rest) := own.refuses pointless.bind
    have whole : (tableName d).Takes (name.quoted d ++ rest) ("", name.text) rest :=
      bare.optional.bind (own.bind (takes_pure _ _))
    exact whole.bind (takes_pure _ _)
  | some q =>
    have split : TableName.chars d ⟨some q, name⟩ ++ rest = q.quoted d ++ '.' :: (name.quoted d ++ rest) := by
      simp [TableName.chars]
    have point : (mark '.').Takes ('.' :: (name.quoted d ++ rest)) () (name.quoted d ++ rest) :=
      takes_mark (by decide) (by decide)
    have ended : ('.' :: (name.quoted d ++ rest)).head? ≠ some (nameMark d) :=
      fun same => ne_nameMark d '.' (by simp) (Option.some.inj same)
    have front := takes_identifier d q ended
    have qualifier : (do
        let name ← identifier d
        mark '.'
        return name).Takes (q.quoted d ++ '.' :: (name.quoted d ++ rest)) q.text (name.quoted d ++ rest) :=
      front.bind (point.bind (takes_pure _ _))
    have whole : (tableName d).Takes (q.quoted d ++ '.' :: (name.quoted d ++ rest)) (q.text, name.text) rest :=
      qualifier.optional.bind (own.bind (takes_pure _ _))
    rw [split]
    exact whole.bind (takes_pure _ _)

theorem refuses_index (d : Dialect) {cs : List Char} (foreign : Foreign indexWords cs) : (index d).Refuses cs := by
  have fewer {words : List String} (subset : ∀ word ∈ words, word ∈ indexWords) : Foreign words cs :=
    fun word member => foreign word (subset word member)
  refine refuses_choice _ _ fun r member => ?_
  simp only [List.mem_cons, List.not_mem_nil, or_false] at member
  rcases member with rfl | rfl | rfl
  · exact openedBy_primaryIndex d _ (fewer (by decide))
  · exact openedBy_uniqueIndex d _ (fewer (by decide))
  · exact openedBy_plainIndex d _ (fewer (by decide))

theorem takes_item (d : Dialect) (gap : Nat) (x : Written.Definition) (closed : Closed rest) :
    (item d).Takes (x.chars d gap ++ rest) x.item rest := by
  cases x with
  | column c =>
    have other : (do return .index (← index d) : Rule Item).Refuses (c.chars d ++ rest) :=
      (refuses_index d (foreign_nameMark d)).bind
    exact other.choice (Takes.choice _ ((takes_column d c closed).bind (takes_pure _ _)))
  | index i => exact Takes.choice _ ((takes_index d gap i closed).bind (takes_pure _ _))

theorem column?_item (definitions : List Written.Definition) :
    (definitions.map Definition.item).filterMap Item.column? =
      (definitions.filterMap Written.Definition.column?).map Column.tree := by
  rw [List.filterMap_map, List.map_filterMap]
  congr
  funext x
  cases x <;> rfl

theorem index?_item (definitions : List Written.Definition) :
    (definitions.map Definition.item).filterMap Item.index? =
      (definitions.filterMap Written.Definition.index?).map Index.tree := by
  rw [List.filterMap_map, List.map_filterMap]
  congr
  funext x
  cases x <;> rfl

/-- A name between quotes behind a space is none of the keywords that may come in its place. -/
theorem named_table (d : Dialect) (t : Written.TableName) (rest : List Char) :
    Named d (' ' :: (t.chars d ++ rest)) := by
  refine ⟨nameMark d, by simp, ?_⟩
  obtain ⟨qualifier, name⟩ := t
  cases qualifier with
  | none => exact ⟨_, rfl⟩
  | some q => exact ⟨_, rfl⟩

/-- The name of a table behind a space, with another space behind it. -/
theorem takes_spacedTable (d : Dialect) (t : Written.TableName) (next : Char) (pointless : next ≠ '.')
    (seen : Cursor.isGap next = false) (rest : List Char) :
    (table d).Takes (' ' :: (t.chars d ++ ' ' :: next :: rest)) t.tree (' ' :: next :: rest) := by
  have parted : Parted (' ' :: next :: rest) := parted_cons ' ' _ (by decide)
  have bare : (mark '.').Refuses (' ' :: next :: rest) := (refuses_gap ' ' rfl).mpr (refuses_mark seen pointless)
  exact (takes_gap ' ' rfl).mpr (takes_tableName d t (Parted.ne_nameMark parted d) bare)

/-- The statement from the name of the table on. -/
theorem takes_create (d : Dialect) {cs mid : List Char} {name : Tree.TableName} {items : List Item}
    (always : (keyword "IF").Refuses (' ' :: cs)) (named : (table d).Takes (' ' :: cs) name mid)
    (listed : (parenthesized (listOf comma (item d))).Takes mid items []) :
    (statement d).Takes ("CREATE".toList ++ (spaced ["TABLE"] ++ ' ' :: cs))
      { action := Tree.Action.create
        newName := some name
        body := some { columns := items.filterMap Item.column?, indexes := items.filterMap Item.index? } } [] := by
  apply Takes.choice
  have create : (keyword "CREATE").Takes ("CREATE".toList ++ (spaced ["TABLE"] ++ ' ' :: cs)) ()
      (spaced ["TABLE"] ++ ' ' :: cs) :=
    takes_keyword (by decide) (touches_of_gap ' ' rfl)
  have permanent : (keyword "TEMPORARY").Refuses (spaced ["TABLE"] ++ ' ' :: cs) := by
    rw [spaced_cons]
    exact refuses_keyword_of_word (by decide) (by decide)
  have word : (keyword "TABLE").Takes (spaced ["TABLE"] ++ ' ' :: cs) () (' ' :: cs) :=
    takes_keywords (List.cons_ne_nil "TABLE" []) (by decide) (touches_of_gap ' ' rfl)
  have unconditional : (keywords ["IF", "NOT", "EXISTS"]).Refuses (' ' :: cs) := refuses_keywords _ always
  have optionless : rest.Refuses [] := refuses_recognised rfl rfl
  exact create.bind (permanent.optional.bind (word.bind (unconditional.optional.bind (named.bind (listed.bind
    (optionless.optional.bind (takes_pure _ _)))))))

theorem takes_createTable (d : Dialect) (gap : Nat) (t : Written.Table) :
    (statement d).Takes (t.chars d gap) t.tree [] := by
  have each : ∀ x ∈ t.definitions, ∀ rest, Closed rest → (item d).Takes (x.chars d gap ++ rest) x.item rest :=
    fun x _ _ closed => takes_item d gap x closed
  have items : (parenthesized (listOf comma (item d))).Takes
      (' ' :: '(' :: (joined gap (t.definitions.map (Definition.chars d gap)) ++ [')']))
      (t.definitions.map Definition.item) [] :=
    (takes_gap ' ' rfl).mpr (takes_parenthesized
      (takes_listOf gap (Definition.chars d gap) Definition.item t.definitions t.filled each))
  have name := takes_spacedTable d t.name '(' (by decide) (by decide)
    (joined gap (t.definitions.map (Definition.chars d gap)) ++ [')'])
  have named := named_table d t.name
    (' ' :: '(' :: (joined gap (t.definitions.map (Definition.chars d gap)) ++ [')']))
  have whole := takes_create d (named.refuses_keyword "IF" (by decide)) name items
  rwa [column?_item, index?_item] at whole

end SqlSchema.Reader.Rule
