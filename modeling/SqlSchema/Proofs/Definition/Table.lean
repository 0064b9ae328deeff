import SqlSchema.Proofs.Definition
import SqlSchema.Proofs.Definition.Untouched
import SqlSchema.Proofs.Reader.Passed
import SqlSchema.Proofs.Reader.Shaped
import SqlSchema.Proofs.Statement.Kept
import SqlSchema.Proofs.Tree

/-! The definitions of a table and its text. Where nothing is quoted, the commas between the parentheses of the text
part the definitions: each of them gives one column or one index, in the order in which they are written. -/
namespace SqlSchema
open Text Attempt Reader
open SqlSchema.Tree (prefix_dropSemicolon)

/-! Decoding. -/

theorem Column.name_of_ofTree (c : Tree.Column) (column : Column) (given : (Column.ofTree c).Gives column) :
    column.name = c.name := by
  simp only [Column.ofTree, gives_bind, gives_pure] at given
  obtain ⟨_, _, _, _, _, _, _, _, rfl⟩ := given
  rfl

theorem Index.columns_of_ofTree (i : Tree.Index) (index : Index) (given : (Index.ofTree i).Gives index) :
    List.Forall₂ (fun part column => column.column = part.column) i.columns index.columns := by
  simp only [Index.ofTree, gives_bind, gives_pure] at given
  obtain ⟨columns, decoded, rfl⟩ := given
  refine forall₂_mapM (fun part column here => ?_) decoded
  simp only [IndexColumn.ofTree, gives_bind, gives_pure] at here
  obtain ⟨_, _, rfl⟩ := here
  rfl

namespace Definition

/-- A table is defined by a tree with a body. -/
theorem body_of_ofTree {text statement : String} {s : Tree.SchemaStatement} {table : Table}
    (given : (ofTree text s).Gives (.createTable statement table)) :
    ∃ body, s.body = some body ∧ (body.columns.mapM Column.ofTree).Gives table.columns ∧
      (body.indexes.mapM Index.ofTree).Gives table.indexes := by
  generalize same : Definition.createTable statement table = definition at given
  cases decoded_of_ofTree text s definition given with
  | @table name body table filled decoded =>
    cases same
    simp only [Table.ofTree, gives_bind, gives_pure] at decoded
    obtain ⟨columns, first, indexes, second, rfl⟩ := decoded
    exact ⟨body, filled, first, second⟩
  | index found =>
    unfold ofAction? at found
    split_ifs at found <;> cases Option.some.inj found <;> cases same

/-! Texts of definitions. -/

/-- The name that a text begins with, behind white space. -/
def leadingName (cs : List Char) : List Char := (trimLeft cs).takeWhile Rule.isNamePart

/-- The text gives the column or the index: a column has the first word for its name, and an index has one column for
each part of the list between the first parentheses, with the name that the part begins with. -/
inductive Describes : List Char → Column ⊕ Index → Prop
  | column {cs c} (name : firstWord cs = c.name.toList) : Describes cs (.inl c)
  | index {cs i list} (listed : enclosed cs = some list)
    (parts : List.Forall₂ (fun part (column : IndexColumn) => leadingName part = column.column.toList)
      (cutCommas 0 list) i.columns) : Describes cs (.inr i)

theorem takeWhile_of_leads {stop p : Char → Bool} {name : String} {cs : List Char} (leads : Rule.Leads stop name cs)
    (kept : ∀ c, Rule.isNamePart c = true → p c = true) (stops : ∀ c, stop c = true → p c = false) :
    (trimLeft cs).takeWhile p = name.toList := by
  obtain ⟨gap, rest, rfl, blank, filled, parts, ended⟩ := leads
  have trimmed : trimLeft (gap ++ (name.toList ++ rest)) = name.toList ++ rest := by
    obtain ⟨first, more, letters⟩ := List.exists_cons_of_ne_nil filled
    rw [trimLeft, List.dropWhile_append_of_pos fun c member => Tree.isBlank_of_isGap c (blank c member), letters,
      List.cons_append, List.dropWhile_cons_of_neg]
    simp [Rule.isBlank_of_isNamePart first (parts first (by simp [letters]))]
  have finished : rest.takeWhile p = [] := by
    cases rest with
    | nil => rfl
    | cons c more => exact List.takeWhile_cons_of_neg (by simp [stops c (ended c rfl)])
  rw [trimmed, List.takeWhile_append_of_pos fun c member => kept c (parts c member), finished, List.append_nil]

theorem describes_column {piece filling : List Char} (filled : Filled piece filling) {c : Tree.Column} {column : Column}
    (text : Rule.ColumnText c filling) (name : column.name = c.name) : Describes piece (.inl column) := by
  have first := takeWhile_of_leads (p := (!isBlank ·)) text.2 (fun d part => by simp [Rule.isBlank_of_isNamePart d part])
    fun d gap => by simp [Tree.isBlank_of_isGap d gap]
  exact .column (by rw [name, ← first, ← filled.firstWord, firstWord])

/-- Two lists that agree with a third one in the middle agree. -/
theorem forall₂_through {α β γ δ : Type} {A : α → β → Prop} {B : γ → β → Prop} {C : γ → δ → Prop} {D : α → δ → Prop}
    (each : ∀ a b c d, A a b → B c b → C c d → D a d) {front : List α} {middle : List β} {other : List γ}
    {back : List δ} (first : List.Forall₂ A front middle) (second : List.Forall₂ B other middle)
    (third : List.Forall₂ C other back) : List.Forall₂ D front back := by
  induction first generalizing other back with
  | nil =>
    cases second
    cases third
    exact .nil
  | cons here _ ih =>
    cases second with
    | cons there others =>
      cases third with
      | cons last more => exact .cons (each _ _ _ _ here there last) (ih others more)

theorem describes_index {piece filling : List Char} (filled : Filled piece filling) {i : Tree.Index} {index : Index}
    (text : Rule.ListText i.columns filling)
    (names : List.Forall₂ (fun part column => column.column = part.column) i.columns index.columns) :
    Describes piece (.inr index) := by
  obtain ⟨front, list, back, rfl, flat, _, listed⟩ := text
  have kept (part : Tree.IndexColumn) (cs : List Char) (text : Rule.PartText part cs) : Sealed false cs := text.1
  obtain ⟨original, found, inside⟩ := filled.enclosed (enclosed_of_flat flat (listed.sealed kept))
  refine .index found (forall₂_through ?_ (inside.cutCommas 0) (listed.cutCommas kept) names)
  intro entry cs part column filled text name
  have first :=
    takeWhile_of_leads (p := Rule.isNamePart) text.2 (fun d part => part) fun d other => by simpa using other
  rw [name, ← first, leadingName]
  exact (filled.trimLeft.takeWhile Rule.isNamePart (by decide) (by decide)).symm

/-- The parts of a text are labelled by the columns and indexes that they give. -/
theorem describes_items {pieces fillings : List (List Char)} {items : List Rule.Item} {columns : List Column}
    {indexes : List Index} (filled : List.Forall₂ Filled pieces fillings)
    (texts : List.Forall₂ Rule.ItemText items fillings)
    (first : List.Forall₂ (fun c column => column.name = c.name) (items.filterMap Rule.Item.column?) columns)
    (second : List.Forall₂ (fun i index => List.Forall₂ (fun part column => column.column = part.column) i.columns
      index.columns) (items.filterMap Rule.Item.index?) indexes) :
    ∃ labels, List.Forall₂ Describes pieces labels ∧ labels.filterMap Sum.getLeft? = columns ∧
      labels.filterMap Sum.getRight? = indexes ∧ pieces.length = columns.length + indexes.length := by
  induction filled generalizing items columns indexes with
  | nil =>
    cases texts
    cases first
    cases second
    exact ⟨[], .nil, rfl, rfl, rfl⟩
  | cons here _ ih =>
    cases texts with
    | @cons item _ others _ text more =>
      cases item with
      | column c =>
        cases first with
        | cons name later =>
          obtain ⟨labels, described, left, right, size⟩ := ih more later second
          refine ⟨_ :: labels, .cons (describes_column here text name) described, ?_, ?_, ?_⟩
          · exact congrArg (List.cons _) left
          · exact right
          · rw [List.length_cons, List.length_cons, size]
            omega
      | index i =>
        cases second with
        | cons names later =>
          obtain ⟨labels, described, left, right, size⟩ := ih more first later
          refine ⟨_ :: labels, .cons (describes_index here text names) described, ?_, ?_, ?_⟩
          · exact left
          · exact congrArg (List.cons _) right
          · rw [List.length_cons, List.length_cons, size]
            omega

/-- Without quotes in a text there are none in what is left of it. -/
theorem bare_strip {d : Dialect} {cs plain : List Char} (stripped : Statement.strip d cs = .ok plain) (bare : Bare cs) :
    Bare plain := by
  refine Statement.forall_strip (P := (· ∉ quotes)) (by decide) (fun c ended => ?_) stripped bare
  simp only [isLineEnd, Bool.or_eq_true, beq_iff_eq] at ended
  rcases ended with rfl | rfl <;> decide

/-- The definitions of a table are the parts between the first parentheses of its text, without comments, that the
commas outside inner parentheses cut: one column or index for each of them, in their order. -/
theorem describes_createTable (d : Dialect) (text statement : String) (table : Table) (bare : Bare text.toList)
    (given : (read d text).Gives (.createTable statement table)) :
    ∃ plain body labels, Statement.strip d text.toList = .ok plain ∧ enclosed plain = some body ∧
      List.Forall₂ Describes (cutCommas 0 body) labels ∧ labels.filterMap Sum.getLeft? = table.columns ∧
      labels.filterMap Sum.getRight? = table.indexes ∧
      (cutCommas 0 body).length = table.columns.length + table.indexes.length := by
  simp only [read, gives_adapt, ofText, gives_bind] at given
  obtain ⟨tree, parsed, given⟩ := given
  cases tree with
  | other kind rest => simp at given
  | schema s =>
    obtain ⟨tableBody, filled, columns, indexes⟩ := body_of_ofTree given
    obtain ⟨plain, stripped, _, found⟩ := (Tree.gives_schema_iff d text s).mp parsed
    obtain ⟨after, reads, _⟩ := (Rule.readAll_eq_ok ..).mp found
    have created : (Rule.createTable d).Reads (Cursor.start (expandTabs (Tree.dropSemicolon plain))) s after := by
      rcases Rule.statement_cases d _ after s reads with table | tableless | ⟨rfl, _⟩
      · exact table
      · rw [tableless.2] at filled
        contradiction
      · contradiction
    -- Without quotes in the text there are none in what is read.
    have start := prefix_dropSemicolon plain
    have quiet : Bare (expandTabs (Tree.dropSemicolon plain)) :=
      (filled_expandFrom 0 _).forall_mem (by decide) fun c member => bare_strip stripped bare c (start.subset member)
    obtain ⟨passed, whole, items, front, list, back, b, rfl, flat, listed, same, first, second⟩ :=
      Rule.passes_createTable d _ s after quiet created
    rw [filled] at same
    cases same
    change expandTabs (Tree.dropSemicolon plain) = _ at whole
    have kept (item : Rule.Item) (cs : List Char) (text : Rule.ItemText item cs) : Sealed false cs := text.sealed
    have inside : enclosed (expandTabs (Tree.dropSemicolon plain)) = some list := by
      rw [whole, List.append_assoc, List.cons_append, List.append_assoc, List.cons_append]
      exact enclosed_of_flat flat (listed.sealed kept)
    obtain ⟨body, original, filling⟩ := (filled_expandFrom 0 _).enclosed inside
    obtain ⟨labels, described, left, right, size⟩ := describes_items (filling.cutCommas 0) (listed.cutCommas kept)
      (first ▸ forall₂_mapM Column.name_of_ofTree columns) (second ▸ forall₂_mapM Index.columns_of_ofTree indexes)
    obtain ⟨more, split⟩ := start
    exact ⟨plain, body, labels, stripped, split ▸ enclosed_append original more, described, left, right, size⟩

/-- A column with a comma in its size, and an index on two columns. -/
def twoPieces : Table where
  name := "t"
  columns := [{ name := "a", typeName := "dec", length := some (.integer "3" 3), scale := some (.integer "1" 1) }]
  indexes := [{ name := "", type := "key", columns := [{ column := "a" }, { column := "b" }] }]

theorem describes_createTable_pieces :
    ∃ text, text = "CREATE TABLE t (a dec(3,1), KEY (a, b))" ∧ Bare text.toList ∧
      (read .mysql text).Gives (.createTable text twoPieces) ∧
      ∃ plain body labels, Statement.strip .mysql text.toList = .ok plain ∧ enclosed plain = some body ∧
        List.Forall₂ Describes (cutCommas 0 body) labels ∧ labels.filterMap Sum.getLeft? = twoPieces.columns ∧
        labels.filterMap Sum.getRight? = twoPieces.indexes ∧ (cutCommas 0 body).length = 2 := by
  have bare : Bare "CREATE TABLE t (a dec(3,1), KEY (a, b))".toList := by decide +kernel
  have given : (read .mysql "CREATE TABLE t (a dec(3,1), KEY (a, b))").Gives
      (.createTable "CREATE TABLE t (a dec(3,1), KEY (a, b))" twoPieces) := by
    rw [read_of_untouched (by decide +kernel)]
    decide +kernel
  exact ⟨_, rfl, bare, given, describes_createTable .mysql _ _ twoPieces bare given⟩

end Definition
end SqlSchema
