import SqlSchema.Proofs.Definition.Single
import SqlSchema.Proofs.Definition.Table
import SqlSchema.Proofs.Reader.Entries

/-! The columns of an index and its text. Where nothing is quoted, a text that defines an index has one list between
parentheses, and each of its parts is the name of a column with at most a direction behind it: nothing that is accepted
is left out. -/
namespace SqlSchema.Definition
open Text Attempt Reader

/-- The index that a definition adds to a table. -/
def index? : Definition → Option Index
  | .createTable _ _ => none
  | .createIndex _ _ index | .addIndex _ _ index | .addPrimaryKey _ _ index => some index

theorem columnNames_of_ofSpec {action : String} {spec : Option Tree.IndexSpec} {columns : List String} {index : Index}
    (given : (Index.ofSpec action spec columns).Gives index) : spec.isSome = true ∧ index.columnNames = columns := by
  cases spec with
  | none => simp [Index.ofSpec] at given
  | some spec =>
    simp only [Index.ofSpec, gives_pure] at given
    refine ⟨rfl, ?_⟩
    rw [← given, Index.columnNames, List.map_map]
    exact List.map_id columns

theorem columnNames_of_decoded {text : String} {s : Tree.SchemaStatement} {definition : Definition}
    (decoded : Decoded text s definition) {index : Index} (added : definition.index? = some index) :
    s.index.isSome = true ∧ index.columnNames = s.indexColumns := by
  cases decoded with
  | table => cases added
  | @index define table i found decoded =>
    have same : i = index := by
      unfold ofAction? at found
      split_ifs at found <;> cases Option.some.inj found <;> exact Option.some.inj added
    exact same ▸ columnNames_of_ofSpec decoded

/-! Counting parentheses. -/

theorem plain_of_listed {names : List String} {list : List Char} (listed : Rule.Listed Rule.EntryText names list) :
    '(' ∉ list ∧ ')' ∉ list := by
  induction listed with
  | one text => exact ⟨fun inside => (text.1 _ inside).1 rfl, fun inside => (text.1 _ inside).2.1 rfl⟩
  | more text _ ih =>
    simp only [List.mem_append, List.mem_cons, not_or]
    exact ⟨⟨fun inside => (text.1 _ inside).1 rfl, by decide, ih.1⟩,
      ⟨fun inside => (text.1 _ inside).2.1 rfl, by decide, ih.2⟩⟩

theorem count_eq_one {front list back : List Char} (flat : Flat front) (plain : '(' ∉ list ∧ ')' ∉ list)
    (ended : Flat back) :
    (front ++ '(' :: (list ++ ')' :: back)).count '(' = 1 ∧ (front ++ '(' :: (list ++ ')' :: back)).count ')' = 1 := by
  have opening {cs : List Char} (flat : Flat cs) : cs.count '(' = 0 :=
    List.count_eq_zero.mpr fun inside => (flat _ inside).1 rfl
  have closing {cs : List Char} (flat : Flat cs) : cs.count ')' = 0 :=
    List.count_eq_zero.mpr fun inside => (flat _ inside).2.1 rfl
  constructor
  · simp [List.count_append, opening flat, opening ended, List.count_eq_zero.mpr plain.1]
  · simp [List.count_append, closing flat, closing ended, List.count_eq_zero.mpr plain.2]

/-- Dropping a semicolon drops no parentheses. -/
theorem count_dropSemicolon (plain : List Char) {mark : Char} (seen : isBlank mark = false) (other : mark ≠ ';') :
    plain.count mark = (Tree.dropSemicolon plain).count mark := by
  obtain ⟨tail, split, ended⟩ := Tree.dropSemicolon_append plain
  have none : tail.count mark = 0 := by
    rw [List.count_eq_zero]
    rcases ended with rfl | ⟨gap, blank, rfl⟩
    · exact List.not_mem_nil
    · rw [List.mem_append, List.mem_singleton, not_or]
      refine ⟨fun inside => ?_, other⟩
      rw [blank mark inside] at seen
      contradiction
  conv_lhs => rw [split]
  rw [List.count_append, none, Nat.add_zero]

/-- A text that defines an index has one list between parentheses; cut at its commas, it has one part for each column,
and the words of a part are the name of the column and perhaps a direction. -/
theorem entries_of_index (d : Dialect) (text : String) (definition : Definition) (index : Index)
    (bare : Bare text.toList) (given : (read d text).Gives definition) (added : definition.index? = some index) :
    ∃ plain front body back, Statement.strip d text.toList = .ok plain ∧
      plain = front ++ '(' :: (body ++ ')' :: back) ∧ plain.count '(' = 1 ∧ plain.count ')' = 1 ∧
      List.Forall₂ Entry index.columnNames (body.splitOn ',') := by
  obtain ⟨s, parsed, decoded⟩ := (gives_read_iff ..).mp given
  obtain ⟨plain, stripped, _, found⟩ := (Tree.gives_schema_iff ..).mp parsed
  obtain ⟨there, names⟩ := columnNames_of_decoded (decoded_of_ofTree text s definition decoded) added
  have filled : Filled (Tree.dropSemicolon plain) (ruled plain) := filled_expandFrom 0 _
  have start := Tree.prefix_dropSemicolon plain
  have quiet : Bare (ruled plain) :=
    filled.forall_mem (by decide) fun c member => bare_strip stripped bare c (start.subset member)
  obtain ⟨first, list, last, whole, flat, ended, listed⟩ := Rule.amid_of_indexed quiet found there
  have free := plain_of_listed listed
  have parted := listed.sealed Rule.EntryText.sealed
  -- The tabs of the text are filled up only after its comments are gone.
  obtain ⟨body, original, filling⟩ := filled.enclosed (whole ▸ enclosed_of_flat flat parted)
  obtain ⟨more, split⟩ := start
  obtain ⟨front, back, around⟩ := exists_of_enclosed (split ▸ enclosed_append original more)
  have once := count_eq_one flat free ended
  rw [← whole, filled.count_eq (by decide) (by decide), filled.count_eq (by decide) (by decide)] at once
  have unopened : '(' ∉ body ∧ ')' ∉ body := by
    rw [← List.count_eq_zero, ← List.count_eq_zero, ← filling.count_eq (by decide) (by decide),
      ← filling.count_eq (by decide) (by decide), List.count_eq_zero, List.count_eq_zero]
    exact free
  refine ⟨plain, front, body, back, stripped, around, ?_, ?_, ?_⟩
  · rw [count_dropSemicolon plain (by decide) (by decide), once.1]
  · rw [count_dropSemicolon plain (by decide) (by decide), once.2]
  · have pieces := listed.cutCommas Rule.EntryText.sealed
    rw [names, ← cutCommas_eq_splitOn unopened]
    refine forall₂_through (C := Eq) ?_ pieces (filling.cutCommas 0) (List.forall₂_refl _)
    rintro name part piece _ text filled rfl
    have entry : Entry name part := text.2
    rwa [Entry, filled.words] at entry

/-- A method, a direction and a tab between the columns. -/
theorem entries_of_index_directed :
    ∃ text definition index, text = "CREATE UNIQUE INDEX i ON s.t USING btree ( a DESC,\tb ) ;" ∧ Bare text.toList ∧
      (read .postgres text).Gives definition ∧ definition.index? = some index ∧ index.columnNames = ["a", "b"] ∧
      ∃ plain front body back, Statement.strip .postgres text.toList = .ok plain ∧
        plain = front ++ '(' :: (body ++ ')' :: back) ∧ plain.count '(' = 1 ∧ plain.count ')' = 1 ∧
        List.Forall₂ Entry index.columnNames (body.splitOn ',') := by
  have bare : Bare "CREATE UNIQUE INDEX i ON s.t USING btree ( a DESC,\tb ) ;".toList := by decide +kernel
  have given : (read .postgres "CREATE UNIQUE INDEX i ON s.t USING btree ( a DESC,\tb ) ;").Gives
      (.createIndex "CREATE UNIQUE INDEX i ON s.t USING btree ( a DESC,\tb ) ;" "t"
        { name := "i", type := "", unique := true, columns := [{ column := "a" }, { column := "b" }] }) := by
    decide +kernel
  exact ⟨_, _, _, rfl, bare, given, rfl, rfl, entries_of_index .postgres _ _ _ bare given rfl⟩

end SqlSchema.Definition
