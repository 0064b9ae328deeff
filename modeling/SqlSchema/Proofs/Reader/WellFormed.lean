import SqlSchema.Proofs.Reader.Column
import SqlSchema.Proofs.Reader.Keyword
import SqlSchema.Proofs.Schema.WellFormed
import SqlSchema.Proofs.Text.Lower

/-! Well-formed trees. Whatever the rules for columns, indexes and tables read is in order, rule by rule. -/
namespace SqlSchema.Reader.Rule
open SqlSchema.Tree Text

/-! Names of types. -/

theorem isTypeName_of_longType : ∀ words ∈ longTypes, IsTypeName (" ".intercalate words) := by
  have parts : ∀ words ∈ longTypes, words ≠ [] ∧
      (∀ word ∈ words, word.toList ≠ [] ∧ word.toList.all isTypePart = true) ∧
      (" ".intercalate words).toList = [' '].intercalate (words.map String.toList) := by decide
  intro words member
  obtain ⟨filled, small, joined⟩ := parts words member
  refine ⟨words.map String.toList, by simpa using filled, ?_, joined⟩
  rwa [List.forall_mem_map]

theorem isTypePart_of_isPlainWord (c : Char) (plain : isPlainWord c = true) : isTypePart c.toLower = true :=
  forall_ascii (P := fun c => isPlainWord c = true → isTypePart c.toLower = true) (by decide) c
    (ascii_of_isPlainWord c plain) plain

theorem isTypeName_typeName : typeName.Yields IsTypeName := by
  apply yields_choice
  intro r member
  rcases List.mem_append.mp member with long | short
  · obtain ⟨words, inside, rfl⟩ := List.mem_map.mp long
    exact yields_constant _ words (isTypeName_of_longType words inside)
  · obtain rfl := List.mem_singleton.mp short
    intro c name after found
    obtain ⟨word, _, reads, same⟩ := (reads_bind ..).mp found
    obtain ⟨rfl, _⟩ := (reads_pure ..).mp same
    obtain ⟨first, more, _, start, rfl, _⟩ := (reads_word ..).mp reads
    refine ⟨[(first :: more.takeWhile isPlainWord).map Char.toLower], by simp, ?_, by simp [toList_toLower, lower]⟩
    rw [List.forall_mem_singleton, List.all_map, List.all_eq_true, List.forall_mem_cons]
    refine ⟨by simp, isTypePart_of_isPlainWord first (isPlainWord_of_isWordStart first start), ?_⟩
    exact fun c member => isTypePart_of_isPlainWord c (List.mem_takeWhile_imp member)

/-! Columns. -/

theorem kind_sized (kind : LiteralKind) (name : String) (size? : List Char → Option Nat) :
    (sized kind name size?).Yields fun l => l.kind = kind := by
  intro c l after found
  rw [sized, reads_recognised] at found
  obtain ⟨_, recognised, _⟩ := found
  obtain ⟨_, _, same⟩ := Option.map_eq_some_iff.mp recognised
  cases same
  rfl

theorem integral_integer : integer.Yields fun l => l.kind = .integer := kind_sized _ _ _

theorem integral_size : size.Yields fun s => s.1.kind = .integer ∧ ∀ l ∈ s.2, l.kind = .integer := by
  refine yields_parenthesized _ ?_
  refine yields_bind _ _ integral_integer fun length whole => ?_
  refine yields_bind _ _ (yields_optional _ (yields_then _ _ fun _ => integral_integer)) fun scale finer => ?_
  exact yields_pure _ ⟨whole, finer⟩

theorem wellFormed_columnType (d : Dialect) : (columnType d).Yields ColumnType.WellFormed := by
  apply yields_choice
  simp only [List.forall_mem_cons]
  refine ⟨?_, ?_, List.forall_mem_nil _⟩
  · have named : (choice (.choice [.keyword "ENUM", .keyword "SET"])
        [constant "enum" ["ENUM"], constant "set" ["SET"]]).Yields fun name => name = "enum" ∨ name = "set" := by
      apply yields_choice
      simp only [List.forall_mem_cons]
      exact ⟨yields_constant _ _ (.inl rfl), yields_constant _ _ (.inr rfl), List.forall_mem_nil _⟩
    refine yields_bind _ _ named fun name known => yields_then _ _ fun members => yields_pure _ ?_
    have isTypeName : IsTypeName name := by
      rcases known with rfl | rfl
      · exact ⟨["enum".toList], by decide, by decide, by decide⟩
      · exact ⟨["set".toList], by decide, by decide, by decide⟩
    exact ⟨isTypeName, nofun, nofun, nofun, fun _ => ⟨known, rfl, rfl⟩⟩
  · refine yields_bind _ _ isTypeName_typeName fun name isTypeName => ?_
    refine yields_bind _ _ (yields_optional _ integral_size) fun size integral => yields_pure _ ?_
    cases size with
    | none => exact ⟨isTypeName, nofun, nofun, nofun, fun listed => absurd rfl listed⟩
    | some size =>
      obtain ⟨length, scale⟩ := integral size rfl
      refine ⟨isTypeName, ?_, scale, fun _ => rfl, fun listed => absurd rfl listed⟩
      rintro l ⟨rfl⟩
      exact length

/-- Attributes leave the name, the sizes and the members of a type alone. -/
theorem wellFormed_foldl (attributes : List Attribute) (type : ColumnType) (formed : type.WellFormed) :
    (attributes.foldl Attribute.apply type).WellFormed := by
  induction attributes generalizing type with
  | nil => exact formed
  | cons a rest ih =>
    refine ih (a.apply type) ?_
    cases a <;> exact ⟨formed.name, formed.length, formed.scale, formed.scaled, formed.members⟩

theorem wellFormed_column (d : Dialect) : (column d).Yields fun c => c.type.WellFormed := by
  refine yields_then _ _ fun _ => yields_then _ _ fun name => ?_
  refine yields_bind _ _ (wellFormed_columnType d) fun type formed => ?_
  refine yields_then _ _ fun unsigned => yields_then _ _ fun zerofill => yields_then _ _ fun attributes => ?_
  refine yields_pure _ (wellFormed_foldl attributes _ ?_)
  exact ⟨formed.name, formed.length, formed.scale, formed.scaled, formed.members⟩

/-! Indexes. -/

/-- One or more columns of an index, with whole numbers for their lengths. -/
def AreIndexColumns (columns : List Tree.IndexColumn) : Prop :=
  columns ≠ [] ∧ ∀ c ∈ columns, ∀ l ∈ c.length, l.kind = .integer

theorem areIndexColumns_indexColumns (d : Dialect) : (indexColumns d).Yields AreIndexColumns := by
  refine yields_parenthesized _ (yields_listOf comma _ ?_)
  refine yields_then _ _ fun column => ?_
  refine yields_bind _ _ (yields_optional _ (yields_parenthesized _ integral_integer)) fun length integral => ?_
  exact yields_then _ _ fun _ => yields_pure _ integral

theorem areIndexColumns_indexBody (d : Dialect) : (indexBody d).Yields fun body => AreIndexColumns body.2 := by
  refine yields_then _ _ fun name => yields_then _ _ fun _ => ?_
  refine yields_bind _ _ (areIndexColumns_indexColumns d) fun columns listed => ?_
  exact yields_then _ _ fun _ => yields_pure _ listed

theorem givenName?_getD_ne (name : Option String) (other : String) (filled : other ≠ "") :
    (givenName? name).getD other ≠ "" := by
  cases found : givenName? name with
  | none => exact filled
  | some given =>
    obtain ⟨_, some⟩ := Option.filter_eq_some_iff.mp found
    simpa using some

theorem wellFormed_primaryIndex (d : Dialect) : (primaryIndex d).Yields Tree.Index.WellFormed := by
  refine yields_then _ _ fun constraint => yields_then _ _ fun _ => yields_then _ _ fun _ => ?_
  refine yields_bind _ _ (areIndexColumns_indexColumns d) fun columns listed => yields_then _ _ fun _ => ?_
  exact yields_pure _ ⟨listed.1, listed.2, by simp, by simp, fun _ => givenName?_getD_ne _ _ (by decide)⟩

/-- The types of unique indexes. -/
theorem unique_uniqueType : uniqueType.Yields fun type => type ≠ "primary key" ∧ "unique".toList <+: type.toList := by
  apply yields_choice
  simp only [List.forall_mem_cons]
  exact ⟨yields_constant _ _ (by decide), yields_constant _ _ (by decide), yields_constant _ _ (by decide),
    List.forall_mem_nil _⟩

/-- The types of other indexes, told by their first letter. -/
theorem plain_keyType :
    keyType.Yields fun type => type ≠ "primary key" ∧ ¬ "unique".toList <+: type.toList := by
  have letter (type : String) (first : Char) (begins : type.toList.head? = some first)
      (other : first ≠ 'p' ∧ first ≠ 'u') : type ≠ "primary key" ∧ ¬ "unique".toList <+: type.toList := by
    refine ⟨fun same => ?_, fun longer => ?_⟩
    · rw [same] at begins
      exact other.1 (Option.some.inj begins).symm
    · obtain ⟨more, split⟩ := longer
      rw [← split] at begins
      exact other.2 (Option.some.inj begins).symm
  apply yields_choice
  simp only [List.forall_mem_cons]
  refine ⟨?_, yields_constant _ _ (by decide), yields_constant _ _ (by decide), List.forall_mem_nil _⟩
  have kind : (choice (.choice [.keyword "SPATIAL", .keyword "FULLTEXT"])
      [constant "spatial" ["SPATIAL"], constant "fulltext" ["FULLTEXT"]]).Yields
        fun kind => kind = "spatial" ∨ kind = "fulltext" := by
    apply yields_choice
    simp only [List.forall_mem_cons]
    exact ⟨yields_constant _ _ (.inl rfl), yields_constant _ _ (.inr rfl), List.forall_mem_nil _⟩
  refine yields_bind _ _ kind fun kind known => yields_then _ _ fun word => ?_
  cases word with
  | none =>
    refine yields_pure _ ?_
    rcases known with rfl | rfl <;> decide
  | some word =>
    refine yields_pure _ ?_
    rcases known with rfl | rfl
    · exact letter _ 's' (by simp [String.toList_append]) (by decide)
    · exact letter _ 'f' (by simp [String.toList_append]) (by decide)

theorem wellFormed_uniqueIndex (d : Dialect) : (uniqueIndex d).Yields Tree.Index.WellFormed := by
  refine yields_then _ _ fun constraint => ?_
  refine yields_bind _ _ unique_uniqueType fun type unique => ?_
  refine yields_bind _ _ (areIndexColumns_indexBody d) ?_
  rintro ⟨name, columns⟩ listed
  exact yields_pure _ ⟨listed.1, listed.2, by simp [unique.1], iff_of_true rfl (.inr unique.2), nofun⟩

theorem wellFormed_plainIndex (d : Dialect) : (plainIndex d).Yields Tree.Index.WellFormed := by
  refine yields_bind _ _ plain_keyType fun type plain => ?_
  refine yields_bind _ _ (areIndexColumns_indexBody d) ?_
  rintro ⟨name, columns⟩ listed
  refine yields_pure _ ⟨listed.1, listed.2, by simp [plain.1], iff_of_false nofun ?_, nofun⟩
  rintro (⟨⟨⟩⟩ | begins)
  exact plain.2 begins

theorem wellFormed_index (d : Dialect) : (index d).Yields Tree.Index.WellFormed := by
  apply yields_choice
  simp only [List.forall_mem_cons]
  exact ⟨wellFormed_primaryIndex d, wellFormed_uniqueIndex d, wellFormed_plainIndex d, List.forall_mem_nil _⟩

/-! Statements. -/

def Item.WellFormed : Item → Prop
  | .column c => c.type.WellFormed
  | .index i => i.WellFormed

theorem wellFormed_item (d : Dialect) : (item d).Yields Item.WellFormed := by
  apply yields_choice
  simp only [List.forall_mem_cons]
  refine ⟨?_, ?_, List.forall_mem_nil _⟩
  · exact yields_bind _ _ (wellFormed_index d) fun i formed => yields_pure _ formed
  · exact yields_bind _ _ (wellFormed_column d) fun c formed => yields_pure _ formed

theorem wellFormed_body (items : List Item) (options : String) (filled : items ≠ [])
    (formed : ∀ item ∈ items, item.WellFormed) : TableBody.WellFormed
      { columns := items.filterMap Item.column?, indexes := items.filterMap Item.index?, options } := by
  refine ⟨?_, ?_, ?_⟩
  · obtain ⟨first, more, rfl⟩ := List.exists_cons_of_ne_nil filled
    cases first with
    | column c => exact .inl (by simp [Item.column?])
    | index i => exact .inr (by simp [Item.index?])
  · intro c member
    obtain ⟨item, inside, found⟩ := List.mem_filterMap.mp member
    cases item <;> cases found
    exact formed _ inside
  · intro i member
    obtain ⟨item, inside, found⟩ := List.mem_filterMap.mp member
    cases item <;> cases found
    exact formed _ inside

/-- A primary key that is added is unique and has a name. -/
def Alteration.Named (a : Alteration) : Prop :=
  a.1 = Action.addPrimaryKey → ∀ added ∈ a.2, added.1.unique = true ∧ added.1.name ≠ ""

theorem named_alteration (d : Dialect) : (alteration d).Yields Alteration.Named := by
  have other : Action.addIndex ≠ Action.addPrimaryKey := by decide
  apply yields_choice
  simp only [List.forall_mem_cons]
  refine ⟨?_, ?_, ?_, ?_, List.forall_mem_nil _⟩
  · refine yields_then _ _ fun _ => yields_then _ _ fun name => yields_then _ _ fun _ => yields_then _ _ fun _ => ?_
    refine yields_then _ _ fun columns => yields_then _ _ fun _ => yields_then _ _ fun _ => yields_pure _ ?_
    rintro _ added ⟨rfl⟩
    exact ⟨rfl, givenName?_getD_ne _ _ (by decide)⟩
  · refine yields_then _ _ fun _ => yields_then _ _ fun _ => yields_then _ _ fun name => yields_then _ _ fun _ => ?_
    refine yields_then _ _ fun _ => yields_then _ _ fun _ => yields_then _ _ fun columns => ?_
    exact yields_then _ _ fun _ => yields_then _ _ fun _ => yields_pure _ fun same => absurd same other
  · refine yields_then _ _ fun _ => yields_then _ _ fun unique => yields_then _ _ fun name => ?_
    refine yields_then _ _ fun _ => yields_then _ _ fun columns => yields_then _ _ fun _ => yields_then _ _ fun _ => ?_
    exact yields_pure _ fun same => absurd same other
  · exact yields_then _ _ fun _ => yields_then _ _ fun text => yields_pure _ fun _ => nofun

theorem wellFormed_createTable (d : Dialect) : (createTable d).Yields SchemaStatement.WellFormed := by
  refine yields_then _ _ fun _ => yields_then _ _ fun _ => yields_then _ _ fun _ => yields_then _ _ fun _ => ?_
  refine yields_then _ _ fun newName => ?_
  refine yields_bind _ _ (yields_parenthesized _ (yields_listOf comma _ (wellFormed_item d))) fun items formed => ?_
  refine yields_then _ _ fun options => yields_pure _ ⟨?_, fun _ => nofun⟩
  rintro body ⟨rfl⟩
  exact wellFormed_body items _ formed.1 formed.2

theorem wellFormed_createIndex (d : Dialect) : (createIndex d).Yields SchemaStatement.WellFormed := by
  refine yields_then _ _ fun _ => yields_then _ _ fun unique => yields_then _ _ fun _ => yields_then _ _ fun _ => ?_
  refine yields_then _ _ fun _ => yields_then _ _ fun name => yields_then _ _ fun _ => yields_then _ _ fun table => ?_
  have other : Action.createIndex ≠ Action.addPrimaryKey := by decide
  exact yields_then _ _ fun _ => yields_then _ _ fun columns => yields_pure _ ⟨nofun, fun same => absurd same other⟩

theorem wellFormed_alterTable (d : Dialect) : (alterTable d).Yields SchemaStatement.WellFormed := by
  refine yields_then _ _ fun _ => yields_then _ _ fun _ => yields_then _ _ fun _ => yields_then _ _ fun table => ?_
  refine yields_bind _ _ (named_alteration d) ?_
  rintro ⟨action, added⟩ named
  refine yields_pure _ ⟨nofun, fun same spec member => ?_⟩
  obtain ⟨whole, inside, rfl⟩ := Option.map_eq_some_iff.mp member
  exact named same whole inside

theorem wellFormed_statement (d : Dialect) : (statement d).Yields SchemaStatement.WellFormed := by
  have bare (action : String) (table : Option TableName) : SchemaStatement.WellFormed { action, table } :=
    ⟨nofun, fun _ => nofun⟩
  apply yields_choice
  simp only [List.forall_mem_cons]
  refine ⟨wellFormed_createTable d, wellFormed_createIndex d, ?_, wellFormed_alterTable d, ?_, ?_, ?_, ?_,
    List.forall_mem_nil _⟩
  · refine yields_then _ _ fun _ => yields_then _ _ fun _ => yields_then _ _ fun _ => yields_then _ _ fun kind => ?_
    exact yields_then _ _ fun _ => yields_pure _ (bare ..)
  · refine yields_then _ _ fun _ => yields_then _ _ fun _ => yields_then _ _ fun _ => yields_then _ _ fun _ => ?_
    exact yields_then _ _ fun tables => yields_then _ _ fun _ => yields_pure _ (bare ..)
  · exact yields_then _ _ fun _ => yields_then _ _ fun kind => yields_then _ _ fun _ => yields_pure _ (bare ..)
  · refine yields_then _ _ fun _ => yields_then _ _ fun _ => yields_then _ _ fun table => yields_then _ _ fun _ => ?_
    exact yields_pure _ (bare ..)
  · refine yields_then _ _ fun _ => yields_then _ _ fun _ => yields_then _ _ fun table => yields_then _ _ fun _ => ?_
    exact yields_pure _ (bare ..)

end SqlSchema.Reader.Rule
