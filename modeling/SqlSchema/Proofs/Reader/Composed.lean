import SqlSchema.Proofs.Reader.Numerals
import SqlSchema.Proofs.Token.Phrase
import SqlSchema.Reader.Statement

/-! How the grammar is made: from keywords, marks, quoted texts and recognisers, by the ways of making a rule from
others. What all of these keep is kept by the rules of the grammar. -/
namespace SqlSchema.Reader.Rule
open Text

/-- All keywords of the grammar. -/
def vocabulary : List String := [
  "ADD", "ALTER", "ASC", "AUTO_INCREMENT", "CASCADE", "CHARACTER", "CHARSET", "CHECK", "COLLATE", "COMMENT",
  "CONCURRENTLY", "CONSTRAINT", "CREATE", "CURRENT_TIMESTAMP", "DEFAULT", "DESC", "DROP", "ENUM", "EXISTS", "FALSE",
  "FOREIGN", "FULLTEXT", "IF", "INDEX", "KEY", "NOT", "NULL", "ON", "ONLY", "OR", "PRIMARY", "RENAME", "REPLACE",
  "RESTRICT", "SET", "SPATIAL", "TABLE", "TEMPORARY", "TRUE", "TRUNCATE", "UNIQUE", "UNSIGNED", "UPDATE", "USING",
  "ZEROFILL", "bit", "character", "double", "precision", "time", "timestamp", "varying", "with", "without", "zone"]

/-- What is taken is something, and no more than there is. -/
def Bounded {α : Type} (recognise : List Char → Option (α × Nat)) : Prop :=
  ∀ cs a size, recognise cs = some (a, size) → 0 < size ∧ size ≤ cs.length

inductive Composed : {α : Type} → Rule α → Prop
  | pure {α : Type} (a : α) : Composed (pure a)
  | bind {α β : Type} {r : Rule α} {next : α → Rule β} (first : Composed r) (second : ∀ a, Composed (next a)) :
    Composed (r >>= next)
  | optional {α : Type} {r : Rule α} (inner : Composed r) : Composed (optional r)
  | many {α : Type} {r : Rule α} (inner : Composed r) : Composed (many r)
  | choice {α : Type} (name : Shape) {rules : List (Rule α)} (each : ∀ r ∈ rules, Composed r) :
    Composed (choice name rules)
  | without {α : Type} (name : Shape) {r : Rule α} (inner : Composed r) : Composed (without name r)
  | keyword (word : String) (known : word ∈ vocabulary) : Composed (keyword word)
  | mark (sign : Char) : Composed (mark sign)
  | quoted (q : Quoting) : Composed (quoted q)
  | recognised {α : Type} (name : Shape) {recognise : List Char → Option (α × Nat)} (bounded : Bounded recognise) :
    Composed (recognised name recognise)
  | endOfText : Composed endOfText

/-- The rule begins with the keyword. -/
def Introduced {α : Type} (word : String) (r : Rule α) : Prop :=
  ∃ next : Unit → Rule α, r = (Rule.keyword word >>= next) ∧ ∀ u, (next u).Composed

theorem Introduced.composed {α : Type} {word : String} {r : Rule α} (introduced : Introduced word r)
    (known : word ∈ vocabulary) : r.Composed := by
  obtain ⟨next, rfl, behind⟩ := introduced
  exact .bind (.keyword word known) behind

/-! Recognisers. -/

theorem bounded_wordOf (part : Char → Bool) : Bounded (wordOf part) := by
  intro cs a size found
  unfold wordOf at found
  split at found
  next c rest =>
    split at found
    · cases found
      have shorter := (List.takeWhile_prefix part (l := rest)).length_le
      simp only [List.length_cons]
      omega
    · contradiction
  next => contradiction

theorem bounded_integer {cs : List Char} {size : Nat} (found : integerSize? cs = some size) :
    0 < size ∧ size ≤ cs.length :=
  (spans_integer found).bounded not_isInteger_nil

theorem bounded_float {cs : List Char} {size : Nat} (found : floatSize? cs = some size) :
    0 < size ∧ size ≤ cs.length :=
  (spans_float found).bounded not_isFloat_nil

theorem bounded_hexNumber {cs : List Char} {size : Nat} (found : hexNumberSize? cs = some size) :
    0 < size ∧ size ≤ cs.length := by
  unfold hexNumberSize? at found
  split at found
  next x rest =>
    dsimp only at found
    split at found
    · cases found
      have shorter := (List.takeWhile_prefix isHex (l := rest)).length_le
      simp only [List.length_cons]
      omega
    · contradiction
  next => contradiction

theorem bounded_namedPlaceholder {cs : List Char} {size : Nat} (found : namedPlaceholder? cs = some size) :
    0 < size ∧ size ≤ cs.length := by
  unfold namedPlaceholder? at found
  split at found
  next c rest =>
    split at found
    · cases found
      have shorter := (List.takeWhile_prefix isWord (l := rest)).length_le
      simp only [List.length_cons]
      omega
    · contradiction
  next => contradiction

theorem bounded_numberedPlaceholder {cs : List Char} {size : Nat} (found : numberedPlaceholder? cs = some size) :
    0 < size ∧ size ≤ cs.length := by
  unfold numberedPlaceholder? at found
  split at found
  next rest =>
    dsimp only at found
    split at found
    · cases found
      have shorter := (List.takeWhile_prefix isDigit (l := rest)).length_le
      simp only [List.length_cons, digitCount]
      omega
    · contradiction
  next => contradiction

theorem bounded_placeholder {d : Dialect} {cs : List Char} {size : Nat} (found : placeholderSize? d cs = some size) :
    0 < size ∧ size ≤ cs.length := by
  unfold placeholderSize? at found
  cases d with
  | postgres =>
    rcases Token.orElse_eq_some found with numbered | named
    · exact bounded_numberedPlaceholder numbered
    · exact bounded_namedPlaceholder named
  | mysql =>
    rcases Token.orElse_eq_some found with named | mark
    · exact bounded_namedPlaceholder named
    · split at mark
      next first =>
        cases mark
        obtain ⟨rest, rfl⟩ := List.head?_eq_some_iff.mp first
        simp
      next => contradiction

theorem bounded_letterString (letter : Char) (isPart : Char → Bool) : Bounded (letterString? letter isPart) := by
  intro cs a size found
  unfold letterString? at found
  split at found
  next c rest =>
    dsimp only at found
    split at found
    next after closed =>
      split at found
      · cases found
        have more : (rest.takeWhile isPart).length < rest.length := by
          by_contra whole
          rw [List.drop_eq_nil_of_le (Nat.not_lt.mp whole)] at closed
          contradiction
        simp only [List.length_cons]
        omega
      · contradiction
    next => contradiction
  next => contradiction

/-! Words, names and literals. -/

theorem composed_keywords (words : List String) (known : ∀ word ∈ words, word ∈ vocabulary) : (keywords words).Composed := by
  fun_induction keywords words with
  | case1 => exact .pure ()
  | case2 word => exact .keyword word (known word (List.mem_cons_self ..))
  | case3 word more _ ih =>
    rw [List.forall_mem_cons] at known
    exact .bind (.keyword word known.1) fun _ => ih known.2

theorem composed_constant {α : Type} (value : α) (words : List String) (known : ∀ word ∈ words, word ∈ vocabulary) :
    (constant value words).Composed :=
  .bind (composed_keywords words known) fun _ => .pure value

theorem composed_parenthesized {α : Type} {r : Rule α} (inner : r.Composed) : (parenthesized r).Composed :=
  .bind (.mark '(') fun _ => .bind inner fun inside => .bind (.mark ')') fun _ => .pure inside

theorem composed_listOf {α : Type} {r : Rule α} (inner : r.Composed) : (listOf comma r).Composed :=
  .bind inner fun first => .bind (.many (.bind (.mark ',') fun _ => inner)) fun more => .pure (first :: more)

theorem composed_word : word.Composed := .recognised _ (bounded_wordOf _)

theorem composed_identifier (d : Dialect) : (identifier d).Composed := by
  apply Composed.choice
  simp only [List.forall_mem_cons]
  exact ⟨.quoted _, .recognised _ (bounded_wordOf _), List.forall_mem_nil _⟩

theorem composed_table (d : Dialect) : (table d).Composed := by
  have qualifier : (do
      let name ← identifier d
      mark '.'
      return name : Rule String).Composed :=
    .bind (composed_identifier d) fun name => .bind (.mark '.') fun _ => .pure name
  have tableName : (tableName d).Composed :=
    .bind (.optional qualifier) fun _ => .bind (composed_identifier d) fun _ => .pure _
  exact .bind tableName fun _ => .pure _

theorem composed_string (d : Dialect) : (string d).Composed := by
  cases d with
  | mysql =>
    apply Composed.choice
    simp only [List.forall_mem_cons]
    exact ⟨.quoted _, .quoted _, List.forall_mem_nil _⟩
  | postgres => exact .quoted _

theorem composed_stringLiteral (d : Dialect) : (stringLiteral d).Composed :=
  .bind (composed_string d) fun _ => .pure _

theorem bounded_sized (kind : Tree.LiteralKind) {size? : List Char → Option Nat}
    (bounded : ∀ {cs size}, size? cs = some size → 0 < size ∧ size ≤ cs.length) :
    Bounded fun cs => (size? cs).map fun size => ((⟨kind, String.ofList (cs.take size)⟩ : Tree.Literal), size) := by
  intro cs a size found
  obtain ⟨n, here, same⟩ := Option.map_eq_some_iff.mp found
  cases same
  exact bounded here

theorem bounded_lettered (kind : Tree.LiteralKind) (letter : Char) (isPart : Char → Bool) :
    Bounded fun cs => (letterString? letter isPart cs).map fun (text, size) => ((⟨kind, text⟩ : Tree.Literal), size) := by
  intro cs a size found
  obtain ⟨⟨text, n⟩, here, same⟩ := Option.map_eq_some_iff.mp found
  cases same
  exact bounded_letterString letter isPart cs _ _ here

theorem composed_sized (kind : Tree.LiteralKind) (name : String) {size? : List Char → Option Nat}
    (bounded : ∀ {cs size}, size? cs = some size → 0 < size ∧ size ≤ cs.length) : (sized kind name size?).Composed :=
  .recognised _ (bounded_sized kind bounded)

theorem composed_lettered (kind : Tree.LiteralKind) (name : String) (letter : Char) (isPart : Char → Bool) :
    (lettered kind name letter isPart).Composed := .recognised _ (bounded_lettered kind letter isPart)

theorem composed_integer : integer.Composed := composed_sized _ _ bounded_integer

theorem composed_literal (d : Dialect) : (literal d).Composed := by
  apply Composed.choice
  simp only [List.forall_mem_cons]
  exact ⟨composed_lettered .., composed_lettered .., composed_sized _ _ bounded_hexNumber,
    composed_sized _ _ bounded_float, composed_integer, composed_stringLiteral d, composed_sized _ _ bounded_placeholder,
    List.forall_mem_nil _⟩

theorem composed_currentTimestamp : currentTimestamp.Composed :=
  .bind (.keyword _ (by decide)) fun _ => .bind (.optional (composed_parenthesized (.optional composed_integer))) fun _ =>
    .pure ()

theorem composed_value (d : Dialect) : (value d).Composed := by
  have wordValue (text : String) {r : Rule Unit} (inner : r.Composed) : (wordValue text r).Composed :=
    .bind inner fun _ => .pure _
  apply Composed.choice
  simp only [List.forall_mem_cons]
  exact ⟨composed_literal d, wordValue _ (.keyword _ (by decide)), wordValue _ composed_currentTimestamp,
    wordValue _ (.keyword _ (by decide)), wordValue _ (.keyword _ (by decide)), List.forall_mem_nil _⟩

/-! Columns. -/

theorem composed_typeName : typeName.Composed := by
  have known : ∀ words ∈ longTypes, ∀ word ∈ words, word ∈ vocabulary := by decide
  apply Composed.choice
  rw [List.forall_mem_append]
  constructor
  · intro r member
    obtain ⟨words, inside, rfl⟩ := List.mem_map.mp member
    exact .bind (composed_keywords words (known words inside)) fun _ => .pure _
  · exact List.forall_mem_singleton.mpr (.bind composed_word fun _ => .pure _)

theorem composed_scale : (do
    comma
    integer : Rule Tree.Literal).Composed :=
  .bind (.mark ',') fun _ => composed_integer

theorem composed_size : size.Composed :=
  composed_parenthesized (.bind composed_integer fun _ => .bind (.optional composed_scale) fun _ => .pure _)

theorem composed_memberName :
    (choice (.choice [.keyword "ENUM", .keyword "SET"]) [constant "enum" ["ENUM"], constant "set" ["SET"]]).Composed := by
  apply Composed.choice
  simp only [List.forall_mem_cons]
  exact ⟨composed_constant _ _ (by decide), composed_constant _ _ (by decide), List.forall_mem_nil _⟩

theorem composed_columnType (d : Dialect) : (columnType d).Composed := by
  have memberType : (memberType d).Composed :=
    .bind composed_memberName fun _ => .bind (composed_parenthesized (composed_listOf (composed_string d))) fun _ =>
      .pure _
  have sizedType : sizedType.Composed :=
    .bind composed_typeName fun _ => .bind (.optional composed_size) fun _ => .pure _
  apply Composed.choice
  simp only [List.forall_mem_cons]
  exact ⟨memberType, sizedType, List.forall_mem_nil _⟩

theorem composed_doubleColon : doubleColon.Composed := by
  refine .recognised _ fun cs a size found => ?_
  split at found
  next begun =>
    cases found
    exact ⟨by decide, (List.isPrefixOf_iff_prefix.mp begun).length_le⟩
  next => contradiction

theorem composed_cast : (do
    doubleColon
    typeName : Rule String).Composed :=
  .bind composed_doubleColon fun _ => composed_typeName

theorem composed_defaultValue (d : Dialect) : (defaultValue d).Composed := by
  cases d with
  | mysql => exact composed_value .mysql
  | postgres => exact .bind (composed_value .postgres) fun _ => .bind (.optional composed_cast) fun _ => .pure _

theorem composed_charset :
    (choice (.named "character set") [keywords ["CHARACTER", "SET"], keyword "CHARSET"]).Composed := by
  apply Composed.choice
  simp only [List.forall_mem_cons]
  exact ⟨composed_keywords _ (by decide), .keyword _ (by decide), List.forall_mem_nil _⟩

theorem composed_columnAttribute (d : Dialect) : (columnAttribute d).Composed := by
  have attributed {α : Type} (make : α → Attribute) (intro : List String) {r : Rule α}
      (known : ∀ word ∈ intro, word ∈ vocabulary) (inner : r.Composed) : (attributed make intro r).Composed :=
    .bind (composed_keywords intro known) fun _ => .bind inner fun _ => .pure _
  apply Composed.choice
  simp only [List.forall_mem_cons]
  refine ⟨composed_constant _ _ (by decide), composed_constant _ _ (by decide),
    attributed _ _ (by decide) (composed_defaultValue d), composed_constant _ _ (by decide),
    composed_constant _ _ (by decide), composed_constant _ _ (by decide), composed_constant _ _ (by decide),
    composed_constant _ _ (by decide), composed_constant _ _ (by decide),
    attributed _ _ (by decide) (composed_stringLiteral d), ?_, attributed _ _ (by decide) composed_word, ?_,
    List.forall_mem_nil _⟩
  · exact .bind composed_charset fun _ => .bind composed_word fun _ => .pure _
  · exact .bind (composed_keywords _ (by decide)) fun _ => .bind composed_currentTimestamp fun _ => .pure _

theorem composed_anyKeyword (name : Shape) (words : List String) (known : ∀ word ∈ words, word ∈ vocabulary) :
    (choice name (words.map keyword)).Composed := by
  refine .choice _ fun r member => ?_
  obtain ⟨word, inside, rfl⟩ := List.mem_map.mp member
  exact .keyword word (known word inside)

theorem composed_column (d : Dialect) : (column d).Composed :=
  .bind (.without _ (composed_anyKeyword _ _ (by decide))) fun _ =>
    .bind (composed_identifier d) fun _ => .bind (composed_columnType d) fun _ =>
      .bind (.optional (.keyword _ (by decide))) fun _ => .bind (.optional (.keyword _ (by decide))) fun _ =>
        .bind (.many (composed_columnAttribute d)) fun _ => .pure _

/-! Indexes. -/

theorem composed_usingMethod : usingMethod.Composed :=
  .bind (.keyword _ (by decide)) fun _ => .bind composed_word fun _ => .pure ()

theorem composed_indexName (d : Dialect) : (indexName d).Composed :=
  .bind (.without _ (.keyword _ (by decide))) fun _ => composed_identifier d

theorem composed_direction : direction.Composed := .optional (composed_anyKeyword _ ["ASC", "DESC"] (by decide))

theorem composed_indexColumn (d : Dialect) : (indexColumn d).Composed :=
  .bind (composed_identifier d) fun _ => .bind (.optional (composed_parenthesized composed_integer)) fun _ =>
    .bind composed_direction fun _ => .pure _

theorem composed_indexColumns (d : Dialect) : (indexColumns d).Composed :=
  composed_parenthesized (composed_listOf (composed_indexColumn d))

theorem composed_columnNames (d : Dialect) : (columnNames d).Composed :=
  composed_parenthesized (composed_listOf
    (.bind (composed_identifier d) fun _ => .bind composed_direction fun _ => .pure _))

theorem composed_primaryKey : primaryKey.Composed := composed_keywords _ (by decide)

theorem composed_constraintName (d : Dialect) : (constraintName d).Composed := by
  have type : (choice (.named "constraint type") [primaryKey, keyword "UNIQUE"]).Composed := by
    apply Composed.choice
    simp only [List.forall_mem_cons]
    exact ⟨composed_primaryKey, .keyword _ (by decide), List.forall_mem_nil _⟩
  exact .bind (.keyword _ (by decide)) fun _ => .optional (.bind (.without _ type) fun _ => composed_identifier d)

theorem composed_uniqueType : uniqueType.Composed := by
  apply Composed.choice
  simp only [List.forall_mem_cons]
  exact ⟨composed_constant _ _ (by decide), composed_constant _ _ (by decide), composed_constant _ _ (by decide),
    List.forall_mem_nil _⟩

theorem composed_keyWord : keyWord.Composed := by
  apply Composed.choice
  simp only [List.forall_mem_cons]
  exact ⟨composed_constant _ _ (by decide), composed_constant _ _ (by decide), List.forall_mem_nil _⟩

theorem composed_keyType : keyType.Composed := by
  have kind : (choice (.choice [.keyword "SPATIAL", .keyword "FULLTEXT"])
      [constant "spatial" ["SPATIAL"], constant "fulltext" ["FULLTEXT"]]).Composed := by
    apply Composed.choice
    simp only [List.forall_mem_cons]
    exact ⟨composed_constant _ _ (by decide), composed_constant _ _ (by decide), List.forall_mem_nil _⟩
  apply Composed.choice
  simp only [List.forall_mem_cons]
  refine ⟨.bind kind fun _ => .bind (.optional composed_keyWord) fun word => ?_, composed_constant _ _ (by decide),
    composed_constant _ _ (by decide), List.forall_mem_nil _⟩
  cases word with
  | none => exact .pure _
  | some word => exact .pure _

theorem composed_indexBody (d : Dialect) : (indexBody d).Composed :=
  .bind (.optional (composed_indexName d)) fun _ => .bind (.optional composed_usingMethod) fun _ =>
    .bind (composed_indexColumns d) fun _ => .bind (.optional composed_usingMethod) fun _ => .pure _

theorem composed_index (d : Dialect) : (index d).Composed := by
  apply Composed.choice
  simp only [List.forall_mem_cons]
  refine ⟨?_, ?_, ?_, List.forall_mem_nil _⟩
  · exact .bind (.optional (composed_constraintName d)) fun _ => .bind composed_primaryKey fun _ =>
      .bind (.optional composed_usingMethod) fun _ => .bind (composed_indexColumns d) fun _ =>
        .bind (.optional composed_usingMethod) fun _ => .pure _
  · exact .bind (.optional (composed_constraintName d)) fun _ => .bind composed_uniqueType fun _ =>
      .bind (composed_indexBody d) fun _ => .pure _
  · exact .bind composed_keyType fun _ => .bind (composed_indexBody d) fun _ => .pure _

/-! Statements. -/

theorem composed_rest : Rule.rest.Composed := by
  refine .recognised _ fun cs a size found => ?_
  split at found
  · split at found
    · contradiction
    · cases found
      simp
  · contradiction

theorem composed_item (d : Dialect) : (item d).Composed := by
  apply Composed.choice
  simp only [List.forall_mem_cons]
  exact ⟨.bind (composed_index d) fun _ => .pure _, .bind (composed_column d) fun _ => .pure _, List.forall_mem_nil _⟩

theorem introduced_createTable (d : Dialect) : Introduced "CREATE" (createTable d) :=
  ⟨_, rfl, fun _ => .bind (.optional (.keyword _ (by decide))) fun _ =>
    .bind (.keyword _ (by decide)) fun _ => .bind (.optional (composed_keywords _ (by decide))) fun _ =>
      .bind (composed_table d) fun _ => .bind (composed_parenthesized (composed_listOf (composed_item d))) fun _ =>
        .bind (.optional composed_rest) fun _ => .pure _⟩

theorem introduced_createIndex (d : Dialect) : Introduced "CREATE" (createIndex d) :=
  ⟨_, rfl, fun _ => .bind (.optional (.keyword _ (by decide))) fun _ =>
    .bind (.keyword _ (by decide)) fun _ => .bind (.optional (.keyword _ (by decide))) fun _ =>
      .bind (.optional (composed_keywords _ (by decide))) fun _ => .bind (composed_indexName d) fun _ =>
        .bind (.keyword _ (by decide)) fun _ => .bind (composed_table d) fun _ =>
          .bind (.optional composed_usingMethod) fun _ => .bind (composed_columnNames d) fun _ => .pure _⟩

theorem introduced_createOther : Introduced "CREATE" createOther :=
  ⟨_, rfl, fun _ => .bind (.optional (composed_keywords _ (by decide))) fun _ =>
    .bind (.without _ (composed_anyKeyword _ _ (by decide))) fun _ => .bind composed_word fun _ =>
      .bind (.optional composed_rest) fun _ => .pure _⟩

/-- How every alteration that adds an index ends. -/
theorem composed_added {α : Type} (d : Dialect) (make : List String → α) : (do
    let _ ← Rule.optional usingMethod
    let columns ← columnNames d
    let _ ← Rule.optional usingMethod
    Rule.endOfText
    return make columns : Rule α).Composed :=
  .bind (.optional composed_usingMethod) fun _ => .bind (composed_columnNames d) fun _ =>
    .bind (.optional composed_usingMethod) fun _ => .bind .endOfText fun _ => .pure _

theorem composed_addIndexStart (d : Dialect) : (addIndexStart d).Composed := by
  have type : (choice (.named "constraint type") [primaryKey, keyword "UNIQUE"]).Composed := by
    apply Composed.choice
    simp only [List.forall_mem_cons]
    exact ⟨composed_primaryKey, .keyword _ (by decide), List.forall_mem_nil _⟩
  refine .bind (.keyword _ (by decide)) fun _ => ?_
  apply Composed.choice
  simp only [List.forall_mem_cons]
  exact ⟨.keyword _ (by decide), .keyword _ (by decide), .keyword _ (by decide), composed_primaryKey,
    .bind (composed_constraintName d) fun _ => type, List.forall_mem_nil _⟩

theorem composed_alteration (d : Dialect) : (alteration d).Composed := by
  have constrained : (do
      keyword "CONSTRAINT"
      without primaryKeyShape primaryKey
      identifier d : Rule String).Composed :=
    .bind (.keyword _ (by decide)) fun _ => .bind (.without _ composed_primaryKey) fun _ => composed_identifier d
  have unique : (choice (.named "index") [
      do
        keyword "UNIQUE"
        let _ ← Rule.optional keyWord
        return true,
      do
        let _ ← keyWord
        return false]).Composed := by
    apply Composed.choice
    simp only [List.forall_mem_cons]
    exact ⟨.bind (.keyword _ (by decide)) fun _ => .bind (.optional composed_keyWord) fun _ => .pure _,
      .bind composed_keyWord fun _ => .pure _, List.forall_mem_nil _⟩
  apply Composed.choice
  simp only [List.forall_mem_cons]
  refine ⟨?_, ?_, ?_, ?_, List.forall_mem_nil _⟩
  · exact .bind (.keyword _ (by decide)) fun _ => .bind (.optional constrained) fun _ =>
      .bind composed_primaryKey fun _ => composed_added d _
  · exact .bind (.keyword _ (by decide)) fun _ => .bind (.keyword _ (by decide)) fun _ =>
      .bind (composed_identifier d) fun _ => .bind (.keyword _ (by decide)) fun _ =>
        .bind (.optional composed_keyWord) fun _ => composed_added d _
  · exact .bind (.keyword _ (by decide)) fun _ => .bind unique fun _ => .bind (.optional (composed_indexName d)) fun _ =>
      composed_added d _
  · exact .bind (.without _ (composed_addIndexStart d)) fun _ => .bind composed_rest fun _ => .pure _

theorem introduced_alterTable (d : Dialect) : Introduced "ALTER" (alterTable d) :=
  ⟨_, rfl, fun _ => .bind (.keyword _ (by decide)) fun _ =>
    .bind (.optional (.keyword _ (by decide))) fun _ => .bind (composed_table d) fun _ =>
      .bind (composed_alteration d) fun _ => .pure _⟩

theorem introduced_dropTable (d : Dialect) : Introduced "DROP" (dropTable d) :=
  ⟨_, rfl, fun _ => .bind (.optional (.keyword _ (by decide))) fun _ =>
    .bind (.keyword _ (by decide)) fun _ => .bind (.optional (composed_keywords _ (by decide))) fun _ =>
      .bind (composed_listOf (composed_table d)) fun _ =>
        .bind (.optional (composed_anyKeyword _ ["CASCADE", "RESTRICT"] (by decide))) fun _ => .pure _⟩

theorem introduced_dropOther : Introduced "DROP" dropOther :=
  ⟨_, rfl, fun _ => .bind composed_word fun _ => .bind (.optional composed_rest) fun _ => .pure _⟩

theorem introduced_renameTable (d : Dialect) : Introduced "RENAME" (renameTable d) :=
  ⟨_, rfl, fun _ => .bind (.keyword _ (by decide)) fun _ => .bind (composed_table d) fun _ =>
    .bind (.optional composed_rest) fun _ => .pure _⟩

theorem introduced_truncateTable (d : Dialect) : Introduced "TRUNCATE" (truncateTable d) :=
  ⟨_, rfl, fun _ => .bind (.optional (.keyword _ (by decide))) fun _ =>
    .bind (composed_table d) fun _ => .bind (.optional composed_rest) fun _ => .pure _⟩

theorem composed_statement (d : Dialect) : (statement d).Composed := by
  apply Composed.choice
  simp only [List.forall_mem_cons]
  exact ⟨(introduced_createTable d).composed (by decide), (introduced_createIndex d).composed (by decide),
    introduced_createOther.composed (by decide), (introduced_alterTable d).composed (by decide),
    (introduced_dropTable d).composed (by decide), introduced_dropOther.composed (by decide),
    (introduced_renameTable d).composed (by decide), (introduced_truncateTable d).composed (by decide),
    List.forall_mem_nil _⟩

end SqlSchema.Reader.Rule
