import SqlSchema.Proofs.Reader.Moving

/-! Progress of the grammar. Names, strings, indexes, columns and their attributes end further on than they begin, and in
the text, unless it ends with a keyword of a column that is drawn together. So every repetition and every list ends by
itself, and to stop it after as many rounds as the text has characters changes nothing. -/
namespace SqlSchema.Reader

namespace Cursor

/-- The place in the text behind so many characters. -/
def place (cs : List Char) (p : Nat) : Cursor := (start cs).advance p

theorem length_place (cs : List Char) (p : Nat) : (place cs p).rest.length = cs.length - p := List.length_drop

theorem length_place_le (cs : List Char) (p : Nat) : (place cs p).rest.length ≤ cs.length :=
  (length_place cs p).trans_le (Nat.sub_le ..)

end Cursor

theorem inside_place {cs : List Char} {p : Nat} (bound : p ≤ cs.length) : Inside cs (.place cs p) := by
  rcases Nat.eq_zero_or_pos p with rfl | positive
  · rw [Cursor.place, Cursor.advance_zero]
    exact inside_start cs
  · exact (inside_start cs).advance positive bound

namespace Rule

variable {α : Type} {cs : List Char} {r : Rule α}

/-! Words, names and literals. -/

theorem moves_constant {value : α} {words : List String} {last : String} (ends : words.getLast? = some last)
    (known : ∀ word ∈ words, word ∈ vocabulary) (firm : last ∉ drawable) :
    Moves cs (Counted cs) (constant value words) :=
  (moves_keywords ends known firm).before fun _ => stays_pure value

theorem moves_parenthesized (inner : r.Composed) : Moves cs (Counted cs) (parenthesized r) :=
  .after (.mark '(') fun _ => .after inner fun inside => (moves_mark ')').before fun _ => stays_pure inside

theorem moves_word : Moves cs (Counted cs) word := moves_recognised _ (bounded_wordOf _)

theorem moves_identifier (d : Dialect) : Moves cs (Counted cs) (identifier d) := by
  apply Moves.choice
  simp only [List.forall_mem_cons]
  exact ⟨moves_quoted _, moves_recognised _ (bounded_wordOf _), List.forall_mem_nil _⟩

theorem moves_table (d : Dialect) : Moves cs (Counted cs) (table d) := by
  have qualifier : (do
      let name ← identifier d
      mark '.'
      return name : Rule String).Composed :=
    .bind (composed_identifier d) fun name => .bind (.mark '.') fun _ => .pure name
  have tableName : Moves cs (Counted cs) (tableName d) :=
    .after (.optional qualifier) fun _ => (moves_identifier d).before fun _ => stays_pure _
  exact tableName.before fun _ => stays_pure _

theorem moves_string (d : Dialect) : Moves cs (Counted cs) (string d) := by
  cases d with
  | mysql =>
    apply Moves.choice
    simp only [List.forall_mem_cons]
    exact ⟨moves_quoted _, moves_quoted _, List.forall_mem_nil _⟩
  | postgres => exact moves_quoted _

theorem moves_stringLiteral (d : Dialect) : Moves cs (Counted cs) (stringLiteral d) :=
  (moves_string d).before fun _ => stays_pure _

theorem moves_sized (kind : Tree.LiteralKind) (name : String) {size? : List Char → Option Nat}
    (bounded : ∀ {cs size}, size? cs = some size → 0 < size ∧ size ≤ cs.length) :
    Moves cs (Counted cs) (sized kind name size?) := moves_recognised _ (bounded_sized kind bounded)

theorem moves_lettered (kind : Tree.LiteralKind) (name : String) (letter : Char) (isPart : Char → Bool) :
    Moves cs (Counted cs) (lettered kind name letter isPart) := moves_recognised _ (bounded_lettered kind letter isPart)

theorem moves_literal (d : Dialect) : Moves cs (Counted cs) (literal d) := by
  apply Moves.choice
  simp only [List.forall_mem_cons]
  exact ⟨moves_lettered .., moves_lettered .., moves_sized _ _ bounded_hexNumber, moves_sized _ _ bounded_float,
    moves_sized _ _ bounded_integer, moves_stringLiteral d, moves_sized _ _ bounded_placeholder, List.forall_mem_nil _⟩

theorem moves_currentTimestamp : Moves cs (Settled ["CURRENT_TIMESTAMP"] cs) currentTimestamp := by
  have precision : Moves cs (Counted cs) (parenthesized (optional integer)) :=
    moves_parenthesized (.optional composed_integer)
  refine (moves_drawable (by decide) (by decide)).before fun _ => Stays.bind ?_ fun _ => stays_pure ()
  exact (precision.mono fun _ => .inl).optional (steady_settled _ cs)

theorem moves_value (d : Dialect) : Moves cs (Settled ["CURRENT_TIMESTAMP"] cs) (value d) := by
  have wordValue {J : Cursor → Prop} (text : String) {r : Rule Unit} (moves : Moves cs J r) : Moves cs J (wordValue text r) :=
    moves.before fun _ => stays_pure _
  have firm {word : String} (text : String) (known : word ∈ vocabulary) (firm : word ∉ drawable) :
      Moves cs (Settled ["CURRENT_TIMESTAMP"] cs) (Rule.wordValue text (keyword word)) :=
    (wordValue text (moves_keyword known firm)).mono fun _ => .inl
  apply Moves.choice
  simp only [List.forall_mem_cons]
  exact ⟨(moves_literal d).mono fun _ => .inl, firm _ (by decide) (by decide), wordValue _ moves_currentTimestamp,
    firm _ (by decide) (by decide), firm _ (by decide) (by decide), List.forall_mem_nil _⟩

/-! Columns. -/

theorem moves_typeName : Moves cs (Counted cs) typeName := by
  have ends : ∀ words ∈ longTypes, ∃ last, words.getLast? = some last ∧ last ∉ drawable ∧
      ∀ word ∈ words, word ∈ vocabulary := by decide +kernel
  apply Moves.choice
  rw [List.forall_mem_append]
  constructor
  · intro r member
    obtain ⟨words, inside, rfl⟩ := List.mem_map.mp member
    obtain ⟨last, ends, firm, known⟩ := ends words inside
    exact (moves_keywords ends known firm).before fun _ => stays_pure _
  · exact List.forall_mem_singleton.mpr (moves_word.before fun _ => stays_pure _)

theorem moves_columnType (d : Dialect) : Moves cs (Counted cs) (columnType d) := by
  have memberType : Moves cs (Counted cs) (memberType d) :=
    .after composed_memberName fun _ => (moves_parenthesized (composed_listOf (composed_string d))).before fun _ =>
      stays_pure _
  have size : Moves cs (Counted cs) size :=
    moves_parenthesized (.bind composed_integer fun _ => .bind (.optional composed_scale) fun _ => .pure _)
  have sizedType : Moves cs (Counted cs) sizedType :=
    moves_typeName.before fun _ => (size.optional (steady_counted cs)).bind fun _ => stays_pure _
  apply Moves.choice
  simp only [List.forall_mem_cons]
  exact ⟨memberType, sizedType, List.forall_mem_nil _⟩

theorem moves_defaultValue (d : Dialect) : Moves cs (Settled ["CURRENT_TIMESTAMP"] cs) (defaultValue d) := by
  have cast : Moves cs (Counted cs) (do
      doubleColon
      typeName : Rule String) := .after composed_doubleColon fun _ => moves_typeName
  cases d with
  | mysql => exact moves_value .mysql
  | postgres =>
    refine (moves_value .postgres).before fun _ => Stays.bind ?_ fun _ => stays_pure _
    exact (cast.mono fun _ => .inl).optional (steady_settled _ cs)

theorem moves_columnAttribute (d : Dialect) : Moves cs (Settled ["CURRENT_TIMESTAMP"] cs) (columnAttribute d) := by
  have attributed {α : Type} {J : Cursor → Prop} (make : α → Attribute) (intro : List String) {r : Rule α}
      (known : ∀ word ∈ intro, word ∈ vocabulary) (moves : Moves cs J r) : Moves cs J (attributed make intro r) :=
    .after (composed_keywords intro known) fun _ => moves.before fun _ => stays_pure _
  have constant (value : Attribute) (words : List String) {last : String} (ends : words.getLast? = some last)
      (known : ∀ word ∈ words, word ∈ vocabulary) (firm : last ∉ drawable) :
      Moves cs (Settled ["CURRENT_TIMESTAMP"] cs) (constant value words) :=
    (moves_constant ends known firm).mono fun _ => .inl
  apply Moves.choice
  simp only [List.forall_mem_cons]
  refine ⟨constant _ _ rfl (by decide) (by decide), constant _ _ rfl (by decide) (by decide),
    attributed _ _ (by decide) (moves_defaultValue d), constant _ _ rfl (by decide) (by decide),
    constant _ _ rfl (by decide) (by decide), constant _ _ rfl (by decide) (by decide),
    constant _ _ rfl (by decide) (by decide), constant _ _ rfl (by decide) (by decide),
    constant _ _ rfl (by decide) (by decide),
    attributed _ _ (by decide) ((moves_stringLiteral d).mono fun _ => .inl), ?_,
    attributed _ _ (by decide) (moves_word.mono fun _ => .inl), ?_, List.forall_mem_nil _⟩
  · exact .after composed_charset fun _ => (moves_word.mono fun _ => .inl).before fun _ => stays_pure _
  · exact .after (composed_keywords _ (by decide)) fun _ => moves_currentTimestamp.before fun _ => stays_pure _

/-- The words of a column that can be the last of a text and drawn together there. -/
def drawnWords : List String := ["CURRENT_TIMESTAMP", "ZEROFILL"]

theorem moves_column (d : Dialect) : Moves cs (Settled drawnWords cs) (column d) := by
  have steady := steady_settled drawnWords cs
  have type : Moves cs (Settled drawnWords cs) (columnType d) := (moves_columnType d).mono fun _ => .inl
  have unsigned : Moves cs (Settled drawnWords cs) (keyword "UNSIGNED") :=
    (moves_keyword (by decide) (by decide)).mono fun _ => .inl
  have zerofill : Moves cs (Settled drawnWords cs) (keyword "ZEROFILL") :=
    (moves_drawable (by decide) (by decide)).mono fun _ settled => settled.mono (by decide)
  have trait : Moves cs (Settled drawnWords cs) (columnAttribute d) :=
    (moves_columnAttribute d).mono fun _ settled => settled.mono (by decide)
  refine .after (.without _ (composed_anyKeyword _ _ (by decide))) fun _ => ?_
  refine ((moves_identifier d).mono fun _ => .inl).before fun _ => (type.stays steady).bind fun _ => ?_
  refine (unsigned.optional steady).bind fun _ => (zerofill.optional steady).bind fun _ => ?_
  exact (trait.many steady).bind fun _ => stays_pure _

/-! Indexes. -/

theorem moves_usingMethod : Moves cs (Counted cs) usingMethod :=
  .after (.keyword _ (by decide)) fun _ => moves_word.before fun _ => stays_pure ()

theorem stays_direction : Stays (Counted cs) direction := by
  refine Moves.optional (Moves.choice _ ?_) (steady_counted cs)
  simp only [List.forall_mem_cons]
  exact ⟨moves_keyword (by decide) (by decide), moves_keyword (by decide) (by decide), List.forall_mem_nil _⟩

theorem moves_indexColumn (d : Dialect) : Moves cs (Counted cs) (indexColumn d) :=
  (moves_identifier d).before fun _ =>
    ((moves_parenthesized composed_integer).optional (steady_counted cs)).bind fun _ =>
      stays_direction.bind fun _ => stays_pure _

/-- The name of a column in an index that is added to a table, perhaps with its direction behind it. -/
theorem moves_columnName (d : Dialect) : Moves cs (Counted cs) (do
    let name ← identifier d
    let _ ← direction
    return name) :=
  (moves_identifier d).before fun _ => stays_direction.bind fun _ => stays_pure _

theorem moves_indexColumns (d : Dialect) : Moves cs (Counted cs) (indexColumns d) :=
  moves_parenthesized (composed_listOf (composed_indexColumn d))

theorem moves_indexBody (d : Dialect) : Moves cs (Counted cs) (indexBody d) :=
  .after (.optional (composed_indexName d)) fun _ => .after (.optional composed_usingMethod) fun _ =>
    (moves_indexColumns d).before fun _ => (moves_usingMethod.optional (steady_counted cs)).bind fun _ => stays_pure _

theorem moves_index (d : Dialect) : Moves cs (Counted cs) (index d) := by
  apply Moves.choice
  simp only [List.forall_mem_cons]
  refine ⟨?_, ?_, ?_, List.forall_mem_nil _⟩
  · exact .after (.optional (composed_constraintName d)) fun _ => .after composed_primaryKey fun _ =>
      .after (.optional composed_usingMethod) fun _ => (moves_indexColumns d).before fun _ =>
        (moves_usingMethod.optional (steady_counted cs)).bind fun _ => stays_pure _
  · exact .after (.optional (composed_constraintName d)) fun _ => .after composed_uniqueType fun _ =>
      (moves_indexBody d).before fun _ => stays_pure _
  · exact .after composed_keyType fun _ => (moves_indexBody d).before fun _ => stays_pure _

theorem moves_item (d : Dialect) : Moves cs (Settled drawnWords cs) (item d) := by
  have index : Moves cs (Settled drawnWords cs) (index d) := (moves_index d).mono fun _ => .inl
  apply Moves.choice
  simp only [List.forall_mem_cons]
  exact ⟨index.before fun _ => stays_pure _, (moves_column d).before fun _ => stays_pure _, List.forall_mem_nil _⟩

/-! Everywhere in a text. -/

/-- Wherever in the text the rule begins, what it reads ends further on, and in the text. -/
def Progresses (cs : List Char) (r : Rule α) : Prop :=
  ∀ p a after, r.Reads (.place cs p) a after → p < after.position ∧ after.position ≤ cs.length

/-- The same, but a text that ends with one of the words drawn together may be left by one character. -/
def ProgressesBut (words : List String) (cs : List Char) (r : Rule α) : Prop :=
  ∀ p a after, r.Reads (.place cs p) a after →
    p < after.position ∧ (after.position ≤ cs.length ∨ EndsDrawn words cs ∧ after.position = cs.length + 1)

/-- Wherever in the text the repetition begins, it ends by itself, with no more rounds than the text has characters. To
stop it after so many or more changes nothing. -/
structure Halts (cs : List Char) (r : Rule α) : Prop where
  rounds : ∀ p, ∃ all last, (many r).Reads (.place cs p) all last ∧
    Rounds r ((many r).origin (.place cs p)) all last ∧ all.length ≤ cs.length
  bounded : ∀ p n, cs.length ≤ n → (manyUpTo n r).read (.place cs p) = (many r).read (.place cs p)

/-- The same for a list with commas, which has a first member in front of its rounds. -/
structure ListHalts (cs : List Char) (r : Rule α) : Prop where
  rounds : ∀ p first after, r.Reads (.place cs p) first after →
    ∃ more last, (listOf comma r).Reads (.place cs p) (first :: more) last ∧
      Rounds (do comma; r) after.skipGap more last ∧ (first :: more).length ≤ cs.length
  bounded : ∀ p n, cs.length ≤ n → (listUpTo n comma r).read (.place cs p) = (listOf comma r).read (.place cs p)

theorem Shortens.halts (shortens : r.Shortens) (cs : List Char) : Halts cs r where
  rounds p := by
    have rounds := shortens.rounds ((many r).origin (.place cs p))
    have few := rounds.length_le shortens
    have inside := ((many r).origin_le (.place cs p)).trans (Cursor.length_place_le cs p)
    exact ⟨_, _, rfl, rounds, by omega⟩
  bounded p n enough := shortens.read_manyUpTo ((Cursor.length_place_le cs p).trans enough)

theorem Shortens.comma (shortens : r.Shortens) : (do
    comma
    r : Rule α).Shortens := by
  intro c a last reads
  obtain ⟨_, after, head, tail⟩ := (reads_bind ..).mp reads
  exact (shortens after a last tail).trans ((moves_mark ',' : Moves [] _ _).shorter c () after head)

theorem Shortens.listHalts (shortens : r.Shortens) (cs : List Char) : ListHalts cs r where
  rounds p first after reads := by
    have rounds := shortens.comma.rounds after.skipGap
    have few := rounds.length_le shortens.comma
    have shorter := shortens _ first after reads
    have inside := Cursor.length_place_le cs p
    have less := after.skipGap_le
    refine ⟨_, _, ?_, rounds, by rw [List.length_cons]; omega⟩
    exact (reads_bind ..).mpr ⟨first, after, reads, (reads_bind ..).mpr ⟨_, _, rfl, rfl⟩⟩
  bounded p n enough := shortens.read_listUpTo shortens.comma ((Cursor.length_place_le cs p).trans enough)

theorem Shortens.lt_of_reads (shortens : r.Shortens) {p : Nat} {a : α} {after : Cursor}
    (reads : r.Reads (.place cs p) a after) : p < cs.length ∧ after.rest.length < cs.length - p := by
  have shorter := shortens _ a after reads
  rw [Cursor.length_place] at shorter
  exact ⟨by omega, shorter⟩

theorem Moves.progressesBut {words : List String} (moves : Moves cs (Settled words cs) r) :
    ProgressesBut words cs r := by
  intro p a after reads
  obtain ⟨more, shorter⟩ := moves.shorter.lt_of_reads reads
  rcases moves.leads _ a after (inside_place more.le) reads with counted | overshot
  · have exact := counted.exact
    exact ⟨by omega, .inl (by omega)⟩
  · have behind := overshot.behind
    exact ⟨by omega, .inr ⟨overshot.drawn, behind⟩⟩

theorem Moves.halts {J : Cursor → Prop} (moves : Moves cs J r) : Halts cs r := moves.shorter.halts cs

theorem Moves.listHalts {J : Cursor → Prop} (moves : Moves cs J r) : ListHalts cs r := moves.shorter.listHalts cs

theorem Moves.progresses (moves : Moves cs (Counted cs) r) : Progresses cs r := by
  intro p a after reads
  obtain ⟨more, shorter⟩ := moves.shorter.lt_of_reads reads
  have exact := (moves.leads _ a after (inside_place more.le) reads).exact
  exact ⟨by omega, by omega⟩

/-- Every rule that the grammar repeats gets on in the text, and every repetition ends. -/
structure Progressive (d : Dialect) (cs : List Char) : Prop where
  identifier : Progresses cs (identifier d)
  string : Progresses cs (string d)
  table : Progresses cs (table d)
  indexColumn : Progresses cs (indexColumn d)
  index : Progresses cs (index d)
  columnAttribute : ProgressesBut ["CURRENT_TIMESTAMP"] cs (columnAttribute d)
  column : ProgressesBut ["CURRENT_TIMESTAMP", "ZEROFILL"] cs (column d)
  attributes : Halts cs (Rule.columnAttribute d)
  members : ListHalts cs (Rule.string d)
  items : ListHalts cs (item d)
  indexColumns : ListHalts cs (Rule.indexColumn d)
  columnNames : ListHalts cs (do
    let name ← Rule.identifier d
    let _ ← direction
    return name)
  tables : ListHalts cs (Rule.table d)

theorem progressive_grammar (d : Dialect) (cs : List Char) : Progressive d cs where
  identifier := (moves_identifier d).progresses
  string := (moves_string d).progresses
  table := (moves_table d).progresses
  indexColumn := (moves_indexColumn d).progresses
  index := (moves_index d).progresses
  columnAttribute := (moves_columnAttribute d).progressesBut
  column := (moves_column d).progressesBut
  attributes := (moves_columnAttribute d).halts
  members := (moves_string d).listHalts
  items := (moves_item d).listHalts
  indexColumns := (moves_indexColumn d).listHalts
  columnNames := (moves_columnName d).listHalts
  tables := (moves_table d).listHalts

theorem not_progresses_of_end {p n : Nat}
    (ends : ((r.read (.place cs p)).map (·.2.position)).toOption = some n) (outside : cs.length < n) :
    ¬ Progresses cs r := by
  intro claim
  cases found : r.read (.place cs p) with
  | error failure =>
    rw [found] at ends
    contradiction
  | ok result =>
    rw [found] at ends
    have position : result.2.position = n := Option.some.inj ends
    have bound := (claim p result.1 result.2 found).2
    omega

/-- A keyword is counted for one letter more than there is, by attributes as by columns. -/
theorem not_progresses_ligature : (¬ ∀ (d : Dialect) (cs : List Char), Progresses cs (columnAttribute d)) ∧
    ¬ ∀ (d : Dialect) (cs : List Char), Progresses cs (column d) := by
  have timestamp : ¬ Progresses "DEFAULT CURRENT_TIMEﬆAMP".toList (columnAttribute .mysql) :=
    not_progresses_of_end (p := 0) (n := 25) (by decide +kernel) (by decide)
  have zerofill : ¬ Progresses "a int ZEROﬁLL".toList (column .mysql) :=
    not_progresses_of_end (p := 0) (n := 14) (by decide +kernel) (by decide)
  exact ⟨fun claim => timestamp (claim .mysql _), fun claim => zerofill (claim .mysql _)⟩

end Rule
end SqlSchema.Reader
