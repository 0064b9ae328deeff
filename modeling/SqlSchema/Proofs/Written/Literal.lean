import SqlSchema.Proofs.Reader.Begun
import SqlSchema.Proofs.Statement.Untouched
import SqlSchema.Proofs.Written.RoundTrip

/-! Tables with strings in them: columns with a default value between quotes, and columns with members between quotes.
They are read as what the strings stand for, wherever stripping leaves the statement as it is. -/
namespace SqlSchema.Written
open Text Reader Statement

/-- A string, quoted as the dialect quotes strings. -/
structure Literal (d : Dialect) where
  quote : Quote d
  string : quote.mark ≠ Rule.nameMark d

namespace Literal
variable {d : Dialect}

def chars (l : Literal d) : List Char := l.quote.chars

/-- What the rules read between the quotes. -/
def text (l : Literal d) : String :=
  String.ofList (undouble l.quote.mark (unescape (l.quote.quoting.escape == .any) l.quote.body))

end Literal

/-- What is said of a column: its default value, or its members. -/
inductive Content (α : Type) where
  | default (value : α)
  | members (first : α) (others : List α)

namespace Content
variable {α : Type}

def strings : Content α → List α
  | .default value => [value]
  | .members first others => first :: others

/-- The type and the value or the members. -/
def chars (write : α → List Char) : Content α → List Char
  | .default value => "text".toList ++ ' ' :: ("DEFAULT".toList ++ ' ' :: write value)
  | .members first others => "enum".toList ++ '(' :: (joined 1 ((first :: others).map write) ++ [')'])

def tree (text : α → String) : Content α → Tree.ColumnType
  | .default value => { name := "text", default := some ⟨.string, text value⟩ }
  | .members first others => { name := "enum", members := (first :: others).map text }

end Content

/-- A column that is named by a small letter. -/
structure StringColumn (α : Type) where
  name : Char
  content : Content α
  small : name.isLower = true

theorem isLower_a : 'a'.isLower = true := by decide

theorem isLower_b : 'b'.isLower = true := by decide

namespace StringColumn
variable {α : Type}

def chars (write : α → List Char) (c : StringColumn α) : List Char := c.name :: ' ' :: c.content.chars write

def tree (text : α → String) (c : StringColumn α) : Tree.Column :=
  { name := String.singleton c.name, type := c.content.tree text }

/-- The column that is defined, where the strings stand for these texts. -/
def decoded (text : α → String) (c : StringColumn α) : SqlSchema.Column :=
  match c.content with
  | .default value => { name := String.singleton c.name, typeName := "text", default := some (.string (text value)) }
  | .members first others =>
    { name := String.singleton c.name, typeName := "enum", members := (first :: others).map text }

theorem gives_decoded (text : α → String) (c : StringColumn α) :
    (Column.ofTree (c.tree text)).Gives (c.decoded text) := by
  obtain ⟨name, content, small⟩ := c
  cases content <;> rfl

theorem decoded_inj (text other : α → String) (c : StringColumn α) :
    c.decoded text = c.decoded other ↔ ∀ a ∈ c.content.strings, text a = other a := by
  obtain ⟨name, content, small⟩ := c
  cases content with
  | default value => simp [decoded, Content.strings]
  | members first others => simp [decoded, Content.strings]

end StringColumn

/-- The statement that creates a table of the columns. -/
def stringTable {α : Type} (write : α → List Char) (columns : List (StringColumn α)) : List Char :=
  "CREATE".toList ++ (spaced ["TABLE"] ++ ' ' :: 't' :: ' ' :: '(' ::
    (joined 1 (columns.map (StringColumn.chars write)) ++ [')']))

def decodedTable {α : Type} (text : α → String) (columns : List (StringColumn α)) : SqlSchema.Table :=
  { name := "t", columns := columns.map (StringColumn.decoded text) }

end SqlSchema.Written

namespace SqlSchema.Reader.Rule
open Text Written

variable {d : Dialect} {rest : List Char}

/-! Strings. -/

theorem takes_string (l : Written.Literal d) (apart : rest.head? ≠ some l.quote.mark) :
    (string d).Takes (l.chars ++ rest) l.text rest := by
  have quiet : ∀ c ∈ ['\x27', '\x22', '\x60'], Cursor.isGap c = false ∧ touchesKeyword c = false := by decide
  have mark : Cursor.isGap l.quote.mark = false ∧ touchesKeyword l.quote.mark = false :=
    quiet _ (by simpa using l.quote.mark_cases)
  have taken := takes_quoted l.quote.quoting mark (l.quote.close_append apart)
  have known := l.quote.known
  rw [Literal.chars, l.quote.chars_append]
  cases d with
  | mysql =>
    simp only [Statement.quotings, List.mem_cons, List.not_mem_nil, or_false] at known
    rcases known with same | same | same
    · apply Takes.choice
      rw [← same]
      exact taken
    · have other : l.quote.mark ≠ '\x27' := by
        rw [Statement.Quote.mark, same]
        decide
      refine (refuses_quoted mark.1 other).choice (Takes.choice _ ?_)
      rw [← same]
      exact taken
    · exact absurd (congrArg Quoting.mark same) l.string
  | postgres =>
    simp only [Statement.quotings, List.mem_cons, List.not_mem_nil, or_false] at known
    rcases known with same | same
    · unfold string
      rw [← same]
      exact taken
    · exact absurd (congrArg Quoting.mark same) l.string

theorem Literal.mark_cases (l : Written.Literal d) : l.quote.mark = '\x27' ∨ l.quote.mark = '\x22' := by
  rcases l.quote.mark_cases with single | double | back
  · exact .inl single
  · exact .inr double
  · have known := l.quote.known
    rw [Statement.Quote.mark] at back
    cases d with
    | mysql => exact absurd back l.string
    | postgres =>
      have other : ∀ q ∈ Statement.quotings .postgres, q.mark ≠ '\x60' := by decide
      exact absurd back (other _ known)

/-- Neither a number nor a string with a letter in front begins with a quote. -/
theorem sizes_of_quote {mark : Char} (quote : mark = '\x27' ∨ mark = '\x22') (cs : List Char) :
    hexNumberSize? (mark :: cs) = none ∧ floatSize? (mark :: cs) = none ∧ integerSize? (mark :: cs) = none := by
  rcases quote with rfl | rfl <;> exact ⟨rfl, rfl, rfl⟩

theorem letterString_of_quote {mark letter : Char} (other : mark.toLower ≠ letter) (isPart : Char → Bool)
    (cs : List Char) : letterString? letter isPart (mark :: cs) = none := by
  unfold letterString?
  split
  next same =>
    rw [← (List.cons.inj same).1]
    dsimp only
    split
    · exact if_neg other
    · rfl
  next => rfl

theorem takes_stringValue (l : Written.Literal d) (apart : rest.head? ≠ some l.quote.mark) :
    (value d).Takes (l.chars ++ rest) ⟨.string, l.text⟩ rest := by
  have taken := takes_string l apart
  have quote := Literal.mark_cases l
  have visible : (l.chars ++ rest).head?.any Cursor.isGap = false := by
    rw [Literal.chars, l.quote.chars_append, List.head?_cons]
    rcases quote with same | same <;> rw [same] <;> decide
  have small : l.quote.mark.toLower ≠ 'x' ∧ l.quote.mark.toLower ≠ 'b' := by
    rcases quote with same | same <;> rw [same] <;> decide
  obtain ⟨hex, float, integer⟩ := sizes_of_quote quote (l.quote.body ++ l.quote.mark :: rest)
  apply Takes.choice
  unfold literal
  rw [Literal.chars, l.quote.chars_append] at visible taken ⊢
  refine (refuses_recognised visible ?_).choice ((refuses_recognised visible ?_).choice
    ((refuses_recognised visible ?_).choice ((refuses_recognised visible ?_).choice
      ((refuses_recognised visible ?_).choice (Takes.choice _ (taken.bind (takes_pure _ _)))))))
  · rw [letterString_of_quote small.1, Option.map_none]
  · rw [letterString_of_quote small.2, Option.map_none]
  · rw [hex, Option.map_none]
  · rw [float, Option.map_none]
  · rw [integer, Option.map_none]

theorem Literal.apart (l : Written.Literal d) (closed : Closed rest) : rest.head? ≠ some l.quote.mark := by
  obtain ⟨c, among, head⟩ := closed
  intro same
  have quote := Literal.mark_cases l
  cases Option.some.inj (head.symm.trans same)
  rcases quote with back | back <;> exact absurd (back ▸ among) (by decide)

theorem takes_stringDefault (l : Written.Literal d) (closed : Closed rest) :
    (defaultValue d).Takes (l.chars ++ rest) ⟨.string, l.text⟩ rest := by
  have taken := takes_stringValue l (Literal.apart l closed)
  cases d with
  | mysql => exact taken
  | postgres =>
    have plain : doubleColon.Refuses rest := (Onward.closed closed : Onward [] rest).refuses_doubleColon (by simp)
    exact taken.bind (Takes.bind plain.bind.optional (takes_pure _ _))

/-! Columns. -/

section Columns
variable {α : Type} (spell : α → Written.Literal d)

theorem takes_members (first : α) (others : List α) :
    (columnType d).Takes ("enum".toList ++ '(' :: (joined 1 ((first :: others).map fun a => (spell a).chars) ++
        ')' :: rest))
      { name := "enum", members := (first :: others).map fun a => (spell a).text } rest := by
  have alike : "enum".toList.map Char.toLower = "ENUM".toList.map Char.toLower := by decide
  have begun (more : List Char) : Begins d [.word "ENUM"] ("enum".toList ++ '(' :: more) ('(' :: more) :=
    .word "ENUM" ⟨List.forall_mem_nil _, "enum".toList, rfl, alike⟩ (show touchesKeyword '(' = false by decide) (.nil _)
  have kind (more : List Char) : (constant "enum" ["ENUM"]).Takes ("enum".toList ++ '(' :: more) "enum" ('(' :: more) :=
    Takes.bind (takes_keyword_begun (begun more) (by decide)) (takes_pure _ _)
  have each : ∀ a ∈ first :: others, ∀ rest, Closed rest →
      (string d).Takes ((spell a).chars ++ rest) (spell a).text rest :=
    fun a _ _ closed => takes_string (spell a) (Literal.apart _ closed)
  have listed : (parenthesized (listOf comma (string d))).Takes
      ('(' :: (joined 1 ((first :: others).map fun a => (spell a).chars) ++ ')' :: rest))
      ((first :: others).map fun a => (spell a).text) rest :=
    takes_parenthesized (takes_listOf 1 _ (fun a => (spell a).text) _ (List.cons_ne_nil _ _) each)
  apply Takes.choice
  exact (Takes.choice _ (kind _)).bind (listed.bind (takes_pure _ _))

theorem foreign_small {name : Char} (small : name.isLower = true) : Foreign indexWords (name :: ' ' :: rest) := by
  have apart : ∀ n < 128, (Char.ofNat n).isLower = true →
      Cursor.Seen [Char.ofNat n, ' '] ∧ ∀ word ∈ indexWords, Apart word [Char.ofNat n, ' '] := by decide +kernel
  obtain ⟨seen, each⟩ := forall_ascii
    (P := fun c => c.isLower = true → Cursor.Seen [c, ' '] ∧ ∀ word ∈ indexWords, Apart word [c, ' ']) apart name
    (ascii_of_isAlpha name ((isAlpha_iff name).mpr (.inr small))) small
  intro word member
  have split : name :: ' ' :: rest = [name, ' '] ++ rest := rfl
  rw [split]
  exact refuses_keyword seen (each word member)

/-- A small letter in front of a space is a name. -/
theorem takes_identifier_small (d : Dialect) {name : Char} (small : name.isLower = true) (rest : List Char) :
    (identifier d).Takes (name :: ' ' :: rest) (String.singleton name) (' ' :: rest) := by
  have letter : ∀ c ∈ [name], c.isAlpha = true := List.forall_mem_singleton.mpr ((isAlpha_iff name).mpr (.inr small))
  have taken : (identifier d).Takes ([name] ++ ' ' :: rest) (String.ofList [name]) (' ' :: rest) :=
    takes_identifier_letters d (List.cons_ne_nil name []) letter (touches_of_gap ' ' rfl)
  rw [String.singleton_eq_ofList]
  exact taken

theorem takes_stringColumn (c : StringColumn α) (closed : Closed rest) :
    (column d).Takes (c.chars (fun a => (spell a).chars) ++ rest) (c.tree fun a => (spell a).text) rest := by
  obtain ⟨name, content, small⟩ := c
  have ended : Repeats (columnAttribute d) rest [] rest := repeats_clauses d [] .nil closed
  cases content with
  | default a =>
    have onward {words : List String} (member : "DEFAULT" ∈ words) :
        Onward words (' ' :: ("DEFAULT".toList ++ ' ' :: ((spell a).chars ++ rest))) := .word member _
    have typed := takes_columnType d ⟨"text", by decide, by decide⟩ none (onward (by decide))
    have lower : "text".toLower = "text" := by decide +kernel
    have said : Repeats (columnAttribute d) (' ' :: ("DEFAULT".toList ++ ' ' :: ((spell a).chars ++ rest)))
        [.default ⟨.string, (spell a).text⟩] rest := by
      obtain ⟨first, more, letters, seen⟩ := (by decide : Cursor.Seen "DEFAULT".toList).split
      have shorter := (List.dropWhile_suffix (l := rest) Cursor.isGap).length_le
      refine (takes_default d (takes_stringDefault (spell a) closed)).repeats ?_ ended
      rw [List.dropWhile_cons_of_pos rfl, letters, List.cons_append, List.dropWhile_cons_of_neg (by simp [seen])]
      simp only [List.length_cons, List.length_append]
      omega
    rw [lower] at typed
    have taken := takes_bareColumn (foreign_small small) (takes_identifier_small d small _)
      ((takes_gap ' ' rfl).mpr typed) (onward (by decide)) said
    have split : StringColumn.chars (fun a => (spell a).chars) ⟨name, .default a, small⟩ ++ rest =
        name :: ' ' :: ("text".toList ++
          withSize none (' ' :: ("DEFAULT".toList ++ ' ' :: ((spell a).chars ++ rest)))) := by
      simp [StringColumn.chars, Content.chars, withSize]
    rw [split]
    exact taken
  | members first others =>
    have split : StringColumn.chars (fun a => (spell a).chars) ⟨name, .members first others, small⟩ ++ rest =
        name :: ' ' :: ("enum".toList ++ '(' :: (joined 1 ((first :: others).map fun a => (spell a).chars) ++
          ')' :: rest)) := by
      simp [StringColumn.chars, Content.chars]
    rw [split]
    exact takes_bareColumn (foreign_small small) (takes_identifier_small d small _)
      ((takes_gap ' ' rfl).mpr (takes_members spell first others)) (.closed closed) ended

/-! Tables. -/

theorem takes_table_small (d : Dialect) {name : Char} (small : name.isLower = true) (rest : List Char) :
    (table d).Takes (' ' :: name :: ' ' :: '(' :: rest) { name := String.singleton name } (' ' :: '(' :: rest) := by
  have own := takes_identifier_small d small ('(' :: rest)
  have pointless : (mark '.').Refuses (' ' :: '(' :: rest) :=
    (refuses_gap ' ' rfl).mpr (refuses_mark (by decide) (by decide))
  have bare : (do
      let name ← identifier d
      mark '.'
      return name).Refuses (name :: ' ' :: '(' :: rest) := own.refuses pointless.bind
  have whole : (tableName d).Takes (name :: ' ' :: '(' :: rest) ("", String.singleton name) (' ' :: '(' :: rest) :=
    bare.optional.bind (own.bind (takes_pure _ _))
  exact (takes_gap ' ' rfl).mpr (whole.bind (takes_pure _ _))

theorem takes_stringTable {columns : List (StringColumn α)} (filled : columns ≠ []) :
    (statement d).Takes (stringTable (fun a => (spell a).chars) columns)
      { action := Tree.Action.create
        newName := some { name := "t" }
        body := some { columns := columns.map (StringColumn.tree fun a => (spell a).text) } } [] := by
  have each : ∀ c ∈ columns, ∀ rest, Closed rest →
      (item d).Takes (c.chars (fun a => (spell a).chars) ++ rest) (.column (c.tree fun a => (spell a).text)) rest := by
    intro c _ rest closed
    have other : (do return .index (← index d) : Rule Item).Refuses (c.chars (fun a => (spell a).chars) ++ rest) :=
      (refuses_index d (foreign_small c.small)).bind
    exact other.choice (Takes.choice _ ((takes_stringColumn spell c closed).bind (takes_pure _ _)))
  have listed : (parenthesized (listOf comma (item d))).Takes
      (' ' :: '(' :: (joined 1 (columns.map (StringColumn.chars fun a => (spell a).chars)) ++ [')']))
      (columns.map fun c => Item.column (c.tree fun a => (spell a).text)) [] :=
    (takes_gap ' ' rfl).mpr (takes_parenthesized (takes_listOf 1 _ _ columns filled each))
  have always (more : List Char) : (keyword "IF").Refuses (' ' :: 't' :: more) :=
    (refuses_gap ' ' rfl).mpr (refuses_keyword_of_char (by decide) (by decide))
  have kept : (columns.map fun c => Item.column (c.tree fun a => (spell a).text)).filterMap Item.column? =
      columns.map (StringColumn.tree fun a => (spell a).text) := by
    rw [List.filterMap_map]
    exact congrFun List.filterMap_eq_map columns
  have indexless : (columns.map fun c => Item.column (c.tree fun a => (spell a).text)).filterMap Item.index? = [] := by
    rw [List.filterMap_map]
    exact List.filterMap_eq_nil_iff.mpr fun _ _ => rfl
  have whole := takes_create d (always _) (takes_table_small d (by decide) _) listed
  rw [kept, indexless] at whole
  exact whole

end Columns
end SqlSchema.Reader.Rule
