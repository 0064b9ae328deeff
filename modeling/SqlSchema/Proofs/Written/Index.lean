import SqlSchema.Proofs.Written.Column

/-! Index definitions as they are written inside a table: perhaps a constraint, the words that say what index it is,
perhaps a name, and the columns with prefix lengths and directions. -/
namespace SqlSchema.Written
open Text Reader

inductive Direction where
  | ascending
  | descending
deriving DecidableEq

def Direction.word : Direction → String
  | .ascending => "ASC"
  | .descending => "DESC"

def Direction.chars (o : Option Direction) : List Char := (o.map fun o => spaced [o.word]).getD []

/-- A column of an index. -/
structure Part where
  column : Name
  length : Option Numeral := none
  direction : Option Direction := none
deriving DecidableEq

namespace Part

def chars (d : Dialect) (p : Part) : List Char :=
  p.column.quoted d ++ ((p.length.map fun n => '(' :: (n.chars ++ [')'])).getD [] ++ Direction.chars p.direction)

def tree (p : Part) : Tree.IndexColumn := { column := p.column.text, length := p.length.map Numeral.literal }

def decoded (p : Part) : SqlSchema.IndexColumn := { column := p.column.text, length := p.length.map Numeral.decoded }

theorem gives_decoded (p : Part) : (IndexColumn.ofTree p.tree).Gives p.decoded := by
  simp only [IndexColumn.ofTree, Attempt.gives_bind, Attempt.gives_pure]
  exact ⟨_, Numeral.gives_literal? p.length, rfl⟩

end Part

inductive KeyWord where
  | key
  | index
deriving DecidableEq

def KeyWord.upper : KeyWord → String
  | .key => "KEY"
  | .index => "INDEX"

def KeyWord.lower : KeyWord → String
  | .key => "key"
  | .index => "index"

/-- `KEY` or `INDEX` behind another word, if it is there. -/
def KeyWord.words (w : Option KeyWord) : List String := (w.map KeyWord.upper).toList

/-- The name of a kind of index, `KEY` or `INDEX` included if it is written. -/
def KeyWord.after (kind : String) (w : Option KeyWord) : String := (w.map fun w => kind ++ " " ++ w.lower).getD kind

inductive Special where
  | spatial
  | fulltext
deriving DecidableEq

def Special.upper : Special → String
  | .spatial => "SPATIAL"
  | .fulltext => "FULLTEXT"

def Special.lower : Special → String
  | .spatial => "spatial"
  | .fulltext => "fulltext"

/-- A name behind a space, if there is one. -/
def nameChars (d : Dialect) (name : Option Name) : List Char := (name.map fun n => ' ' :: n.quoted d).getD []

/-- A constraint with or without a name of its own. -/
def constraintChars (d : Dialect) : Option (Option Name) → List Char
  | none => []
  | some name => spaced ["CONSTRAINT"] ++ nameChars d name

/-- The kinds of indexes, each with what it takes in front of its columns. -/
inductive Head where
  | primary (constraint : Option (Option Name))
  | unique (constraint : Option (Option Name)) (word : Option KeyWord) (name : Option Name)
  | plain (word : KeyWord) (name : Option Name)
  | special (kind : Special) (word : Option KeyWord) (name : Option Name)
deriving DecidableEq

namespace Head

def constraint : Head → Option (Option Name)
  | .primary constraint | .unique constraint _ _ => constraint
  | _ => none

def words : Head → List String
  | .primary _ => ["PRIMARY", "KEY"]
  | .unique _ word _ => "UNIQUE" :: KeyWord.words word
  | .plain word _ => [word.upper]
  | .special kind word _ => kind.upper :: KeyWord.words word

def ownName : Head → Option Name
  | .primary _ => none
  | .unique _ _ name | .plain _ name | .special _ _ name => name

/-- The words and names in front of the columns, each behind a space. -/
def chars (d : Dialect) (h : Head) : List Char :=
  constraintChars d h.constraint ++ (spaced h.words ++ nameChars d h.ownName)

def type : Head → String
  | .primary _ => "primary key"
  | .unique _ word _ => KeyWord.after "unique" word
  | .plain word _ => word.lower
  | .special kind word _ => KeyWord.after kind.lower word

/-- The name of the index: its own, else that of its constraint. A primary key has a name in any case. -/
def name (h : Head) : String :=
  match h.ownName <|> h.constraint.join with
  | some n => n.text
  | none => match h with
    | .primary _ => "PRIMARY"
    | _ => ""

def isPrimary : Head → Bool
  | .primary _ => true
  | _ => false

def isUnique : Head → Bool
  | .primary _ | .unique _ _ _ => true
  | _ => false

end Head

structure Index where
  head : Head
  parts : List Part
  filled : parts ≠ []
deriving DecidableEq

namespace Index

/-- The list of columns, behind a space. -/
def columnChars (d : Dialect) (gap : Nat) (parts : List Part) : List Char :=
  ' ' :: '(' :: (joined gap (parts.map (Part.chars d)) ++ [')'])

/-- The first word needs no space in front of it. -/
def chars (d : Dialect) (gap : Nat) (i : Index) : List Char := (i.head.chars d).tail ++ columnChars d gap i.parts

def tree (i : Index) : Tree.Index :=
  { type := i.head.type, name := i.head.name, primary := i.head.isPrimary, unique := i.head.isUnique
    columns := i.parts.map Part.tree }

/-- The index that is defined. -/
def decoded (i : Index) : SqlSchema.Index :=
  { type := i.head.type, name := i.head.name, primary := i.head.isPrimary, unique := i.head.isUnique
    columns := i.parts.map Part.decoded }

end Index

/-- What is attempted for each of several trees succeeds for all. -/
theorem gives_mapM {α β γ : Type} {f : β → Attempt Rejection γ} (tree : α → β) (decoded : α → γ)
    (each : ∀ a, (f (tree a)).Gives (decoded a)) (items : List α) :
    ((items.map tree).mapM f).Gives (items.map decoded) := by
  induction items with
  | nil => exact (Attempt.gives_pure _ _).mpr rfl
  | cons first more ih =>
    simp only [List.map_cons, List.mapM_cons, Attempt.gives_bind, Attempt.gives_pure]
    exact ⟨_, each first, _, ih, rfl⟩

theorem Index.gives_decoded (i : Index) : (Index.ofTree i.tree).Gives i.decoded := by
  simp only [SqlSchema.Index.ofTree, Attempt.gives_bind, Attempt.gives_pure]
  exact ⟨_, gives_mapM Part.tree Part.decoded Part.gives_decoded i.parts, rfl⟩

end SqlSchema.Written

namespace SqlSchema.Reader.Rule
open Text Written

variable {rest : List Char}

/-! Columns of an index. -/

theorem takes_direction (o : Option Direction) (closed : Closed rest) :
    ∃ found, direction.Takes (Direction.chars o ++ rest) found rest := by
  cases o with
  | none =>
    refine ⟨none, Refuses.optional (refuses_choice _ _ fun r member => ?_)⟩
    have onward : Onward [] rest := .closed closed
    rcases List.mem_pair.mp member with rfl | rfl
    · exact onward.refuses_keyword "ASC" (by decide) (by decide) (by decide)
    · exact onward.refuses_keyword "DESC" (by decide) (by decide) (by decide)
  | some o =>
    refine ⟨some (), Takes.optional ?_⟩
    have spoken : ∀ word ∈ ["ASC", "DESC"], Spoken word := by decide
    change Takes _ (spaced [o.word] ++ rest) _ _
    rw [spaced_cons, takes_gap ' ' rfl]
    cases o with
    | ascending => exact Takes.choice _ (takes_keyword (spoken _ (by simp)) closed.parted.not_touching)
    | descending =>
      have other : (keyword "ASC").Refuses ("DESC".toList ++ (spaced [] ++ rest)) :=
        refuses_keyword (spoken _ (by simp)).seen (by decide)
      exact other.choice (Takes.choice _ (takes_keyword (spoken _ (by simp)) closed.parted.not_touching))

theorem onward_direction (o : Option Direction) (closed : Closed rest) :
    Onward ["ASC", "DESC"] (Direction.chars o ++ rest) := by
  cases o with
  | none => exact .closed closed
  | some o =>
    change Onward _ (spaced [o.word] ++ rest)
    rw [spaced_cons]
    cases o <;> exact .word (by simp [Direction.word]) _

theorem ne_nameMark (d : Dialect) (c : Char) (among : c ∈ [' ', '(', ')', ',', '.']) : c ≠ nameMark d := by
  rintro rfl
  revert among
  cases d <;> decide

theorem Parted.ne_nameMark {cs : List Char} (parted : Parted cs) (d : Dialect) : cs.head? ≠ some (nameMark d) := by
  obtain ⟨c, separator, head⟩ := parted
  have among : ∀ c ∈ separators, c ∈ [' ', '(', ')', ',', '.'] := by decide
  rw [head]
  intro same
  exact Rule.ne_nameMark d c (among c separator) (Option.some.inj same)

theorem takes_part (d : Dialect) (p : Part) (closed : Closed rest) :
    (indexColumn d).Takes (p.chars d ++ rest) p.tree rest := by
  have ordered := onward_direction p.direction closed
  obtain ⟨found, direction⟩ := takes_direction p.direction closed
  have split : p.chars d ++ rest = p.column.quoted d ++ ((p.length.map fun n => '(' :: (n.chars ++ [')'])).getD [] ++
      (Direction.chars p.direction ++ rest)) := by
    simp [Part.chars]
  unfold Part.tree
  rw [split]
  cases p.length with
  | none =>
    have name := takes_identifier d p.column (Parted.ne_nameMark ordered.parted d)
    have bare : (parenthesized integer).Refuses (Direction.chars p.direction ++ rest) :=
      (ordered.refuses_mark (by decide) (by decide) (by decide)).bind
    exact name.bind (bare.optional.bind (direction.bind (takes_pure _ _)))
  | some n =>
    have around : (parenthesized integer).Takes ('(' :: (n.chars ++ ')' :: (Direction.chars p.direction ++ rest)))
        n.literal (Direction.chars p.direction ++ rest) :=
      takes_parenthesized (takes_integer n (parted_cons ')' _ (by decide)))
    have parted : Parted ('(' :: (n.chars ++ ')' :: (Direction.chars p.direction ++ rest))) :=
      parted_cons '(' _ (by decide)
    have name := takes_identifier d p.column (Parted.ne_nameMark parted d)
    have length : (n.chars ++ [')']) ++ (Direction.chars p.direction ++ rest) =
        n.chars ++ ')' :: (Direction.chars p.direction ++ rest) := by simp
    rw [Option.map_some, Option.getD_some, List.cons_append, length]
    exact name.bind (around.optional.bind (direction.bind (takes_pure _ _)))

theorem takes_indexColumns (rest : List Char) (d : Dialect) (gap : Nat) (parts : List Part) (filled : parts ≠ []) :
    (indexColumns d).Takes (Index.columnChars d gap parts ++ rest) (parts.map Part.tree) rest := by
  have each : ∀ p ∈ parts, ∀ rest, Closed rest → (indexColumn d).Takes (p.chars d ++ rest) p.tree rest :=
    fun p _ _ closed => takes_part d p closed
  have split : Index.columnChars d gap parts ++ rest =
      ' ' :: '(' :: (joined gap (parts.map (Part.chars d)) ++ ')' :: rest) := by
    simp [Index.columnChars]
  rw [split, takes_gap ' ' rfl]
  exact takes_parenthesized (takes_listOf gap (Part.chars d) Part.tree parts filled each)

/-! What stands in front of the columns. -/

/-- A name between quotes or a list of columns comes next. -/
def Named (d : Dialect) (cs : List Char) : Prop := ∃ c ∈ ['(', nameMark d], ∃ more, cs = ' ' :: c :: more

namespace Named

variable {d : Dialect} {cs : List Char}

theorem parted (named : Named d cs) : Parted cs := by
  obtain ⟨c, _, more, rfl⟩ := named
  exact parted_cons ' ' _ (by decide)

theorem refuses_keyword (named : Named d cs) (word : String) (apart : ∀ c ∈ ['(', '\x60', '\x22'], Apart word [c]) :
    (keyword word).Refuses cs := by
  obtain ⟨c, among, more, rfl⟩ := named
  have marks : ∀ d, ∀ c ∈ ['(', nameMark d], Cursor.isGap c = false ∧ c ∈ ['(', '\x60', '\x22'] := by
    intro d
    cases d <;> decide
  obtain ⟨seen, inside⟩ := marks d c among
  exact (refuses_gap ' ' rfl).mpr (refuses_keyword_of_char seen (apart c inside))

theorem columns (gap : Nat) (parts : List Part) : Named d (Index.columnChars d gap parts ++ rest) :=
  ⟨'(', by simp, _, rfl⟩

theorem name (name : Option Name) (named : Named d cs) : Named d (nameChars d name ++ cs) := by
  cases name with
  | none => exact named
  | some n => exact ⟨nameMark d, by simp, _, rfl⟩

theorem unused (named : Named d cs) : usingMethod.Refuses cs := (named.refuses_keyword "USING" (by decide)).bind

end Named

theorem takes_optionalName (d : Dialect) (name : Option Name) (more : List Char) :
    (optional (indexName d)).Takes (nameChars d name ++ ' ' :: '(' :: more) (name.map (·.text)) (' ' :: '(' :: more) := by
  have listed : Named d (' ' :: '(' :: more) := ⟨'(', by simp, more, rfl⟩
  have free := ((listed.name name).refuses_keyword "USING" (by decide)).without (.keyword "USING")
  cases name with
  | none =>
    have other : '(' ≠ nameMark d := ne_nameMark d '(' (by simp)
    have bare : (identifier d).Refuses (' ' :: '(' :: more) :=
      (refuses_gap ' ' rfl).mpr (refuses_identifier (by decide) other (by decide))
    exact (free.refuses bare).optional
  | some n =>
    have taken := (takes_gap ' ' rfl).mpr (takes_identifier d n (Parted.ne_nameMark listed.parted d))
    exact (free.bind taken).optional

theorem takes_indexBody (d : Dialect) (name : Option Name) (gap : Nat) (parts : List Part) (filled : parts ≠ [])
    (unused : usingMethod.Refuses rest) :
    (indexBody d).Takes (nameChars d name ++ (Index.columnChars d gap parts ++ rest))
      (name.map (·.text), parts.map Part.tree) rest := by
  have before : usingMethod.Refuses (Index.columnChars d gap parts ++ rest) := (Named.columns gap parts).unused (d := d)
  have columns := takes_indexColumns rest d gap parts filled
  exact (takes_optionalName d name _).bind (before.optional.bind (columns.bind
    (unused.optional.bind (takes_pure _ _))))

theorem spoken_keyWord (w : KeyWord) : Spoken w.upper := by cases w <;> decide

theorem spoken_special (kind : Special) : Spoken kind.upper := by cases kind <;> decide

/-- `KEY` or `INDEX`, where the second must not be taken for the first. -/
theorem takes_keyWord (shape : Shape) (w : KeyWord) (parted : Parted rest) :
    (choice shape [constant "key" ["KEY"], constant "index" ["INDEX"]]).Takes (spaced [w.upper] ++ rest) w.lower rest := by
  have apart : (constant "key" ["KEY"]).Refuses (spaced ["INDEX"] ++ rest) := by
    rw [spaced_cons]
    exact (refuses_keywords _ (refuses_keyword_of_word (by decide) (by decide))).bind
  cases w with
  | key => exact Takes.choice _ (takes_constant _ (by decide) (by decide) parted)
  | index => exact apart.choice (Takes.choice _ (takes_constant _ (by decide) (by decide) parted))

theorem takes_optionalKeyWord {d : Dialect} (w : Option KeyWord) (named : Named d rest) :
    (optional keyWord).Takes (spaced (KeyWord.words w) ++ rest) (w.map KeyWord.lower) rest := by
  cases w with
  | none =>
    refine Refuses.optional (refuses_choice _ _ fun r member => ?_)
    rcases List.mem_pair.mp member with rfl | rfl
    · exact (named.refuses_keyword "KEY" (by decide)).bind
    · exact (named.refuses_keyword "INDEX" (by decide)).bind
  | some w => exact (takes_keyWord _ w named.parted).optional

theorem takes_uniqueType {d : Dialect} (w : Option KeyWord) (named : Named d rest) :
    uniqueType.Takes (spaced ("UNIQUE" :: KeyWord.words w) ++ rest) (KeyWord.after "unique" w) rest := by
  have first : (keyword "UNIQUE").Takes (spaced ("UNIQUE" :: KeyWord.words w) ++ rest) ()
      (spaced (KeyWord.words w) ++ rest) := by
    rw [spaced_cons, takes_gap ' ' rfl]
    refine takes_keyword (by decide) ?_
    cases w with
    | none => exact named.parted.not_touching
    | some w => exact touches_of_gap ' ' rfl
  unfold uniqueType
  cases w with
  | none =>
    have keyless := named.refuses_keyword "KEY" (by decide)
    have indexless := named.refuses_keyword "INDEX" (by decide)
    refine Refuses.choice (refuses_keywords_later _ first keyless).bind ?_
    refine Refuses.choice (refuses_keywords_later _ first indexless).bind ?_
    exact Takes.choice _ (takes_constant _ (by decide) (by decide) named.parted)
  | some w =>
    cases w with
    | key => exact Takes.choice _ (takes_constant _ (by decide) (by decide) named.parted)
    | index =>
      have keyless : (keyword "KEY").Refuses (spaced ["INDEX"] ++ rest) := by
        rw [spaced_cons]
        exact refuses_keyword_of_word (by decide) (by decide)
      refine Refuses.choice (refuses_keywords_later _ first keyless).bind ?_
      exact Takes.choice _ (takes_constant _ (by decide) (by decide) named.parted)

/-! Constraints. -/

/-- What a constraint may be: a text that begins with `PRIMARY KEY` or `UNIQUE`. -/
def Constrained (cs : List Char) : Prop :=
  Parted cs ∧ (keyword "CONSTRAINT").Refuses cs ∧
    ∃ rest, (choice (.named "constraint type") [primaryKey, keyword "UNIQUE"]).Takes cs () rest

theorem constrained_primary (parted : Parted rest) : Constrained (spaced ["PRIMARY", "KEY"] ++ rest) := by
  have key := takes_keywords (List.cons_ne_nil "PRIMARY" ["KEY"]) (by decide) parted.not_touching
  refine ⟨parted_cons ' ' _ (by decide), ?_, rest, Takes.choice _ key⟩
  rw [spaced_cons]
  exact refuses_keyword_of_word (by decide) (by decide)

theorem constrained_unique (parted : Parted rest) : Constrained (spaced ["UNIQUE"] ++ rest) := by
  have word : (keyword "UNIQUE").Takes (spaced ["UNIQUE"] ++ rest) () rest :=
    takes_keywords (List.cons_ne_nil "UNIQUE" []) (by decide) parted.not_touching
  rw [spaced_cons] at word ⊢
  have other : primaryKey.Refuses (' ' :: ("UNIQUE".toList ++ (spaced [] ++ rest))) :=
    refuses_keywords _ (refuses_keyword_of_word (by decide) (by decide))
  refine ⟨parted_cons ' ' _ (by decide), ?_, rest, other.choice (Takes.choice _ word)⟩
  exact refuses_keyword_of_word (by decide) (by decide)

theorem takes_constraint (d : Dialect) (constraint : Option (Option Name)) (constrained : Constrained rest) :
    (optional (constraintName d)).Takes (constraintChars d constraint ++ rest) (constraint.map (·.map (·.text)))
      rest := by
  obtain ⟨parted, other, _, kind⟩ := constrained
  cases constraint with
  | none => exact Refuses.optional other.bind
  | some name =>
    have word (cs : List Char) (parted : Parted cs) :
        (keyword "CONSTRAINT").Takes (spaced ["CONSTRAINT"] ++ cs) () cs :=
      takes_keywords (List.cons_ne_nil "CONSTRAINT" []) (by decide) parted.not_touching
    apply Takes.optional
    cases name with
    | none =>
      have nameless : (do
          without (.choice [primaryKeyShape, .keyword "UNIQUE"])
            (choice (.named "constraint type") [primaryKey, keyword "UNIQUE"])
          identifier d).Refuses rest := (kind.without _).bind
      have split : constraintChars d (some none) ++ rest = spaced ["CONSTRAINT"] ++ rest := by
        simp [constraintChars, nameChars]
      rw [split]
      exact (word rest parted).bind nameless.optional
    | some n =>
      have named : Named d (' ' :: (n.quoted d ++ rest)) := ⟨nameMark d, by simp, _, rfl⟩
      have kindless : (choice (.named "constraint type") [primaryKey, keyword "UNIQUE"]).Refuses
          (' ' :: (n.quoted d ++ rest)) := by
        refine refuses_choice _ _ fun r member => ?_
        rcases List.mem_pair.mp member with rfl | rfl
        · exact refuses_keywords _ (named.refuses_keyword "PRIMARY" (by decide))
        · exact named.refuses_keyword "UNIQUE" (by decide)
      have taken := (takes_gap ' ' rfl).mpr (takes_identifier d n (Parted.ne_nameMark parted d))
      have split :
          constraintChars d (some (some n)) ++ rest = spaced ["CONSTRAINT"] ++ ' ' :: (n.quoted d ++ rest) := by
        simp [constraintChars, nameChars]
      rw [split]
      exact (word _ named.parted).bind ((kindless.without _).bind taken).optional

/-! Indexes. -/

theorem givenName?_text (name : Option Name) : givenName? (name.map (·.text)) = name.map (·.text) := by
  cases name with
  | none => rfl
  | some n =>
    have filled : n.text.isEmpty = false := by simp [n.filled]
    simp [givenName?, filled]

theorem join_text (constraint : Option (Option Name)) :
    (constraint.map fun name => name.map (·.text)).join = constraint.join.map (·.text) := by
  cases constraint <;> rfl

theorem openedBy_constraint {β : Type} (d : Dialect) {word : String} {next : Option (Option String) → Rule β}
    (opened : (next none).OpenedBy ["CONSTRAINT", word]) :
    (optional (constraintName d) >>= next).OpenedBy ["CONSTRAINT", word] :=
  OpenedBy.optional (openedBy_keyword (by simp)).bind opened

theorem openedBy_primaryIndex (d : Dialect) : (primaryIndex d).OpenedBy ["CONSTRAINT", "PRIMARY"] :=
  openedBy_constraint d (openedBy_keywords (by simp) _).bind

theorem openedBy_uniqueIndex (d : Dialect) : (uniqueIndex d).OpenedBy ["CONSTRAINT", "UNIQUE"] := by
  refine openedBy_constraint d (openedBy_choice _ fun r member => ?_).bind
  simp only [List.mem_cons, List.not_mem_nil, or_false] at member
  rcases member with rfl | rfl | rfl <;> exact openedBy_constant (by simp) _ _

theorem openedBy_plainIndex (d : Dialect) : (plainIndex d).OpenedBy ["SPATIAL", "FULLTEXT", "KEY", "INDEX"] := by
  refine (openedBy_choice _ fun r member => ?_).bind
  simp only [List.mem_cons, List.not_mem_nil, or_false] at member
  rcases member with rfl | rfl | rfl
  · refine (openedBy_choice _ fun r member => ?_).bind
    rcases List.mem_pair.mp member with rfl | rfl <;> exact openedBy_constant (by simp) _ _
  · exact openedBy_constant (by simp) _ _
  · exact openedBy_constant (by simp) _ _

section Index
variable (d : Dialect) (gap : Nat) (parts : List Part) (filled : parts ≠ []) (unused : usingMethod.Refuses rest)
include filled unused

theorem takes_primaryIndex (constraint : Option (Option Name)) :
    (primaryIndex d).Takes ((Head.primary constraint).chars d ++ (Index.columnChars d gap parts ++ rest))
      (Index.tree ⟨.primary constraint, parts, filled⟩) rest := by
  have before : usingMethod.Refuses (Index.columnChars d gap parts ++ rest) := (Named.columns gap parts).unused (d := d)
  have parted : Parted (Index.columnChars d gap parts ++ rest) := parted_cons ' ' _ (by decide)
  have key : primaryKey.Takes (spaced ["PRIMARY", "KEY"] ++ (Index.columnChars d gap parts ++ rest)) ()
      (Index.columnChars d gap parts ++ rest) :=
    takes_keywords (List.cons_ne_nil "PRIMARY" ["KEY"]) (by decide) parted.not_touching
  have columns := takes_indexColumns rest d gap parts filled
  have split : (Head.primary constraint).chars d ++ (Index.columnChars d gap parts ++ rest) =
      constraintChars d constraint ++ (spaced ["PRIMARY", "KEY"] ++ (Index.columnChars d gap parts ++ rest)) := by
    simp [Head.chars, Head.constraint, Head.words, Head.ownName, nameChars]
  have tree : Index.tree ⟨.primary constraint, parts, filled⟩ =
      { type := "primary key"
        name := (givenName? (constraint.map fun name => name.map (·.text)).join).getD "PRIMARY"
        primary := true, unique := true, columns := parts.map Part.tree } := by
    rw [join_text, givenName?_text]
    cases constraint with
    | none => rfl
    | some name => cases name <;> rfl
  rw [split, tree]
  exact (takes_constraint d constraint (constrained_primary parted)).bind (key.bind (before.optional.bind
    (columns.bind (unused.optional.bind (takes_pure _ _)))))

theorem takes_uniqueIndex (constraint : Option (Option Name)) (word : Option KeyWord) (name : Option Name) :
    (uniqueIndex d).Takes ((Head.unique constraint word name).chars d ++ (Index.columnChars d gap parts ++ rest))
      (Index.tree ⟨.unique constraint word name, parts, filled⟩) rest := by
  have named : Named d (nameChars d name ++ (Index.columnChars d gap parts ++ rest)) :=
    (Named.columns gap parts).name name
  have body := takes_indexBody d name gap parts filled unused
  have type := takes_uniqueType word named
  have constrained : Constrained (spaced ("UNIQUE" :: KeyWord.words word) ++
      (nameChars d name ++ (Index.columnChars d gap parts ++ rest))) := by
    have parted : Parted (spaced (KeyWord.words word) ++ (nameChars d name ++
        (Index.columnChars d gap parts ++ rest))) := by
      cases word with
      | none => exact named.parted
      | some w => exact parted_cons ' ' _ (by decide)
    simpa [spaced] using constrained_unique parted
  have split : (Head.unique constraint word name).chars d ++ (Index.columnChars d gap parts ++ rest) =
      constraintChars d constraint ++ (spaced ("UNIQUE" :: KeyWord.words word) ++
        (nameChars d name ++ (Index.columnChars d gap parts ++ rest))) := by
    simp [Head.chars, Head.constraint, Head.words, Head.ownName]
  have tree : Index.tree ⟨.unique constraint word name, parts, filled⟩ =
      { type := KeyWord.after "unique" word
        name := (givenName? (name.map (·.text)) <|>
          givenName? (constraint.map fun name => name.map (·.text)).join).getD ""
        unique := true, columns := parts.map Part.tree } := by
    rw [join_text, givenName?_text, givenName?_text]
    cases name with
    | some n => rfl
    | none =>
      cases constraint with
      | none => rfl
      | some name => cases name <;> rfl
  rw [split, tree]
  exact (takes_constraint d constraint constrained).bind (type.bind (body.bind (takes_pure _ _)))

theorem takes_plainIndex {type : String} {words : List Char} (name : Option Name)
    (kind : keyType.Takes (words ++ (nameChars d name ++ (Index.columnChars d gap parts ++ rest))) type
      (nameChars d name ++ (Index.columnChars d gap parts ++ rest))) :
    (plainIndex d).Takes (words ++ (nameChars d name ++ (Index.columnChars d gap parts ++ rest)))
      { type, name := (name.map (·.text)).getD "", columns := parts.map Part.tree } rest := by
  have body := takes_indexBody d name gap parts filled unused
  rw [← givenName?_text]
  exact kind.bind (body.bind (takes_pure _ _))

end Index

theorem takes_keyType_plain (w : KeyWord) (parted : Parted rest) :
    keyType.Takes (spaced [w.upper] ++ rest) w.lower rest := by
  have special : (choice (.choice [.keyword "SPATIAL", .keyword "FULLTEXT"])
      [constant "spatial" ["SPATIAL"], constant "fulltext" ["FULLTEXT"]]).Refuses (spaced [w.upper] ++ rest) := by
    refine refuses_choice _ _ fun r member => ?_
    rw [spaced_cons]
    rcases List.mem_pair.mp member with rfl | rfl <;> cases w <;>
      exact (refuses_keywords _ (refuses_keyword_of_word (by decide) (by decide))).bind
  exact Refuses.choice special.bind (takes_keyWord _ w parted)

theorem takes_keyType_special {d : Dialect} (kind : Special) (w : Option KeyWord) (named : Named d rest) :
    keyType.Takes (spaced (kind.upper :: KeyWord.words w) ++ rest) (KeyWord.after kind.lower w) rest := by
  have parted : Parted (spaced (KeyWord.words w) ++ rest) := by
    cases w with
    | none => exact named.parted
    | some w => exact parted_cons ' ' _ (by decide)
  have split : spaced (kind.upper :: KeyWord.words w) ++ rest =
      spaced [kind.upper] ++ (spaced (KeyWord.words w) ++ rest) := by simp [spaced]
  have first : (choice (.choice [.keyword "SPATIAL", .keyword "FULLTEXT"])
      [constant "spatial" ["SPATIAL"], constant "fulltext" ["FULLTEXT"]]).Takes
      (spaced [kind.upper] ++ (spaced (KeyWord.words w) ++ rest)) kind.lower (spaced (KeyWord.words w) ++ rest) := by
    cases kind with
    | spatial => exact Takes.choice _ (takes_constant _ (by decide) (by decide) parted)
    | fulltext =>
      have other : (constant "spatial" ["SPATIAL"]).Refuses
          (spaced ["FULLTEXT"] ++ (spaced (KeyWord.words w) ++ rest)) := by
        rw [spaced_cons]
        exact (refuses_keywords _ (refuses_keyword_of_word (by decide) (by decide))).bind
      exact other.choice (Takes.choice _ (takes_constant _ (by decide) (by decide) parted))
  have second := takes_optionalKeyWord w named
  rw [split]
  refine Takes.choice _ (first.bind (second.bind ?_))
  cases w <;> exact takes_pure _ _

theorem chars_head (d : Dialect) (h : Head) :
    ∃ word ∈ indexWords, ∃ more, h.chars d = ' ' :: (word.toList ++ more) := by
  have front (word : String) (member : word ∈ indexWords) (words : List String) (more : List Char)
      (split : h.chars d = spaced (word :: words) ++ more) :
      ∃ word ∈ indexWords, ∃ more, h.chars d = ' ' :: (word.toList ++ more) :=
    ⟨word, member, _, split.trans (spaced_cons word words more)⟩
  cases h with
  | primary constraint =>
    cases constraint with
    | none => exact front "PRIMARY" (by decide) ["KEY"] _ rfl
    | some name => exact front "CONSTRAINT" (by decide) [] _ (List.append_assoc _ _ _)
  | unique constraint word name =>
    cases constraint with
    | none => exact front "UNIQUE" (by decide) (KeyWord.words word) _ rfl
    | some own => exact front "CONSTRAINT" (by decide) [] _ (List.append_assoc _ _ _)
  | plain word name => cases word <;> exact front _ (by decide) [] _ rfl
  | special kind word name => cases kind <;> exact front _ (by decide) (KeyWord.words word) _ rfl

/-- A unique index is none that begins with `PRIMARY KEY`, whatever its constraint. -/
theorem refuses_primaryIndex (d : Dialect) (constraint : Option (Option Name)) {more : List Char}
    (constrained : Constrained (spaced ["UNIQUE"] ++ more)) :
    (primaryIndex d).Refuses (constraintChars d constraint ++ (spaced ["UNIQUE"] ++ more)) := by
  have other : primaryKey.Refuses (spaced ["UNIQUE"] ++ more) := by
    rw [spaced_cons]
    exact refuses_keywords _ (refuses_keyword_of_word (by decide) (by decide))
  exact (takes_constraint d constraint constrained).refuses other.bind

/-- Words that begin neither a constraint nor what may be one. -/
theorem refuses_constrained (d : Dialect) {word : String} (words : List String) (more : List Char)
    (spoken : Spoken word) (apart : ∀ other ∈ ["CONSTRAINT", "PRIMARY", "UNIQUE"], Apart other word.toList) :
    (primaryIndex d).Refuses (spaced (word :: words) ++ more) ∧
      (uniqueIndex d).Refuses (spaced (word :: words) ++ more) := by
  have primary : ∀ other ∈ ["CONSTRAINT", "PRIMARY"], Apart other word.toList :=
    fun other member => apart other (by revert member; simp; tauto)
  have unique : ∀ other ∈ ["CONSTRAINT", "UNIQUE"], Apart other word.toList :=
    fun other member => apart other (by revert member; simp; tauto)
  rw [spaced_cons]
  exact ⟨openedBy_primaryIndex d _ (foreign_of_word spoken primary),
    openedBy_uniqueIndex d _ (foreign_of_word spoken unique)⟩

theorem takes_index_behind (d : Dialect) (gap : Nat) (i : Written.Index) (unused : usingMethod.Refuses rest) :
    (index d).Takes (i.head.chars d ++ (Index.columnChars d gap i.parts ++ rest)) i.tree rest := by
  obtain ⟨head, parts, filled⟩ := i
  have named (name : Option Name) : Named d (nameChars d name ++ (Index.columnChars d gap parts ++ rest)) :=
    (Named.columns gap parts).name name
  cases head with
  | primary constraint => exact Takes.choice _ (takes_primaryIndex d gap parts filled unused constraint)
  | unique constraint word name =>
    have taken := takes_uniqueIndex d gap parts filled unused constraint word name
    have split : (Head.unique constraint word name).chars d ++ (Index.columnChars d gap parts ++ rest) =
        constraintChars d constraint ++ (spaced ["UNIQUE"] ++ (spaced (KeyWord.words word) ++
          (nameChars d name ++ (Index.columnChars d gap parts ++ rest)))) := by
      simp [Head.chars, Head.constraint, Head.words, Head.ownName, spaced]
    have parted : Parted (spaced (KeyWord.words word) ++ (nameChars d name ++
        (Index.columnChars d gap parts ++ rest))) := by
      cases word with
      | none => exact (named name).parted
      | some w => exact parted_cons ' ' _ (by decide)
    refine Refuses.choice ?_ (Takes.choice _ taken)
    rw [split]
    exact refuses_primaryIndex d constraint (constrained_unique parted)
  | plain word name =>
    have split : (Head.plain word name).chars d ++ (Index.columnChars d gap parts ++ rest) =
        spaced [word.upper] ++ (nameChars d name ++ (Index.columnChars d gap parts ++ rest)) := by
      simp [Head.chars, Head.constraint, Head.words, Head.ownName, constraintChars]
    have taken := takes_plainIndex d gap parts filled unused name (takes_keyType_plain word (named name).parted)
    have others := refuses_constrained d [] (nameChars d name ++ (Index.columnChars d gap parts ++ rest))
      (spoken_keyWord word) (by cases word <;> decide)
    have tree : Index.tree ⟨.plain word name, parts, filled⟩ =
        { type := word.lower, name := (name.map (·.text)).getD "", columns := parts.map Part.tree } := by
      cases name <;> rfl
    rw [split, tree]
    exact others.1.choice (others.2.choice (Takes.choice _ taken))
  | special kind word name =>
    have split : (Head.special kind word name).chars d ++ (Index.columnChars d gap parts ++ rest) =
        spaced (kind.upper :: KeyWord.words word) ++ (nameChars d name ++ (Index.columnChars d gap parts ++ rest)) := by
      simp [Head.chars, Head.constraint, Head.words, Head.ownName, constraintChars]
    have taken := takes_plainIndex d gap parts filled unused name (takes_keyType_special kind word (named name))
    have others := refuses_constrained d (KeyWord.words word)
      (nameChars d name ++ (Index.columnChars d gap parts ++ rest)) (spoken_special kind)
      (by cases kind <;> decide)
    have tree : Index.tree ⟨.special kind word name, parts, filled⟩ =
        { type := KeyWord.after kind.lower word, name := (name.map (·.text)).getD "", columns := parts.map Part.tree } := by
      cases name <;> rfl
    rw [split, tree]
    exact others.1.choice (others.2.choice (Takes.choice _ taken))

theorem takes_index (d : Dialect) (gap : Nat) (i : Written.Index) (closed : Closed rest) :
    (index d).Takes (i.chars d gap ++ rest) i.tree rest := by
  have onward : Onward [] rest := .closed closed
  have unused : usingMethod.Refuses rest :=
    (onward.refuses_keyword "USING" (by decide) (by decide) (by decide)).bind
  obtain ⟨word, _, more, split⟩ := chars_head d i.head
  have spaced : i.head.chars d ++ (Index.columnChars d gap i.parts ++ rest) = ' ' :: (i.chars d gap ++ rest) := by
    simp [Index.chars, split]
  have taken := takes_index_behind d gap i unused
  rwa [spaced, takes_gap ' ' rfl] at taken

end SqlSchema.Reader.Rule
