import SqlSchema.Proofs.Definition
import SqlSchema.Proofs.Tree
import SqlSchema.Proofs.Written.IndexStatement
import SqlSchema.Proofs.Written.Neat

/-! What is written is read back. The texts of tables and of statements about indexes are neat, so they lose nothing
before the rules take them. One word must not stand in front of a space: `GO`, which ends a statement. -/
namespace SqlSchema.Written
open Text Reader Token Statement

/-- A neat text that may stand behind a word. -/
structure Behind (d : Dialect) (n : Nat) (cs : List Char) : Prop where
  neat : Neat d n cs
  parted : Parted cs

/-- A word that ends no statement. -/
def Usual (word : String) : Prop :=
  word.toList.head?.any Rule.isWordStart = true ∧ word.toList.all Rule.isPlainWord = true ∧ word ≠ "GO"

instance (word : String) : Decidable (Usual word) := inferInstanceAs (Decidable (_ ∧ _))

section Parts
variable {d : Dialect} {n : Nat} {rest : List Char}

theorem behind_closed (closed : Reader.Closed rest) (neat : Neat d n rest) : Behind d n rest := ⟨neat, closed.parted⟩

theorem Behind.spaced (behind : Behind d n rest) (words : List String) (usual : ∀ word ∈ words, Usual word) :
    Behind d n (spaced words ++ rest) := by
  induction words with
  | nil => exact behind
  | cons word more ih =>
    obtain ⟨⟨begins, plain, other⟩, later⟩ := List.forall_mem_cons.mp usual
    have tail := ih later
    have word : Neat d n (word.toList ++ (Reader.spaced more ++ rest)) :=
      .word ⟨word, begins, plain⟩ tail.parted (fun same => absurd same other) tail.neat
    rw [spaced_cons]
    exact ⟨.space word, parted_cons ' ' _ (by decide)⟩

/-- A word at the beginning of a text. -/
theorem Behind.word (behind : Behind d n rest) (word : String) (usual : Usual word) : Neat d n (word.toList ++ rest) :=
  .word ⟨word, usual.1, usual.2.1⟩ behind.parted (fun same => absurd same usual.2.2) behind.neat

theorem Behind.flag (behind : Behind d n rest) (word : String) (given : Bool) (usual : Usual word) :
    Behind d n (flag given word ++ rest) := by
  cases given with
  | false => exact behind
  | true => exact behind.spaced _ (List.forall_mem_singleton.mpr usual)

theorem Behind.numeral (behind : Behind d n rest) (m : Figures) : Behind d n (' ' :: (m.chars ++ rest)) :=
  ⟨.space (.numeral m behind.parted behind.neat), parted_cons ' ' _ (by decide)⟩

theorem Behind.quoted (behind : Behind d n rest) (x : Label) : Neat d n (x.quoted d ++ rest) :=
  .name x (Rule.Parted.ne_nameMark behind.parted d) behind.neat

theorem Behind.name (behind : Behind d n rest) (x : Name) : Behind d n (' ' :: (x.quoted d ++ rest)) :=
  ⟨.space (behind.quoted x), parted_cons ' ' _ (by decide)⟩

theorem Behind.optionalName (behind : Behind d n rest) (name : Option Name) :
    Behind d n (nameChars d name ++ rest) := by
  cases name with
  | none => exact behind
  | some x => exact behind.name x

theorem Behind.direction (behind : Behind d n rest) (o : Option Direction) :
    Behind d n (Direction.chars o ++ rest) := by
  cases o with
  | none => exact behind
  | some o => cases o <;> exact behind.spaced _ (by decide +kernel)

/-! Columns. -/

theorem Behind.size (behind : Behind d n rest) (shallow : n < nestingLimit) (s : Size) :
    Behind d n (s.chars ++ rest) := by
  have closed : Behind d (n + 1) (')' :: rest) := ⟨.closing behind.neat, parted_cons ')' _ (by decide)⟩
  have inside : Behind d (n + 1) ((s.scale.map fun n => ',' :: n.chars).getD [] ++ (')' :: rest)) := by
    cases s.scale with
    | none => exact closed
    | some scale => exact ⟨.comma (.numeral scale closed.parted closed.neat), parted_cons ',' _ (by decide)⟩
  have split : s.chars ++ rest =
      '(' :: (s.length.chars ++ ((s.scale.map fun n => ',' :: n.chars).getD [] ++ (')' :: rest))) := by simp [Size.chars]
  rw [split]
  exact ⟨.opening shallow (.numeral s.length inside.parted inside.neat), parted_cons '(' _ (by decide)⟩

/-- A word of any letters may end the statement where a space follows it. -/
theorem Behind.spacedWord (behind : Behind d n rest) (w : Word) (apart : w.text = "GO" → rest.head? ≠ some ' ') :
    Behind d n (' ' :: (w.text.toList ++ rest)) :=
  ⟨.space (.word w behind.parted apart behind.neat), parted_cons ' ' _ (by decide)⟩

theorem Behind.trait (behind : Behind d n rest) (t : Trait) (apart : t.Separates → rest.head? ≠ some ' ') :
    Behind d n (t.chars ++ rest) := by
  cases t with
  | default m =>
    have split : (Trait.default m).chars ++ rest = Reader.spaced ["DEFAULT"] ++ ' ' :: (m.chars ++ rest) := by
      simp [Trait.chars]
    rw [split]
    exact (behind.numeral m).spaced _ (by decide +kernel)
  | key k => cases k <;> exact behind.spaced _ (by decide +kernel)
  | charset w =>
    have split : (Trait.charset w).chars ++ rest = Reader.spaced ["CHARSET"] ++ ' ' :: (w.text.toList ++ rest) := by
      simp [Trait.chars, Reader.spaced]
    rw [split]
    exact (behind.spacedWord w fun go => apart ⟨w, rfl, go⟩).spaced _ (by decide +kernel)
  | characterSet w =>
    have split : (Trait.characterSet w).chars ++ rest =
        Reader.spaced ["CHARACTER", "SET"] ++ ' ' :: (w.text.toList ++ rest) := by simp [Trait.chars, Reader.spaced]
    rw [split]
    exact (behind.spacedWord w fun go => apart ⟨w, rfl, go⟩).spaced _ (by decide +kernel)
  | collate w =>
    have split : (Trait.collate w).chars ++ rest = Reader.spaced ["COLLATE"] ++ ' ' :: (w.text.toList ++ rest) := by
      simp [Trait.chars, Reader.spaced]
    rw [split]
    exact (behind.spacedWord w fun go => apart ⟨w, rfl, go⟩).spaced _ (by decide +kernel)
  | _ => exact behind.spaced _ (by decide +kernel)

/-- Attributes of which only the last one may end in `GO`. -/
theorem Behind.traits (closed : Reader.Closed rest) (neat : Neat d n rest) (ts : List Trait)
    (whole : ts.IsChain fun t _ => ¬ t.Separates) : Behind d n (ts.flatMap Trait.chars ++ rest) := by
  induction ts with
  | nil => exact behind_closed closed neat
  | cons t others ih =>
    rw [List.flatMap_cons, List.append_assoc]
    refine (ih whole.of_cons).trait t fun go => ?_
    cases others with
    | nil => exact closed.no_space
    | cons u more => exact absurd go (List.isChain_cons_cons.mp whole).1

theorem Behind.clauses (closed : Reader.Closed rest) (neat : Neat d n rest) (cs : List Clause) :
    Behind d n (cs.flatMap Clause.chars ++ rest) := by
  have whole : (cs.map Clause.trait).IsChain fun t _ => ¬ t.Separates := by
    refine (List.pairwise_map.mpr (List.pairwise_of_forall fun c _ => ?_)).isChain
    rintro ⟨w, told, _⟩
    cases c <;> contradiction
  rw [← Clause.flatMap_trait]
  exact Behind.traits closed neat _ whole

/-- Nothing but its size stands behind the type of the column, if the type is `GO`. -/
def Column.Intact (c : Column) : Prop :=
  c.type.text = "GO" → c.size = none → c.unsigned = false ∧ c.zerofill = false ∧ c.clauses = []

instance (c : Column) : Decidable c.Intact := inferInstanceAs (Decidable (_ → _ → _))

theorem Column.neat (c : Column) (intact : c.Intact) (closed : Reader.Closed rest) (shallow : n < nestingLimit)
    (neat : Neat d n rest) : Neat d n (c.chars d ++ rest) := by
  have bare : Behind d n (flag c.unsigned "UNSIGNED" ++ (flag c.zerofill "ZEROFILL" ++
      (c.clauses.flatMap Clause.chars ++ rest))) :=
    (Behind.clauses closed neat c.clauses).flag _ c.zerofill (by decide +kernel) |>.flag _ c.unsigned
      (by decide +kernel)
  have sized : Behind d n (c.tail ++ rest) := by
    have split : c.tail ++ rest = (c.size.map Size.chars).getD [] ++ (flag c.unsigned "UNSIGNED" ++
        (flag c.zerofill "ZEROFILL" ++ (c.clauses.flatMap Clause.chars ++ rest))) := by simp [Column.tail]
    rw [split]
    cases c.size with
    | none => exact bare
    | some s => exact bare.size shallow s
  have apart : c.type.text = "GO" → (c.tail ++ rest).head? ≠ some ' ' := by
    intro go
    cases size : c.size with
    | none =>
      obtain ⟨unsigned, zerofill, clauses⟩ := intact go size
      simpa [Column.tail, size, unsigned, zerofill, clauses, flag] using closed.no_space
    | some s => simp [Column.tail, size, Size.chars]
  have split : c.chars d ++ rest = c.name.quoted d ++ ' ' :: (c.type.text.toList ++ (c.tail ++ rest)) := by
    simp [Column.chars]
  have type : Behind d n (' ' :: (c.type.text.toList ++ (c.tail ++ rest))) :=
    ⟨.space (.word c.type sized.parted apart sized.neat), parted_cons ' ' _ (by decide)⟩
  rw [split]
  exact type.quoted c.name

/-! Lists. -/

theorem neat_spaces (count : Nat) (neat : Neat d n rest) : Neat d n (List.replicate count ' ' ++ rest) := by
  induction count with
  | zero => exact neat
  | succ count ih =>
    rw [List.replicate_succ, List.cons_append]
    exact .space ih

theorem neat_later {α : Type} (gap : Nat) (write : α → List Char) (items : List α) (neat : Neat d n (')' :: rest))
    (each : ∀ a ∈ items, ∀ rest, Reader.Closed rest → Neat d n rest → Neat d n (write a ++ rest)) :
    Neat d n (Rule.later gap write items ++ ')' :: rest) := by
  induction items with
  | nil => exact neat
  | cons a others ih =>
    obtain ⟨here, more⟩ := List.forall_mem_cons.mp each
    have item := here _ (Rule.closed_later gap write others) (ih more)
    have split : Rule.later gap write (a :: others) ++ ')' :: rest =
        ',' :: (List.replicate gap ' ' ++ (write a ++ (Rule.later gap write others ++ ')' :: rest))) := by
      simp [Rule.later]
    rw [split]
    exact .comma (neat_spaces gap item)

/-- A list between parentheses. -/
theorem Behind.listed {α : Type} (gap : Nat) (write : α → List Char) (items : List α) (shallow : n < nestingLimit)
    (neat : Neat d n rest)
    (each : ∀ a ∈ items, ∀ rest, Reader.Closed rest → Neat d (n + 1) rest → Neat d (n + 1) (write a ++ rest)) :
    Behind d n (' ' :: '(' :: (joined gap (items.map write) ++ ')' :: rest)) := by
  have closing : Neat d (n + 1) (')' :: rest) := .closing neat
  refine ⟨.space (.opening shallow ?_), parted_cons ' ' _ (by decide)⟩
  cases items with
  | nil => exact closing
  | cons a others =>
    obtain ⟨here, more⟩ := List.forall_mem_cons.mp each
    have item := here _ (Rule.closed_later gap write others) (neat_later gap write others closing more)
    rw [List.map_cons, joined_cons, List.flatMap_map, List.append_assoc]
    exact item

/-! Indexes. -/

theorem Part.neat (p : Part) (closed : Reader.Closed rest) (shallow : n < nestingLimit) (neat : Neat d n rest) :
    Neat d n (p.chars d ++ rest) := by
  have ordered := (behind_closed closed neat).direction p.direction
  have split : p.chars d ++ rest = p.column.quoted d ++ ((p.length.map fun n => '(' :: (n.chars ++ [')'])).getD [] ++
      (Direction.chars p.direction ++ rest)) := by simp [Part.chars]
  have sized : Behind d n ((p.length.map fun n => '(' :: (n.chars ++ [')'])).getD [] ++
      (Direction.chars p.direction ++ rest)) := by
    cases p.length with
    | none => exact ordered
    | some m => simpa [Size.chars] using ordered.size shallow ⟨m, none⟩
  rw [split]
  exact sized.quoted p.column

theorem Behind.constraint (behind : Behind d n rest) (constraint : Option (Option Name)) :
    Behind d n (constraintChars d constraint ++ rest) := by
  cases constraint with
  | none => exact behind
  | some name =>
    rw [constraintChars, List.append_assoc]
    exact (behind.optionalName name).spaced _ (by decide +kernel)

theorem usual_words (h : Head) : ∀ word ∈ h.words, Usual word := by
  have known : ∀ word ∈ ["PRIMARY", "KEY", "UNIQUE", "INDEX", "SPATIAL", "FULLTEXT"], Usual word := by decide +kernel
  have key (w : Option KeyWord) : ∀ word ∈ KeyWord.words w, word = "KEY" ∨ word = "INDEX" := by
    rcases w with _ | w
    · exact List.forall_mem_nil _
    · cases w <;> simp [KeyWord.words, KeyWord.upper]
  intro word member
  apply known
  cases h with
  | primary =>
    rcases List.mem_pair.mp member with rfl | rfl <;> simp
  | unique _ w _ =>
    rcases List.mem_cons.mp member with rfl | behind
    · simp
    · rcases key w word behind with rfl | rfl <;> simp
  | plain w _ =>
    cases List.mem_singleton.mp member
    cases w <;> simp [KeyWord.upper]
  | special kind w _ =>
    rcases List.mem_cons.mp member with rfl | behind
    · cases kind <;> simp [Special.upper]
    · rcases key w word behind with rfl | rfl <;> simp

theorem Index.neat (gap : Nat) (i : Index) (shallow : n + 1 < nestingLimit) (neat : Neat d n rest) :
    Neat d n (i.chars d gap ++ rest) := by
  have columns : Behind d n (Index.columnChars d gap i.parts ++ rest) := by
    have split : Index.columnChars d gap i.parts ++ rest =
        ' ' :: '(' :: (joined gap (i.parts.map (Part.chars d)) ++ ')' :: rest) := by simp [Index.columnChars]
    rw [split]
    exact Behind.listed gap (Part.chars d) i.parts (by omega) neat fun p _ _ closed neat => p.neat closed shallow neat
  have whole : Behind d n (i.head.chars d ++ (Index.columnChars d gap i.parts ++ rest)) := by
    rw [Head.chars, List.append_assoc, List.append_assoc]
    exact ((columns.optionalName _).spaced _ (usual_words i.head)).constraint _
  obtain ⟨word, _, more, split⟩ := Rule.chars_head d i.head
  have spaced : i.head.chars d ++ (Index.columnChars d gap i.parts ++ rest) = ' ' :: (i.chars d gap ++ rest) := by
    simp [Index.chars, split]
  rw [spaced] at whole
  exact whole.neat.of_space

theorem Definition.neat (gap : Nat) (x : Definition) (intact : ∀ c, x = .column c → c.Intact) (closed : Reader.Closed rest)
    (shallow : n + 1 < nestingLimit) (neat : Neat d n rest) : Neat d n (x.chars d gap ++ rest) := by
  cases x with
  | column c => exact c.neat (intact c rfl) closed (by omega) neat
  | index i => exact i.neat gap shallow neat

theorem TableName.neat (t : TableName) (behind : Behind d n rest) : Neat d n (t.chars d ++ rest) := by
  have own : Neat d n (t.name.quoted d ++ rest) := behind.quoted t.name
  cases qualifier : t.qualifier with
  | none => simpa [TableName.chars, qualifier] using own
  | some q =>
    have split : t.chars d ++ rest = q.quoted d ++ ('.' :: (t.name.quoted d ++ rest)) := by
      simp [TableName.chars, qualifier]
    have point : Neat d n ('.' :: (t.name.quoted d ++ rest)) := .point own
    rw [split]
    refine .name q ?_ point
    cases d <;> simp [Rule.nameMark]

theorem Behind.table (behind : Behind d n rest) (t : TableName) : Behind d n (' ' :: (t.chars d ++ rest)) :=
  ⟨.space (t.neat behind), parted_cons ' ' _ (by decide)⟩

end Parts

/-! Whole statements. -/

theorem Table.neat (d : Dialect) (gap : Nat) (t : Table) (intact : ∀ c ∈ t.columns, c.Intact) :
    Neat d 0 (t.chars d gap) := by
  have each : ∀ x ∈ t.definitions, ∀ rest, Reader.Closed rest → Neat d 1 rest → Neat d 1 (x.chars d gap ++ rest) := by
    intro x member rest closed neat
    refine x.neat gap (fun c same => ?_) closed (by decide) neat
    subst same
    exact intact c (List.mem_filterMap.mpr ⟨_, member, rfl⟩)
  have items := Behind.listed gap (Definition.chars d gap) t.definitions (by decide) .nil each
  exact ((items.table t.name).spaced ["TABLE"] (by decide +kernel)).word "CREATE" (by decide +kernel)

theorem IndexStatement.neat (d : Dialect) (gap : Nat) (s : IndexStatement) : Neat d 0 (s.chars d gap) := by
  have each : ∀ o ∈ s.columns, ∀ rest, Reader.Closed rest → Neat d 1 rest → Neat d 1 (o.chars d ++ rest) := by
    intro o _ rest closed neat
    rw [Ordered.chars, List.append_assoc]
    exact ((behind_closed closed neat).direction o.direction).quoted o.name
  have columns : Behind d 0 (s.columnChars d gap) :=
    Behind.listed gap (Ordered.chars d) s.columns (by decide) .nil each
  have altered (action : IndexAction) (added : ∀ unique name, action ≠ .create unique name)
      (behind : Behind d 0 (action.added d ++ s.columnChars d gap)) :
      Neat d 0 (action.chars d s.table ++ s.columnChars d gap) := by
    have whole := (((behind.spaced ["ADD"] (by decide +kernel)).table s.table).spaced ["TABLE"]
      (by decide +kernel)).word "ALTER" (by decide +kernel)
    rw [IndexAction.chars_altered d s.table added]
    simpa using whole
  unfold IndexStatement.chars
  cases s.action with
  | create unique name =>
    have on := (columns.table s.table).spaced ["ON"] (by decide +kernel)
    have index := (on.name name).spaced ["INDEX"] (by decide +kernel)
    have whole := (index.flag "UNIQUE" unique (by decide +kernel)).word "CREATE" (by decide +kernel)
    simpa [IndexAction.chars_create] using whole
  | add unique word name =>
    have usual : Usual word.upper := by cases word <;> decide +kernel
    have worded := (columns.optionalName name).spaced [word.upper] (List.forall_mem_singleton.mpr usual)
    have flagged := worded.flag "UNIQUE" unique (by decide +kernel)
    exact altered _ (by simp) (by simpa [IndexAction.added] using flagged)
  | constrain name =>
    have behind := ((columns.spaced ["UNIQUE"] (by decide +kernel)).name name).spaced ["CONSTRAINT"]
      (by decide +kernel)
    exact altered _ (by simp) (by simpa [IndexAction.added] using behind)
  | addPrimary constraint =>
    have behind := (columns.spaced ["PRIMARY", "KEY"] (by decide +kernel)).constraint (constraint.map some)
    exact altered _ (by simp) (by simpa [IndexAction.added] using behind)

/-- A text that stripping leaves as it is and that the rules take whole. -/
theorem gives_tree_of_strip {d : Dialect} {cs : List Char} (word : String) {tree : Tree.SchemaStatement}
    (stripped : Statement.strip d cs = .ok cs) (untabbed : '\t' ∉ cs) (known : word ∈ Tree.schemaWords)
    (begins : ∃ more, cs = word.toList ++ ' ' :: more) (ended : cs.getLast? = some ')')
    (taken : (Rule.statement d).Takes cs tree []) : (Tree.read d (String.ofList cs)).Gives (.schema tree) := by
  obtain ⟨more, split⟩ := begins
  have schema : ∀ word ∈ Tree.schemaWords,
      (∀ c ∈ word.toList, isBlank c = false) ∧ word.toList ≠ [] ∧ upper word.toList = word.toList := by
    decide +kernel
  obtain ⟨dense, filled, capital⟩ := schema word known
  have whole : Tree.dropSemicolon cs = cs := by
    rw [Tree.dropSemicolon, ended, if_neg (by decide)]
  have opening : Tree.openingWord cs = word := by
    rw [Tree.openingWord, split, firstWord_append dense filled (by simp; decide), capital, String.ofList_toList]
  refine (Tree.gives_schema_iff d _ tree).mpr ⟨cs, by rwa [String.toList_ofList], ?_, ?_⟩
  · rw [whole, opening]
    exact known
  · rw [whole, expandTabs_of_no_tab cs untabbed]
    exact taken.readAll

/-- What its tree defines is what a text is read as. -/
theorem gives_of_tree {d : Dialect} {text : String} {tree : Tree.SchemaStatement} {definition : SqlSchema.Definition}
    (read : (Tree.read d text).Gives (.schema tree)) (given : (Definition.ofTree text tree).Gives definition) :
    (Definition.read d text).Gives definition := by
  rw [Definition.read, Attempt.gives_adapt, Definition.ofText, Attempt.gives_bind]
  exact ⟨_, (Attempt.gives_adapt ..).mpr read, given⟩

theorem gives_of_strip {d : Dialect} {cs : List Char} (word : String) {tree : Tree.SchemaStatement}
    {definition : SqlSchema.Definition} (stripped : Statement.strip d cs = .ok cs) (untabbed : '\t' ∉ cs)
    (known : word ∈ Tree.schemaWords) (begins : ∃ more, cs = word.toList ++ ' ' :: more)
    (ended : cs.getLast? = some ')') (taken : (Rule.statement d).Takes cs tree [])
    (given : (Definition.ofTree (String.ofList cs) tree).Gives definition) :
    (Definition.read d (String.ofList cs)).Gives definition :=
  gives_of_tree (gives_tree_of_strip word stripped untabbed known begins ended taken) given

/-- What begins with a word and ends with a parenthesis has no white space around it. -/
theorem framed_statement {cs : List Char} {word : String} (known : word ∈ Tree.schemaWords)
    (begins : ∃ more, cs = word.toList ++ ' ' :: more) (ended : cs.getLast? = some ')') : Framed cs := by
  obtain ⟨more, rfl⟩ := begins
  have schema : ∀ word ∈ Tree.schemaWords, (∀ c ∈ word.toList, isBlank c = false) ∧ word.toList ≠ [] := by
    decide +kernel
  obtain ⟨dense, filled⟩ := schema word known
  obtain ⟨b, others, letters⟩ := List.exists_cons_of_ne_nil filled
  refine ⟨by simp, fun c head => ?_, fun c found => ?_⟩
  · rw [letters] at head
    cases Option.some.inj head
    exact dense b (letters ▸ List.mem_cons_self ..)
  · cases Option.some.inj (ended.symm.trans found)
    decide

/-- A neat text that the rules take whole. -/
theorem gives_tree_of_takes {d : Dialect} {cs : List Char} (word : String) {tree : Tree.SchemaStatement}
    (neat : Neat d 0 cs) (known : word ∈ Tree.schemaWords) (begins : ∃ more, cs = word.toList ++ ' ' :: more)
    (ended : cs.getLast? = some ')') (taken : (Rule.statement d).Takes cs tree []) :
    (Tree.read d (String.ofList cs)).Gives (.schema tree) := by
  have framed := framed_statement known begins ended
  exact gives_tree_of_strip word (neat.strip framed.last framed.first) (fun tab => (neat.one_line _ tab).2 rfl) known
    begins ended taken

theorem gives_of_takes {d : Dialect} {cs : List Char} (word : String) {tree : Tree.SchemaStatement}
    {definition : SqlSchema.Definition} (neat : Neat d 0 cs) (known : word ∈ Tree.schemaWords)
    (begins : ∃ more, cs = word.toList ++ ' ' :: more) (ended : cs.getLast? = some ')')
    (taken : (Rule.statement d).Takes cs tree [])
    (given : (Definition.ofTree (String.ofList cs) tree).Gives definition) :
    (Definition.read d (String.ofList cs)).Gives definition :=
  gives_of_tree (gives_tree_of_takes word neat known begins ended taken) given

/-- A table is read back as it was written, unless something stands behind a type `GO`. -/
theorem gives_createTable (d : Dialect) (gap : Nat) (t : Table) (intact : ∀ c ∈ t.columns, c.Intact) :
    (Definition.read d (String.ofList (t.chars d gap))).Gives (.createTable (String.ofList (t.chars d gap)) t.decoded) := by
  have ended : (t.chars d gap).getLast? = some ')' := by
    simp [Table.chars, List.getLast?_append, List.getLast?_cons]
  exact gives_of_takes "CREATE" (t.neat d gap intact) (by decide) ⟨_, rfl⟩ ended (Rule.takes_createTable d gap t)
    (t.gives_decoded _)

def Name.a : Name := ⟨"a", by decide, by decide⟩

/-- The word that ends a statement. -/
def Word.go : Word := ⟨"GO", by decide, by decide⟩

def Numeral.minusSeven : Numeral := ⟨.minus, ['7'], by decide, by decide, by decide, by decide⟩

/-- Names with marks of comments and quotes in them, and a type `GO` with nothing but its size behind it. -/
def Table.sample : Table where
  name := { qualifier := some ⟨"-- s", by decide, by decide⟩, name := ⟨"a\x60b", by decide, by decide⟩ }
  definitions := [
    .column {
      name := ⟨"/* x", by decide, by decide⟩
      type := ⟨"BigInt", by decide, by decide⟩
      size := some ⟨⟨.none, ['2', '0'], by decide, by decide, by decide, by decide⟩, none⟩
      unsigned := true
      notNull := true
      default := some .minusSeven
      key := some .uniqueKey },
    .column { name := ⟨"#;'", by decide, by decide⟩, type := .go },
    .index ⟨.unique (some none) (some .key) none, [{ column := ⟨"/* x", by decide, by decide⟩ }], by decide⟩]
  filled := by decide

theorem gives_createTable_sample :
    String.ofList (Table.sample.chars .mysql 1) = "CREATE TABLE \x60-- s\x60.\x60a\x60\x60b\x60 (" ++
        "\x60/* x\x60 BigInt(20) UNSIGNED NOT NULL DEFAULT -7 UNIQUE KEY, \x60#;'\x60 GO, " ++
        "CONSTRAINT UNIQUE KEY (\x60/* x\x60))" ∧
      (∀ c ∈ Table.sample.columns, c.Intact) ∧
      (Definition.read .mysql (String.ofList (Table.sample.chars .mysql 1))).Gives
        (.createTable (String.ofList (Table.sample.chars .mysql 1)) Table.sample.decoded) := by
  have intact : ∀ c ∈ Table.sample.columns, c.Intact := by decide
  exact ⟨by decide +kernel, intact, gives_createTable .mysql 1 Table.sample intact⟩

/-- Something stands behind a type `GO`. -/
def Table.separated : Table where
  name := { name := ⟨"t", by decide, by decide⟩ }
  definitions := [.column { name := .a, type := .go, unsigned := true }]
  filled := by decide

/-- The statement is cut at the type, and what follows becomes part of it. -/
theorem misreads_createTable_separated :
    String.ofList (Table.separated.chars .mysql 0) = "CREATE TABLE \x60t\x60 (\x60a\x60 GO UNSIGNED)" ∧
      (∃ table, (Definition.read .mysql "CREATE TABLE \x60t\x60 (\x60a\x60 GO UNSIGNED)").Gives
          (.createTable "CREATE TABLE \x60t\x60 (\x60a\x60 GO UNSIGNED)" table) ∧
        table.columns.map (fun c => (c.name, c.typeName, c.unsigned)) = [("a", "gounsigned", false)]) ∧
      ¬ (Definition.read .mysql "CREATE TABLE \x60t\x60 (\x60a\x60 GO UNSIGNED)").Gives
        (.createTable "CREATE TABLE \x60t\x60 (\x60a\x60 GO UNSIGNED)" Table.separated.decoded) := by
  have given : (Definition.read .mysql "CREATE TABLE \x60t\x60 (\x60a\x60 GO UNSIGNED)").Gives
      (.createTable "CREATE TABLE \x60t\x60 (\x60a\x60 GO UNSIGNED)"
        { name := "t", columns := [{ name := "a", typeName := "gounsigned" }] }) := by decide +kernel
  exact ⟨by decide +kernel, ⟨_, given, rfl⟩, fun right => absurd (given.unique right) (by decide +kernel)⟩

theorem begins_indexStatement (d : Dialect) (gap : Nat) (s : IndexStatement) :
    ∃ word ∈ Tree.schemaWords, ∃ more, s.chars d gap = word.toList ++ ' ' :: more := by
  unfold IndexStatement.chars
  cases s.action with
  | create unique name =>
    refine ⟨"CREATE", by decide, ?_⟩
    cases unique <;> exact ⟨_, rfl⟩
  | add _ _ _ | constrain _ | addPrimary _ => exact ⟨"ALTER", by decide, _, rfl⟩

/-- A statement about an index is read back as it was written. -/
theorem gives_indexStatement (d : Dialect) (gap : Nat) (s : IndexStatement) :
    (Definition.read d (String.ofList (s.chars d gap))).Gives (s.definition (String.ofList (s.chars d gap))) := by
  obtain ⟨word, known, begins⟩ := begins_indexStatement d gap s
  have ended : (s.chars d gap).getLast? = some ')' := by
    simp [IndexStatement.chars, IndexStatement.columnChars, List.getLast?_append, List.getLast?_cons]
  exact gives_of_takes word (s.neat d gap) known begins ended (Rule.takes_indexStatement d gap s) (s.gives_definition _)

end SqlSchema.Written
