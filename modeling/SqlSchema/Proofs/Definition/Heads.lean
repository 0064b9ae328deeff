import SqlSchema.Proofs.Definition.Dialects
import SqlSchema.Proofs.Definition.IndexColumns
import SqlSchema.Proofs.Definition.Interruption
import SqlSchema.Proofs.Definition.Untouched
import SqlSchema.Proofs.Reader.Heads

/-! What a text can define that begins like the definition of a table or an index. It is never taken for another
statement: either it defines what its first words say, or it is rejected for its syntax or for a number in it. -/
namespace SqlSchema.Definition
open Text Attempt Reader

theorem action_of_ofTree {text : String} {s : Tree.SchemaStatement} {definition : Definition}
    (given : (ofTree text s).Gives definition) : definition.action = s.action := by
  unfold ofTree at given
  split at given
  next created =>
    split at given
    · split at given
      · simp only [gives_bind, gives_pure] at given
        obtain ⟨_, _, rfl⟩ := given
        exact created.symm
      · simp at given
    · simp at given
  next =>
    split at given
    next define found =>
      split at given
      · simp only [gives_bind, gives_pure] at given
        obtain ⟨_, _, rfl⟩ := given
        unfold ofAction? at found
        split_ifs at found with index added primary
        · cases Option.some.inj found
          exact index.symm
        · cases Option.some.inj found
          exact added.symm
        · cases Option.some.inj found
          exact primary.symm
      · simp at given
    next => simp at given

/-- The index of a definition has the name that the tree gives it. -/
theorem name_of_decoded {text : String} {s : Tree.SchemaStatement} {definition : Definition} {spec : Tree.IndexSpec}
    (decoded : Decoded text s definition) (action : definition.action ≠ Tree.Action.create)
    (found : s.index = some spec) : ∃ index, definition.index? = some index ∧ index.name = spec.name := by
  cases decoded with
  | table => exact absurd rfl action
  | @index define table index known decoded =>
    rw [found] at decoded
    simp only [Index.ofSpec, gives_pure] at decoded
    refine ⟨index, ?_, by rw [← decoded]⟩
    unfold ofAction? at known
    split_ifs at known <;> cases Option.some.inj known <;> rfl

/-- How the reading of a statement ends whose tree has all its parts and one of the four actions. -/
theorem ends_of_schema {d : Dialect} {text : String} {s : Tree.SchemaStatement}
    (given : (Tree.read d text).Gives (.schema s)) (shaped : s.Shaped)
    (known : s.action ∈ Tree.Action.create :: Tree.indexActions) :
    (∃ definition, (ofTree text s).Gives definition) ∨
      (∃ kind raw, (ofTree text s).Rejects (.malformedNumber kind raw)) ∨
      ∃ digits, (ofTree text s).Stops (.integerTooLong digits) := by
  rcases gives_or_breaks (ofTree text s) with gives | ⟨b, broken⟩
  · exact .inl gives
  · rcases (breaks_ofTree_iff text s shaped b).mp broken with ⟨body, _, defined, walked⟩ | ⟨other, foreign, _⟩
    · cases b with
      | rejected e =>
        obtain ⟨_, x, _, _, _, faulty⟩ := (breaks_mapM ..).mp walked
        obtain ⟨kind, raw, rfl⟩ := rejects_detail x e faulty
        exact .inr (.inl ⟨kind, raw, broken⟩)
      | interrupted i =>
        obtain ⟨_, _, l, _, _, _, rfl⟩ := tooLong_of_details d text s body i given defined walked
        exact .inr (.inr ⟨_, broken⟩)
    · rcases List.mem_cons.mp known with same | member
      · exact absurd same other
      · exact absurd member foreign

theorem openingWord_of_begun {d : Dialect} {first second : String} {signs : List Sign} {cs rest : List Char}
    (capital : Capital first ∧ Capital second) (begun : Begins d (.word first :: .word second :: signs) cs rest) :
    Tree.openingWord cs = first := by
  cases begun with
  | word _ opened ended later =>
    cases later with
    | word _ next _ _ =>
      obtain ⟨gap, filled, blank, spelled, rfl, _⟩ := next.follows capital.2 ended
      obtain ⟨g, others, rfl⟩ := List.exists_cons_of_ne_nil filled
      have word := Tree.upper_firstWord_of_opens _ _ _ first opened capital.1
        (Tree.isBlank_of_isGap g (blank g (List.mem_cons_self ..)))
      rw [Tree.openingWord, word, String.ofList_toList]

/-- Both words are there in all heads. -/
theorem known_of_head {d : Dialect} {signs : List Sign} {action : String} {cs rest : List Char}
    (head : (signs, action) ∈ Rule.heads) (begun : Begins d signs cs rest) : Tree.openingWord cs ∈ Tree.schemaWords := by
  rcases Rule.head_cases head with ⟨word, member, _, rfl, _⟩ | ⟨word, member, _, rfl, _⟩ | ⟨_, _, rfl⟩
  · have capital : ∀ word ∈ ["TABLE", "TEMPORARY"], Capital "CREATE" ∧ Capital word := by decide
    rw [openingWord_of_begun (capital word member) begun]
    decide
  · have capital : ∀ word ∈ ["INDEX", "UNIQUE"], Capital "CREATE" ∧ Capital word := by decide
    rw [openingWord_of_begun (capital word member) begun]
    decide
  · rw [openingWord_of_begun (by decide) begun]
    decide

/-- The signs that begin a text begin what the rules read of it. -/
theorem begins_ruled {d : Dialect} {signs : List Sign} {plain rest : List Char} (begun : Begins d signs plain rest)
    (known : ∀ sign ∈ signs, sign.Plain) :
    (∃ left, Begins d signs (Tree.dropSemicolon plain) left) ∧ ∃ left, Begins d signs (ruled plain) left := by
  obtain ⟨tail, split, ended⟩ := Tree.dropSemicolon_append plain
  have loose : Loose tail := by
    rcases ended with rfl | ⟨gap, blank, rfl⟩
    · exact List.forall_mem_nil _
    · intro c member
      rcases List.mem_append.mp member with inside | last
      · exact .inl (blank c inside)
      · exact .inr (List.mem_singleton.mp last)
  rw [split] at begun
  obtain ⟨left, cut⟩ := begun.cut known loose
  exact ⟨⟨left, cut⟩, cut.filled known (filled_expandFrom 0 _)⟩

/-- A text that begins like the definition of a table or an index defines what it begins like, or a primary key that
has the word `UNIQUE` for its name, or else it is rejected for its syntax or for a number. -/
theorem fits_or_fails (d : Dialect) (text : String) (plain rest : List Char) (signs : List Sign) (action : String)
    (stripped : Statement.strip d text.toList = .ok plain) (head : (signs, action) ∈ Rule.heads)
    (begun : Begins d signs plain rest) :
    (∃ definition, (read d text).Gives definition ∧
      (definition.action = action ∨
        signs = Rule.altering Rule.unnamedUnique ∧ definition.action = Tree.Action.addPrimaryKey ∧
          ∃ index, definition.index? = some index ∧ upper index.name.toList = "UNIQUE".toList)) ∨
    (∃ e, (read d text).Rejects ⟨.syntaxError e, text⟩) ∨
    (∃ kind raw, (read d text).Rejects ⟨.malformedNumber kind raw, text⟩) ∨
    ∃ digits, (read d text).Stops (.integerTooLong digits) := by
  obtain ⟨⟨left, cut⟩, _, ruled⟩ := begins_ruled begun (Rule.plain_of_heads _ head)
  have known := known_of_head head cut
  have parsed := Tree.read_of_strip stripped
  cases outcome : (Rule.statement d).readAll (Definition.ruled plain) with
  | error failure =>
    obtain ⟨e, failed⟩ := Tree.rejects_ofPlain (d := d) known ⟨failure, outcome⟩
    rw [← parsed] at failed
    refine .inr (.inl ⟨e, (rejects_adapt ..).mpr ⟨_, (breaks_bind ..).mpr (.inl ?_), rfl⟩⟩)
    exact (rejects_adapt ..).mpr ⟨e, failed, rfl⟩
  | ok s =>
    have given : (Tree.read d text).Gives (.schema s) := by
      rw [parsed, Tree.gives_ofPlain_iff]
      exact ⟨known, outcome⟩
    obtain ⟨after, reads, _⟩ := (Rule.readAll_eq_ok ..).mp outcome
    obtain ⟨shaped, fitting⟩ := Rule.yieldsAt_statement head ruled _ s after (Cursor.at_start _) reads
    have actions : ∀ head ∈ Rule.heads, head.2 ∈ Tree.Action.create :: Tree.indexActions := by decide
    have supported : s.action ∈ Tree.Action.create :: Tree.indexActions := by
      rcases fitting with same | ⟨_, same, _⟩
      · exact same ▸ actions _ head
      · rw [same]
        decide
    have whole := ofText_of_schema given
    rcases ends_of_schema given shaped supported with ⟨definition, gives⟩ | ⟨kind, raw, failed⟩ | ⟨digits, stopped⟩
    · have action := action_of_ofTree gives
      refine .inl ⟨definition, (gives_adapt ..).mpr (whole ▸ gives), ?_⟩
      rcases fitting with same | ⟨unnamed, primary, spec, found, letters⟩
      · exact .inl (action.trans same)
      · have created : definition.action ≠ Tree.Action.create := by
          rw [action, primary]
          decide
        obtain ⟨index, added, name⟩ := name_of_decoded (decoded_of_ofTree text s definition gives) created found
        exact .inr ⟨unnamed, action.trans primary, index, added, name ▸ letters⟩
    · exact .inr (.inr (.inl ⟨kind, raw, (rejects_adapt ..).mpr ⟨_, whole ▸ failed, rfl⟩⟩))
    · exact .inr (.inr (.inr ⟨digits, (stops_adapt ..).mpr (whole ▸ stopped)⟩))

/-- A unique key with a name, and nothing that fits behind it. -/
theorem fits_or_fails_named :
    ∃ text signs rest, text = "ALTER TABLE \x60t\x60 ADD CONSTRAINT \x60n\x60 UNIQUE KEY (a), DROP b" ∧
      Statement.strip .mysql text.toList = .ok text.toList ∧ (signs, Tree.Action.addIndex) ∈ Rule.heads ∧
      Begins .mysql signs text.toList rest ∧
      ((∃ definition, (read .mysql text).Gives definition ∧
        (definition.action = Tree.Action.addIndex ∨
          signs = Rule.altering Rule.unnamedUnique ∧ definition.action = Tree.Action.addPrimaryKey ∧
            ∃ index, definition.index? = some index ∧ upper index.name.toList = "UNIQUE".toList)) ∨
      (∃ e, (read .mysql text).Rejects ⟨.syntaxError e, text⟩) ∨
      (∃ kind raw, (read .mysql text).Rejects ⟨.malformedNumber kind raw, text⟩) ∨
      ∃ digits, (read .mysql text).Stops (.integerTooLong digits)) := by
  have stripped : Statement.strip .mysql
      "ALTER TABLE \x60t\x60 ADD CONSTRAINT \x60n\x60 UNIQUE KEY (a), DROP b".toList =
        .ok "ALTER TABLE \x60t\x60 ADD CONSTRAINT \x60n\x60 UNIQUE KEY (a), DROP b".toList :=
    Untouched.strip (by decide +kernel) .mysql
  have space : ∀ c ∈ [' '], Cursor.isGap c = true := by decide
  have begun : Begins .mysql (Rule.altering [.word "CONSTRAINT", .name, .word "UNIQUE"])
      "ALTER TABLE \x60t\x60 ADD CONSTRAINT \x60n\x60 UNIQUE KEY (a), DROP b".toList " KEY (a), DROP b".toList := by
    apply Begins.word "ALTER" ⟨List.forall_mem_nil _, "ALTER".toList, rfl, rfl⟩ rfl
    apply Begins.word "TABLE" ⟨space, "TABLE".toList, rfl, rfl⟩ rfl
    apply Begins.name ['t'] space (by decide) (by decide)
    apply Begins.word "ADD" ⟨space, "ADD".toList, rfl, rfl⟩ rfl
    apply Begins.word "CONSTRAINT" ⟨space, "CONSTRAINT".toList, rfl, rfl⟩ rfl
    apply Begins.name ['n'] space (by decide) (by decide)
    exact Begins.word "UNIQUE" ⟨space, "UNIQUE".toList, rfl, rfl⟩ rfl (.nil _)
  have head : (Rule.altering [.word "CONSTRAINT", .name, .word "UNIQUE"], Tree.Action.addIndex) ∈ Rule.heads := by
    decide
  exact ⟨_, _, _, rfl, stripped, head, begun, fits_or_fails .mysql _ _ _ _ _ stripped head begun⟩

/-- The word `UNIQUE` is taken for the name of a primary key, and a name with a line end in it hides what is added. -/
theorem not_fits_or_fails :
    (∃ rest, Begins .postgres (Rule.altering Rule.unnamedUnique)
        "ALTER TABLE \"t\" ADD CONSTRAINT UNIQUE PRIMARY KEY (a)".toList rest) ∧
      (Rule.altering Rule.unnamedUnique, Tree.Action.addIndex) ∈ Rule.heads ∧
      (read .postgres "ALTER TABLE \"t\" ADD CONSTRAINT UNIQUE PRIMARY KEY (a)").Gives
        (.addPrimaryKey "ALTER TABLE \"t\" ADD CONSTRAINT UNIQUE PRIMARY KEY (a)" "t"
          { name := "UNIQUE", type := "", unique := true, columns := [{ column := "a" }] }) ∧
      (read .postgres "ALTER TABLE \"t\" ADD CONSTRAINT \"a\nb\" UNIQUE (c)").Rejects
        ⟨.unsupportedAction Tree.Action.alter, "ALTER TABLE \"t\" ADD CONSTRAINT \"a\nb\" UNIQUE (c)"⟩ := by
  have space : ∀ c ∈ [' '], Cursor.isGap c = true := by decide
  have begun : Begins .postgres (Rule.altering Rule.unnamedUnique)
      "ALTER TABLE \"t\" ADD CONSTRAINT UNIQUE PRIMARY KEY (a)".toList " PRIMARY KEY (a)".toList := by
    apply Begins.word "ALTER" ⟨List.forall_mem_nil _, "ALTER".toList, rfl, rfl⟩ rfl
    apply Begins.word "TABLE" ⟨space, "TABLE".toList, rfl, rfl⟩ rfl
    apply Begins.name ['t'] space (by decide) (by decide)
    apply Begins.word "ADD" ⟨space, "ADD".toList, rfl, rfl⟩ rfl
    apply Begins.word "CONSTRAINT" ⟨space, "CONSTRAINT".toList, rfl, rfl⟩ rfl
    exact Begins.word "UNIQUE" ⟨space, "UNIQUE".toList, rfl, rfl⟩ rfl (.nil _)
  have parsed : ∃ s, (Tree.read .postgres "ALTER TABLE \"t\" ADD CONSTRAINT \"a\nb\" UNIQUE (c)").Gives (.schema s) ∧
      s.action = Tree.Action.alter := by
    refine ⟨{ action := Tree.Action.alter, table := some { name := "t" } }, ?_, rfl⟩
    decide +kernel
  obtain ⟨s, parsed, other⟩ := parsed
  have named : (read .postgres "ALTER TABLE \"t\" ADD CONSTRAINT UNIQUE PRIMARY KEY (a)").Gives
      (.addPrimaryKey "ALTER TABLE \"t\" ADD CONSTRAINT UNIQUE PRIMARY KEY (a)" "t"
        { name := "UNIQUE", type := "", unique := true, columns := [{ column := "a" }] }) := by
    rw [read_of_untouched (by decide +kernel)]
    decide +kernel
  refine ⟨⟨_, begun⟩, by decide, named, ?_⟩
  exact other ▸ refused_of_action parsed (by rw [other]; decide) (by rw [other]; decide)

end SqlSchema.Definition
