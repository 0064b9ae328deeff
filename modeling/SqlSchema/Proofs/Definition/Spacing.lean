import SqlSchema.Proofs.Definition.Dialects
import SqlSchema.Proofs.Definition.Interruption
import SqlSchema.Proofs.Statement.Spaced

/-! Comments and white space in a statement. They only separate its pieces: whatever the separators, the statement
defines the same, or nothing. -/
namespace SqlSchema
open Attempt Text Token Reader Reader.Cursor Statement

/-- Without its comments the text is this, once squeezed. -/
def Leaves (d : Dialect) (text : String) (code : List Char) : Prop :=
  ∃ plain, strip d text.toList = .ok plain ∧ squeezed false plain = code ∧ ∀ c ∈ plain, Inked c

namespace Tree
variable {d : Dialect} {cs ds : List Char}

theorem dropSemicolon_of_inked (inked : ∀ c ∈ cs, Inked c) : dropSemicolon cs = cs := by
  rw [dropSemicolon, if_neg]
  intro last
  exact (inked ';' (List.mem_of_getLast? last)).free (by decide)

theorem usual_of_inked (inked : ∀ c ∈ cs, Inked c) : ∀ c ∈ cs, (Comparison.exact d d).Usual c :=
  fun c member => ⟨fun quote => (inked c member).free (by simp [quote]), fun other => absurd rfl other⟩

theorem trimLeft_of_inked (inked : ∀ c ∈ cs, Inked c) : trimLeft cs = cs.dropWhile isGap := by
  induction cs with
  | nil => rfl
  | cons c rest ih =>
    obtain ⟨here, later⟩ := List.forall_mem_cons.mp inked
    rw [trimLeft, List.dropWhile_cons, List.dropWhile_cons, here.blank, ← ih later, trimLeft]

theorem openingWord_of_squeezed (same : squeezed false cs = squeezed false ds) (inked : ∀ c ∈ cs, Inked c)
    (inked' : ∀ c ∈ ds, Inked c) : openingWord cs = openingWord ds := by
  have visible : Visible (!isBlank ·) := visible_of_ascii (by decide +kernel)
  have similar : Similar (.exact .mysql .mysql) cs ds := similar_of_squeezed same (usual_of_inked inked)
  rw [openingWord, openingWord, firstWord, firstWord, trimLeft_of_inked inked, trimLeft_of_inked inked',
    similar.dropGap.takeWhile_eq visible]

/-- Texts that leave the same have the same tree, in all that definitions depend on. -/
theorem gives_of_leaves {text text' : String} {code : List Char} {s : SchemaStatement} (one : Leaves d text code)
    (two : Leaves d text' code) (given : (read d text).Gives (.schema s)) :
    ∃ s', (read d text').Gives (.schema s') ∧
      (Comparison.exact d d).statement s = (Comparison.exact d d).statement s' := by
  obtain ⟨plain, stripped, squeeze, inked⟩ := one
  obtain ⟨plain', stripped', squeeze', inked'⟩ := two
  have same : squeezed false plain = squeezed false plain' := squeeze.trans squeeze'.symm
  obtain ⟨found, again, known, reads⟩ := (gives_schema_iff ..).mp given
  cases stripped.symm.trans again
  rw [dropSemicolon_of_inked inked] at known reads
  have expanded : squeezed false (expandTabs plain) = squeezed false (expandTabs plain') := by
    rw [squeezed_expandTabs, squeezed_expandTabs, same]
  have tabs : squeezed false (expandTabs plain) = squeezed false plain := squeezed_expandTabs
  have usual : ∀ c ∈ expandTabs plain, (Comparison.exact d d).Usual c := usual_of_inked (inked_of_squeezed tabs inked)
  have similar := similar_of_squeezed expanded usual
  rcases Rule.readAll_statement similar with ⟨t, s', first, second, seen⟩ | ⟨⟨_, failed⟩, _⟩
  · cases reads.symm.trans first
    refine ⟨s', (gives_schema_iff ..).mpr ⟨plain', stripped', ?_, ?_⟩, seen⟩
    · rw [dropSemicolon_of_inked inked', ← openingWord_of_squeezed same inked inked']
      exact known
    · rw [dropSemicolon_of_inked inked']
      exact second
  · rw [reads] at failed
    contradiction

end Tree

namespace Definition

/-- The same definition, read from another text. -/
def restate (text : String) : Definition → Definition
  | .createTable _ table => .createTable text table
  | .createIndex _ tableName index => .createIndex text tableName index
  | .addIndex _ tableName index => .addIndex text tableName index
  | .addPrimaryKey _ tableName index => .addPrimaryKey text tableName index

theorem restate_ofAction? {action text table : String} {index : Index} {define : String → String → Index → Definition}
    (found : ofAction? action = some define) (text' : String) :
    (define text table index).restate text' = define text' table index := by
  unfold ofAction? at found
  split_ifs at found <;> cases Option.some.inj found <;> rfl

theorem gives_ofTree_restate {text : String} {s : Tree.SchemaStatement} {definition : Definition} (text' : String)
    (given : (ofTree text s).Gives definition) : (ofTree text' s).Gives (definition.restate text') := by
  unfold ofTree at given ⊢
  split at given
  next created =>
    rw [if_pos created]
    split at given
    · split at given
      · simp only [gives_bind, gives_pure] at given ⊢
        obtain ⟨table, decoded, rfl⟩ := given
        exact ⟨table, decoded, rfl⟩
      · simp at given
    · simp at given
  next other =>
    rw [if_neg other]
    split at given
    next define found =>
      split at given
      · simp only [gives_bind, gives_pure] at given ⊢
        obtain ⟨index, decoded, rfl⟩ := given
        exact ⟨index, decoded, (restate_ofAction? found text').symm⟩
      · simp at given
    next => simp at given

variable {d : Dialect} {text text' : String} {code : List Char}

theorem gives_restate {definition : Definition} (one : Leaves d text code) (two : Leaves d text' code)
    (given : (read d text).Gives definition) : (read d text').Gives (definition.restate text') := by
  obtain ⟨s, parsed, decoded⟩ := (gives_read_iff ..).mp given
  obtain ⟨s', parsed', same⟩ := Tree.gives_of_leaves one two parsed
  refine (gives_read_iff ..).mpr ⟨s', parsed', ?_⟩
  rw [← ofTree_of_seen text' same]
  exact gives_ofTree_restate text' decoded

/-- Both texts give the same definition but for the text in it, or neither gives any. -/
def AlikeIn (d : Dialect) (text text' : String) : Prop :=
  (∃ definition, (read d text).Gives definition ∧ (read d text').Gives (definition.restate text')) ∨
    (∃ b, (read d text).Breaks b) ∧ ∃ b, (read d text').Breaks b

theorem alikeIn_of_leaves (one : Leaves d text code) (two : Leaves d text' code) : AlikeIn d text text' := by
  rcases gives_or_breaks (read d text) with ⟨definition, given⟩ | broken
  · exact .inl ⟨definition, given, gives_restate one two given⟩
  rcases gives_or_breaks (read d text') with ⟨definition, given⟩ | broken'
  · have first := gives_restate two one given
    exact .inl ⟨_, first, gives_restate one two first⟩
  · exact .inr ⟨broken, broken'⟩

theorem leaves_of_brisk {t : Spaced} (brisk : Brisk (scan t.chars))
    (shallow : ¬ (read d t.text).Stops .nestingTooDeep) : Leaves d t.text t.single.chars := by
  have flat : ¬ TooDeep t.chars := by
    intro deep
    rw [stops_read_iff] at shallow
    exact shallow (.nested (by rwa [Spaced.text, String.toList_ofList]))
  rw [Leaves, Spaced.text, String.toList_ofList]
  exact t.strip brisk flat d

/-- Single spaces may stand for all separators, unless one stands behind a word `GO`. -/
theorem alikeIn_single (d : Dialect) (t : Spaced) (brisk : Brisk (scan t.chars)) (brisk' : Brisk (scan t.single.chars))
    (shallow : ¬ (read d t.text).Stops .nestingTooDeep) (shallow' : ¬ (read d t.single.text).Stops .nestingTooDeep) :
    AlikeIn d t.text t.single.text := by
  have again := leaves_of_brisk brisk' shallow'
  rw [Spaced.single_single] at again
  exact alikeIn_of_leaves (leaves_of_brisk brisk shallow) again

/-- Comments with a quote and a semicolon in them, and a word `GO` in front of a parenthesis. -/
def commented : Spaced where
  first := ⟨"CREATE".toList, by decide, by decide, by decide +kernel, by decide +kernel⟩
  more := [
    (⟨' ', Separator.space.blank, [.block " it's ".toList (by decide +kernel) (by decide), .gap '\r' rfl]⟩,
      ⟨"TABLE".toList, by decide, by decide, by decide +kernel, by decide +kernel⟩),
    (⟨'\t', rfl, []⟩, ⟨"t(a".toList, by decide, by decide, by decide, by decide⟩),
    (⟨' ', Separator.space.blank, [.line " b;".toList (by decide) (by decide), .gap '\n' rfl]⟩,
      ⟨"INT,b".toList, by decide, by decide, by decide +kernel, by decide +kernel⟩),
    (⟨'\n', rfl, [.gap ' ' Separator.space.blank]⟩, ⟨"GO)".toList, by decide, by decide, by decide, by decide⟩)]

/-- What can be seen of the columns, if a table is read. -/
def columnsRead (d : Dialect) (text : String) : Option (List (String × String × Bool)) :=
  match (read d text).run with
  | .ok (.ok (.createTable _ table)) => some (table.columns.map fun c => (c.name, c.typeName, c.unsigned))
  | _ => none

theorem gives_of_columnsRead {seen : List (String × String × Bool)} (found : columnsRead d text = some seen) :
    ∃ table, (read d text).Gives (.createTable text table) ∧
      table.columns.map (fun c => (c.name, c.typeName, c.unsigned)) = seen := by
  unfold columnsRead at found
  split at found
  next statement table given =>
    have same : statement = text := statement_of_read d text _ given
    subst same
    exact ⟨table, given, Option.some.inj found⟩
  next => contradiction

theorem alikeIn_single_commented :
    commented.text = "CREATE /* it's */\rTABLE\tt(a -- b;\n\nINT,b\n GO)" ∧
      commented.single.text = "CREATE TABLE t(a INT,b GO)" ∧
      Brisk (scan commented.chars) ∧ Brisk (scan commented.single.chars) ∧
      ¬ (read .mysql commented.text).Stops .nestingTooDeep ∧
      ¬ (read .mysql commented.single.text).Stops .nestingTooDeep ∧
      AlikeIn .mysql commented.text commented.single.text := by
  have written : commented.text = "CREATE /* it's */\rTABLE\tt(a -- b;\n\nINT,b\n GO)" := by decide +kernel
  have written' : commented.single.text = "CREATE TABLE t(a INT,b GO)" := by decide +kernel
  have brisk : Brisk (scan commented.chars) := by decide +kernel
  have brisk' : Brisk (scan commented.single.chars) := by decide +kernel
  have ran : columnsRead .mysql "CREATE /* it's */\rTABLE\tt(a -- b;\n\nINT,b\n GO)" =
      some [("a", "int", false), ("b", "go", false)] := by decide +kernel
  have ran' : columnsRead .mysql "CREATE TABLE t(a INT,b GO)" = some [("a", "int", false), ("b", "go", false)] := by
    decide +kernel
  obtain ⟨_, given, _⟩ := gives_of_columnsRead ran
  obtain ⟨_, given', _⟩ := gives_of_columnsRead ran'
  rw [← written] at given
  rw [← written'] at given'
  exact ⟨written, written', brisk, brisk', given.not_breaks _, given'.not_breaks _,
    alikeIn_single .mysql commented brisk brisk' (given.not_breaks _) (given'.not_breaks _)⟩

/-- A line end behind a word `GO`. -/
def separated : Spaced where
  first := ⟨"CREATE".toList, by decide, by decide, by decide +kernel, by decide +kernel⟩
  more := [
    (.space, ⟨"TABLE".toList, by decide, by decide, by decide +kernel, by decide +kernel⟩),
    (.space, ⟨"t(a".toList, by decide, by decide, by decide, by decide⟩),
    (.space, ⟨"GO".toList, by decide, by decide, by decide, by decide⟩),
    (⟨'\n', rfl, []⟩, ⟨"UNSIGNED)".toList, by decide, by decide, by decide +kernel, by decide +kernel⟩)]

/-- A space in its place is lost, and with it the end of the word. -/
theorem not_alikeIn_separated :
    separated.text = "CREATE TABLE t(a GO\nUNSIGNED)" ∧ separated.single.text = "CREATE TABLE t(a GO UNSIGNED)" ∧
      columnsRead .mysql separated.text = some [("a", "go", true)] ∧
      columnsRead .mysql separated.single.text = some [("a", "gounsigned", false)] ∧
      ¬ AlikeIn .mysql separated.text separated.single.text := by
  have written : separated.text = "CREATE TABLE t(a GO\nUNSIGNED)" := by decide +kernel
  have written' : separated.single.text = "CREATE TABLE t(a GO UNSIGNED)" := by decide +kernel
  have ran : columnsRead .mysql "CREATE TABLE t(a GO\nUNSIGNED)" = some [("a", "go", true)] := by decide +kernel
  have ran' : columnsRead .mysql "CREATE TABLE t(a GO UNSIGNED)" = some [("a", "gounsigned", false)] := by
    decide +kernel
  rw [← written] at ran
  rw [← written'] at ran'
  refine ⟨written, written', ran, ran', fun alike => ?_⟩
  obtain ⟨table, given, columns⟩ := gives_of_columnsRead ran
  obtain ⟨table', given', columns'⟩ := gives_of_columnsRead ran'
  rcases alike with ⟨definition, one, two⟩ | ⟨⟨b, broken⟩, _⟩
  · cases given.unique one
    have same : some table = some table' := congrArg Definition.table? (two.unique given')
    rw [← Option.some.inj same, columns] at columns'
    exact absurd columns' (by decide)
  · exact given.not_breaks b broken

end Definition
end SqlSchema
