import SqlSchema.Proofs.Definition
import SqlSchema.Proofs.Definition.Untouched
import SqlSchema.Proofs.Schema.Decode
import SqlSchema.Proofs.Statement.Nesting
import SqlSchema.Proofs.Tree

/-! What interrupts the reading of one statement: nesting, an integer that is too long, and a keyword that runs on.
Nothing else does, and a missing index is never what is wrong. -/
namespace SqlSchema.Definition
open Attempt SqlSchema.Tree

/-- All that interrupts the reading of a statement. -/
inductive Interrupts (d : Dialect) (text : String) : Interruption → Prop
  | nested (deep : Statement.TooDeep text.toList) : Interrupts d text .nestingTooDeep
  /-- The statement is none about the schema, and nested too deep once its comments are gone. -/
  | uncommented (plain : List Char) (stripped : Statement.strip d text.toList = .ok plain)
    (foreign : openingWord (dropSemicolon plain) ∉ schemaWords) (deep : Statement.TooDeep (dropSemicolon plain)) :
    Interrupts d text .nestingTooDeep
  | runOn (run : RunsOn d text) : Interrupts d text .tableMissing
  /-- In the definition of a table, everything in front of the long integer can be decoded. -/
  | long (s : SchemaStatement) (body : TableBody) (before after : List Detail) (l : Literal)
    (given : (Tree.read d text).Gives (.schema s)) (action : s.action = Action.create) (defined : s.body = some body)
    (split : body.details = before ++ .literal (some l) :: after) (decoded : ∀ x ∈ before, ∃ u, x.decode.Gives u)
    (long : l.TooLong) : Interrupts d text (.integerTooLong (numeralWidth l.text.toList))

theorem stops_tree_iff (d : Dialect) (text : String) (i : Interruption) :
    (Tree.read d text).Stops i ↔
      i = .nestingTooDeep ∧ (Statement.TooDeep text.toList ∨
        ∃ plain, Statement.strip d text.toList = .ok plain ∧ openingWord (dropSemicolon plain) ∉ schemaWords ∧
          Statement.TooDeep (dropSemicolon plain)) := by
  simp only [Tree.read, breaks_bind, breaks_lift, gives_lift, stops_ofPlain_iff, Statement.strip_eq_error_iff,
    Statement.classify_eq_error_iff, Break.interrupted.injEq]
  constructor
  · intro holds
    rcases holds with ⟨_, ⟨deep, rfl⟩, rfl⟩ | ⟨plain, stripped, _, foreign, deep, rfl⟩
    · exact ⟨rfl, .inl deep⟩
    · exact ⟨rfl, .inr ⟨plain, stripped, foreign, deep⟩⟩
  · intro holds
    rcases holds with ⟨rfl, deep | ⟨plain, stripped, foreign, deep⟩⟩
    · exact .inl ⟨_, ⟨deep, rfl⟩, rfl⟩
    · refine .inr ⟨plain, stripped, ?_, foreign, deep, rfl⟩
      intro empty
      exact Statement.not_tooDeep_nil (empty ▸ deep)

theorem isSome_ofAction_iff (action : String) : (ofAction? action).isSome = true ↔ action ∈ indexActions := by
  unfold ofAction?
  split_ifs <;> simp_all [indexActions]

/-- How a tree in order is broken off: by the details of its table, or because its action is not supported. -/
theorem breaks_ofTree_iff (text : String) (s : SchemaStatement) (shaped : s.Shaped) (b : Break Rejection) :
    (ofTree text s).Breaks b ↔
      (∃ body, s.action = Action.create ∧ s.body = some body ∧ (body.details.mapM Detail.decode).Breaks b) ∨
        (s.action ≠ Action.create ∧ s.action ∉ indexActions ∧ b = .rejected (.unsupportedAction s.action)) := by
  unfold ofTree
  split
  next created =>
    obtain ⟨named, defined⟩ := shaped.created created
    obtain ⟨name, nameEq⟩ := Option.isSome_iff_exists.mp named
    obtain ⟨body, bodyEq⟩ := Option.isSome_iff_exists.mp defined
    simp [nameEq, bodyEq, created, breaks_table]
  next other =>
    have known := isSome_ofAction_iff s.action
    cases found : ofAction? s.action with
    | none =>
      have unsupported : s.action ∉ indexActions := by simpa [found] using known
      simp [other, unsupported]
    | some define =>
      have supported : s.action ∈ indexActions := by simpa [found] using known
      obtain ⟨onTable, given, _⟩ := shaped.indexed supported
      obtain ⟨table, tableEq⟩ := Option.isSome_iff_exists.mp onTable
      obtain ⟨index, indexEq⟩ := Option.isSome_iff_exists.mp given
      simp [tableEq, indexEq, other, supported, Index.ofSpec]

theorem breaks_misshapen_iff (text : String) (b : Break Rejection) :
    (ofTree text { action := Action.createIndex }).Breaks b ↔ b = .interrupted .tableMissing := by
  have different : Action.createIndex ≠ Action.create := by decide
  simp [ofTree, ofAction?, different]

theorem stops_ofText_iff (d : Dialect) (text : String) (i : Interruption) :
    (ofText d text).Stops i ↔
      (Tree.read d text).Stops i ∨ ∃ s, (Tree.read d text).Gives (.schema s) ∧ (ofTree text s).Stops i := by
  simp only [ofText, breaks_bind]
  refine or_congr (stops_adapt ..) ⟨?_, ?_⟩
  · intro holds
    obtain ⟨tree, given, stopped⟩ := holds
    cases tree with
    | schema s => exact ⟨s, (gives_adapt _ _ _).mp given, stopped⟩
    | other kind plain => simp at stopped
  · intro holds
    obtain ⟨s, given, stopped⟩ := holds
    exact ⟨.schema s, (gives_adapt _ _ _).mpr given, stopped⟩

/-- Only a long integer interrupts the decoding of a table. -/
theorem tooLong_of_details (d : Dialect) (text : String) (s : SchemaStatement) (body : TableBody) (i : Interruption)
    (given : (Tree.read d text).Gives (.schema s)) (defined : s.body = some body)
    (stopped : (body.details.mapM Detail.decode).Stops i) :
    ∃ before after l, body.details = before ++ .literal (some l) :: after ∧
      (∀ x ∈ before, ∃ u, x.decode.Gives u) ∧ l.TooLong ∧ i = .integerTooLong (numeralWidth l.text.toList) := by
  obtain ⟨before, x, after, split, decoded, broken⟩ := (breaks_mapM ..).mp stopped
  cases (stops_detail x i).mp broken with
  | literal l long => exact ⟨before, after, l, split, decoded, long, rfl⟩
  | key code =>
    -- Such a detail belongs to a column, and no column that is read has an unknown option.
    have member : Detail.key (.other code) ∈ body.details := by simp [split]
    simp only [TableBody.details, Column.details, Index.details, List.mem_append, List.mem_flatMap, List.mem_cons,
      List.mem_map, List.not_mem_nil, or_false, reduceCtorEq, false_or, and_false, exists_false, Detail.key.injEq]
      at member
    obtain ⟨c, inside, same⟩ := member
    exact absurd same.symm (known_read d text s given body defined c inside code)

theorem interrupts_of_details (d : Dialect) (text : String) (s : SchemaStatement) (body : TableBody) (i : Interruption)
    (given : (Tree.read d text).Gives (.schema s)) (action : s.action = Action.create) (defined : s.body = some body)
    (stopped : (body.details.mapM Detail.decode).Stops i) : Interrupts d text i := by
  obtain ⟨before, after, l, split, decoded, long, rfl⟩ := tooLong_of_details d text s body i given defined stopped
  exact .long s body before after l given action defined split decoded long

/-- A statement is interrupted for one of these reasons and no other. -/
theorem stops_read_iff (d : Dialect) (text : String) (i : Interruption) :
    (read d text).Stops i ↔ Interrupts d text i := by
  rw [read, stops_adapt, stops_ofText_iff, stops_tree_iff]
  constructor
  · intro holds
    rcases holds with ⟨rfl, deep | ⟨plain, stripped, foreign, deep⟩⟩ | ⟨s, given, stopped⟩
    · exact .nested deep
    · exact .uncommented plain stripped foreign deep
    · by_cases shaped : s.Shaped
      · rcases (breaks_ofTree_iff text s shaped _).mp stopped with ⟨body, action, defined, broken⟩ | ⟨_, _, same⟩
        · exact interrupts_of_details d text s body i given action defined broken
        · cases same
      · obtain ⟨run, rfl⟩ := (misshapen_iff d text s).mp ⟨given, shaped⟩
        cases (breaks_misshapen_iff text _).mp stopped
        exact .runOn run
  · intro interrupts
    cases interrupts with
    | nested deep => exact .inl ⟨rfl, .inl deep⟩
    | uncommented plain stripped foreign deep => exact .inl ⟨rfl, .inr ⟨plain, stripped, foreign, deep⟩⟩
    | runOn run =>
      obtain ⟨given, _⟩ := (misshapen_iff d text _).mpr ⟨run, rfl⟩
      exact .inr ⟨_, given, (breaks_misshapen_iff text _).mpr rfl⟩
    | long s body before after l given action defined split decoded long =>
      refine .inr ⟨s, given, ?_⟩
      have broken := (stops_detail _ _).mpr (.literal l long)
      have stopped := (breaks_mapM ..).mpr ⟨before, _, after, split, decoded, broken⟩
      by_cases shaped : s.Shaped
      · exact (breaks_ofTree_iff text s shaped _).mpr (.inl ⟨body, action, defined, stopped⟩)
      · obtain ⟨_, rfl⟩ := (misshapen_iff d text s).mp ⟨given, shaped⟩
        cases defined

/-- A tree is rejected for a literal of its table or for its action. -/
theorem rejects_ofTree {d : Dialect} {text : String} {s : SchemaStatement} {cause : Rejection}
    (given : (Tree.read d text).Gives (.schema s)) (refused : (ofTree text s).Rejects cause) :
    (∃ kind raw, cause = .malformedNumber kind raw) ∨ cause = .unsupportedAction s.action := by
  by_cases shaped : s.Shaped
  · rcases (breaks_ofTree_iff text s shaped _).mp refused with ⟨body, _, _, walked⟩ | ⟨_, _, same⟩
    · obtain ⟨_, x, _, _, _, faulty⟩ := (breaks_mapM ..).mp walked
      exact .inl (rejects_detail x _ faulty)
    · cases same
      exact .inr rfl
  · obtain ⟨_, rfl⟩ := (misshapen_iff d text s).mp ⟨given, shaped⟩
    cases (breaks_misshapen_iff text _).mp refused

theorem rejects_other_iff (d : Dialect) (text kind : String) :
    (read d text).Rejects ⟨.otherStatement kind, text⟩ ↔ ∃ plain, (Tree.read d text).Gives (.other kind plain) := by
  rw [rejects_read_iff]
  constructor
  · intro holds
    rcases holds with ⟨_, _, other⟩ | ⟨_, plain, given, same⟩ | ⟨s, given, refused⟩
    · cases other
    · cases same
      exact ⟨plain, given⟩
    · rcases rejects_ofTree given refused with ⟨_, _, other⟩ | other <;> cases other
  · rintro ⟨plain, given⟩
    exact .inr (.inl ⟨kind, plain, given, rfl⟩)

theorem not_rejects_missingIndexSpec (d : Dialect) (text action statement : String) :
    ¬ (read d text).Rejects ⟨.missingIndexSpec action, statement⟩ := by
  intro rejected
  obtain rfl : statement = text := statement_of_rejected d text _ rejected
  rcases (rejects_read_iff ..).mp rejected with ⟨_, _, other⟩ | ⟨_, _, _, other⟩ | ⟨s, given, refused⟩
  · cases other
  · cases other
  · rcases rejects_ofTree given refused with ⟨_, _, other⟩ | other <;> cases other

theorem stops_tableMissing_iff (d : Dialect) (text : String) : (read d text).Stops .tableMissing ↔ RunsOn d text := by
  rw [stops_read_iff]
  constructor
  · intro holds
    obtain ⟨⟩ := holds
    assumption
  · exact .runOn

/-- A tree has the parts that its action asks for exactly if no keyword of its text runs on. Such a text is read as a
bare action that passes for an index, so a missing table is met there and nowhere else, and a missing index never. -/
theorem shaped_iff_not_runsOn (d : Dialect) (text : String) :
    (∀ s, (Tree.read d text).Gives (.schema s) → (s.Shaped ↔ ¬ RunsOn d text)) ∧
      (RunsOn d text → (Tree.read d text).Gives (.schema { action := Action.createIndex })) ∧
      ((read d text).Stops .tableMissing ↔ RunsOn d text) ∧
      ∀ action statement, ¬ (read d text).Rejects ⟨.missingIndexSpec action, statement⟩ := by
  refine ⟨fun s given => ⟨fun shaped run => ?_, fun apart => ?_⟩, fun run => ?_, stops_tableMissing_iff d text,
    not_rejects_missingIndexSpec d text⟩
  · obtain ⟨bare, misshapen⟩ := (misshapen_iff d text _).mpr ⟨run, rfl⟩
    have same := given.unique bare
    cases same
    exact misshapen shaped
  · by_contra misshapen
    exact apart ((misshapen_iff d text s).mp ⟨given, misshapen⟩).1
  · exact ((misshapen_iff d text _).mpr ⟨run, rfl⟩).1

theorem runsOn_dollar : RunsOn .mysql "CREATE INDEX$ x" := by
  refine ⟨"CREATE INDEX$ x".toList, Untouched.strip (by decide +kernel) .mysql, [], " INDEX$ x".toList, " INDEX$ x".toList, '$', " x".toList,
    ⟨by simp, "CREATE".toList, by decide +kernel, rfl⟩, .inl rfl, ⟨[' '], by simp, ?_⟩, by decide +kernel⟩
  exact ⟨List.forall_mem_singleton.mpr rfl, "INDEX".toList, by decide +kernel, rfl⟩

/-- A dollar sign touches the keyword and ends the word. -/
theorem misshapen_dollar :
    (Tree.read .mysql "CREATE INDEX$ x").Gives (.schema { action := Action.createIndex }) ∧
      ¬ SchemaStatement.Shaped { action := Action.createIndex } ∧
      (read .mysql "CREATE INDEX$ x").Stops .tableMissing := by
  obtain ⟨bare, misshapen⟩ := (misshapen_iff .mysql _ _).mpr ⟨runsOn_dollar, rfl⟩
  exact ⟨bare, misshapen, (stops_tableMissing_iff ..).mpr runsOn_dollar⟩

end SqlSchema.Definition
