import SqlSchema.Proofs.Definition.Untouched
import SqlSchema.Proofs.Reader.Indexed
import SqlSchema.Proofs.Statement.Uncommented

/-! One statement at a time. A text that defines an index defines nothing any more once a semicolon and something else
follow it, unless the semicolon is lost in a comment. Definitions of tables have no such end: whatever stands behind
their last parenthesis belongs to the options of the table. -/
namespace SqlSchema
open Text

/-! Semicolons at the end. -/

theorem Text.expandFrom_append (column : Nat) (front more : List Char) :
    ∃ later, expandFrom column (front ++ more) = expandFrom column front ++ expandFrom later more := by
  induction front generalizing column with
  | nil => exact ⟨column, rfl⟩
  | cons c front ih =>
    rw [List.cons_append, expandFrom, expandFrom]
    split
    · obtain ⟨later, split⟩ := ih (column + (8 - column % 8))
      exact ⟨later, by simp [split]⟩
    · split
      · obtain ⟨later, split⟩ := ih 0
        exact ⟨later, by rw [split, List.cons_append]⟩
      · obtain ⟨later, split⟩ := ih (column + 1)
        exact ⟨later, by rw [split, List.cons_append]⟩

theorem Text.prefix_trimRight {front : List Char} (visible : front.getLast?.any isBlank = false) (more : List Char) :
    front <+: trimRight (front ++ more) := by
  obtain ⟨blanks, split, blank⟩ := Statement.trimRight_append (front ++ more)
  rcases List.append_eq_append_iff.mp split with ⟨_, whole, _⟩ | ⟨cut, whole, rest⟩
  · exact ⟨_, whole.symm⟩
  · cases last : cut.getLast? with
    | none =>
      rw [List.getLast?_eq_none_iff.mp last, List.append_nil] at whole
      exact whole ▸ List.prefix_rfl
    | some c =>
      have white := blank c (rest ▸ List.mem_append_left more (List.mem_of_getLast? last))
      rw [whole, List.getLast?_append, last, Option.some_or, Option.any_some, white] at visible
      cases visible

namespace Tree

/-- What is dropped at the end of a text. -/
theorem dropSemicolon_append (cs : List Char) :
    ∃ tail, cs = dropSemicolon cs ++ tail ∧
      (tail = [] ∨ ∃ gap, (∀ c ∈ gap, isBlank c = true) ∧ tail = gap ++ [';']) := by
  unfold dropSemicolon
  split
  next ends =>
    obtain ⟨blanks, split, blank⟩ := Statement.trimRight_append cs.dropLast
    refine ⟨blanks ++ [';'], ?_, .inr ⟨blanks, blank, rfl⟩⟩
    rw [← List.append_assoc, ← split]
    exact (List.dropLast_append_getLast? ';' ends).symm
  next => exact ⟨[], (List.append_nil cs).symm, .inl rfl⟩

/-- A semicolon with something behind it is kept. -/
theorem prefix_dropSemicolon_of_more (front : List Char) {more : List Char} (filled : more ≠ []) :
    front ++ [';'] <+: dropSemicolon (front ++ ';' :: more) := by
  have whole : front ++ ';' :: more = (front ++ [';']) ++ more := by simp
  rw [whole, dropSemicolon]
  split
  · rw [List.dropLast_append_of_ne_nil filled]
    exact prefix_trimRight (by rw [List.getLast?_concat]; decide) _
  · exact List.prefix_append _ _

end Tree

theorem Text.Filled.visible {cs ds : List Char} (filled : Filled cs ds) :
    Statement.visible ds = Statement.visible cs := by
  have cons (c : Char) (cs : List Char) : Statement.visible (c :: cs) = Statement.visible [c] ++ Statement.visible cs :=
    Statement.visible_append [c] cs
  induction filled with
  | nil => rfl
  | char c _ ih => rw [cons, ih, ← cons]
  | tab n _ ih =>
    have blank : ∀ c ∈ List.replicate (n + 1) ' ', isBlank c = true := fun c member => by
      rw [(List.mem_replicate.mp member).2, isBlank_space]
    rw [Statement.visible_append, Statement.visible_of_blank _ blank, List.nil_append, ih]
    rfl

namespace Definition
open Attempt Reader

/-- The text that the rules read once its comments are stripped. -/
def ruled (plain : List Char) : List Char := expandTabs (Tree.dropSemicolon plain)

theorem visible_ruled (plain : List Char) :
    Statement.visible (ruled plain) = Statement.visible (Tree.dropSemicolon plain) := (filled_expandFrom 0 _).visible

/-- An index comes from a tree that has one, a table from one that has a body. -/
theorem parts_of_gives (d : Dialect) (text : String) (definition : Definition)
    (given : (read d text).Gives definition) :
    ∃ plain s, Statement.strip d text.toList = .ok plain ∧ (Rule.statement d).readAll (ruled plain) = .ok s ∧
      (definition.action ∈ Tree.indexActions ∧ s.index.isSome = true ∨
        definition.action = Tree.Action.create ∧ s.body.isSome = true) := by
  obtain ⟨s, parsed, decoded⟩ := (gives_read_iff ..).mp given
  obtain ⟨plain, stripped, _, found⟩ := (Tree.gives_schema_iff ..).mp parsed
  refine ⟨plain, s, stripped, found, ?_⟩
  cases decoded_of_ofTree text s definition decoded with
  | table filled _ => exact .inr ⟨rfl, by rw [filled]; rfl⟩
  | index known index =>
    have there : s.index.isSome = true := by
      cases none : s.index with
      | some _ => rfl
      | none => simp [none, Index.ofSpec] at index
    refine .inl ⟨?_, there⟩
    unfold ofAction? at known
    split_ifs at known <;> cases Option.some.inj known <;> simp [Definition.action, Tree.indexActions]

/-- A text that begins like the definition of an index and has a semicolon outside names defines nothing. -/
theorem not_gives_of_begun (d : Dialect) {text longer : String} {definition : Definition}
    (given : (read d text).Gives definition) (index : definition.action ∈ Tree.indexActions)
    (begun : ∀ plain more, Statement.strip d text.toList = .ok plain → Statement.strip d longer.toList = .ok more →
      Single (Rule.nameQuoting d) (ruled plain) →
      Statement.visible (ruled plain) <+: Statement.visible (ruled more) ∧
        ¬ Single (Rule.nameQuoting d) (ruled more))
    (other : Definition) : ¬ (read d longer).Gives other := by
  intro found
  obtain ⟨plain, s, stripped, whole, parts⟩ := parts_of_gives d text definition given
  obtain ⟨more, t, longer_stripped, read, others⟩ := parts_of_gives d longer other found
  have there : s.index.isSome = true := by
    rcases parts with ⟨_, there⟩ | ⟨action, _⟩
    · exact there
    · rw [action] at index
      exact absurd index Tree.SchemaStatement.create_not_mem_indexActions
  obtain ⟨same, parted⟩ := begun plain more stripped longer_stripped (Rule.single_of_indexed d _ s whole there)
  rcases others with ⟨_, indexed⟩ | ⟨_, body⟩
  · exact parted (Rule.single_of_indexed d _ t read indexed)
  · obtain ⟨_, first, _⟩ := (Rule.readAll_eq_ok ..).mp whole
    obtain ⟨_, second, _⟩ := (Rule.readAll_eq_ok ..).mp read
    rcases Rule.statement_cases d _ _ t second with table | ⟨_, none⟩ | ⟨rfl, _⟩
    · exact Rule.not_createTable_of_indexed d same (Rule.indexed_cases d _ _ s first there) t _ table
    · rw [none] at body
      cases body
    · cases body

/-- Stripping leaves the semicolon where it is: behind what it leaves of the first text, and in front of something. -/
def Parted (d : Dialect) (first second : String) : Prop :=
  ∃ plain gap more, Statement.strip d first.toList = .ok plain ∧
    Statement.strip d (first ++ ";" ++ second).toList = .ok (plain ++ gap ++ ';' :: more) ∧
    (∀ c ∈ gap, isBlank c = true) ∧ more ≠ []

theorem nameMark_visible (d : Dialect) (c : Char) (blank : isBlank c = true) :
    c ≠ (Rule.nameQuoting d).mark ∧ c ≠ ';' := by
  constructor
  · rintro rfl
    cases d <;> exact absurd blank (by decide)
  · rintro rfl
    exact absurd blank (by decide)

theorem begun_of_parted {d : Dialect} {plain gap more : List Char} (blank : ∀ c ∈ gap, isBlank c = true)
    (filled : more ≠ []) (single : Single (Rule.nameQuoting d) (ruled plain)) :
    Statement.visible (ruled plain) <+: Statement.visible (ruled (plain ++ gap ++ ';' :: more)) ∧
      ¬ Single (Rule.nameQuoting d) (ruled (plain ++ gap ++ ';' :: more)) := by
  obtain ⟨tail, whole, ending⟩ := Tree.dropSemicolon_append plain
  obtain ⟨left, kept⟩ := Tree.prefix_dropSemicolon_of_more (plain ++ gap) filled
  -- What follows the first statement begins with white space and a semicolon.
  obtain ⟨front, behind, white, split⟩ : ∃ front behind, (∀ c ∈ front, isBlank c = true) ∧
      tail ++ gap ++ ';' :: left = front ++ ';' :: behind := by
    rcases ending with rfl | ⟨before, space, rfl⟩
    · exact ⟨gap, left, blank, rfl⟩
    · exact ⟨before, gap ++ ';' :: left, space, by simp⟩
  have longer : Tree.dropSemicolon (plain ++ gap ++ ';' :: more) = Tree.dropSemicolon plain ++ (front ++ ';' :: behind) := by
    rw [← kept, ← split]
    conv_lhs => rw [whole]
    simp
  rw [visible_ruled, visible_ruled, longer, Statement.visible_append]
  refine ⟨List.prefix_append _ _, fun parted => ?_⟩
  rw [ruled, longer, expandTabs] at parted
  obtain ⟨column, expanded⟩ := expandFrom_append 0 (Tree.dropSemicolon plain) (front ++ ';' :: behind)
  obtain ⟨later, again⟩ := expandFrom_append column front (';' :: behind)
  have spaces : ∀ c ∈ expandFrom column front, isBlank c = true :=
    (filled_expandFrom column front).forall_mem isBlank_space white
  have joined : expandFrom later (';' :: behind) = ';' :: expandFrom (later + 1) behind := by simp [expandFrom]
  rw [expanded, again, joined] at parted
  have apart : (expandFrom column front ++ ';' :: expandFrom (later + 1) behind).head? ≠
      some (Rule.nameQuoting d).mark := by
    cases front : expandFrom column front with
    | nil => cases d <;> simp [Rule.nameQuoting, Rule.nameMark]
    | cons c _ =>
      have other := (nameMark_visible d c (spaces c (by simp [front]))).1
      simpa using other
  have rest := (Single.left rfl single parted apart).behind fun c member => (nameMark_visible d c (spaces c member)).1
  have unmarked : ';' ≠ (Rule.nameQuoting d).mark := by cases d <;> decide
  exact (rest.tail unmarked).1 rfl

theorem begun_of_uncommented {d : Dialect} {first second plain more : List Char}
    (whole : Statement.Uncommented (first ++ ';' :: second)) (filled : Statement.visible second ≠ [])
    (stripped : Statement.strip d first = .ok plain) (longer : Statement.strip d (first ++ ';' :: second) = .ok more) :
    Statement.visible (ruled plain) <+: Statement.visible (ruled more) ∧
      ¬ Single (Rule.nameQuoting d) (ruled more) := by
  obtain ⟨seen, _⟩ := (whole.part (List.prefix_append _ _).isInfix).strip stripped
  obtain ⟨all, unquoted⟩ := whole.strip longer
  obtain ⟨tail, split, ending⟩ := Tree.dropSemicolon_append more
  have parted : Statement.visible first ++ [';'] <+: Statement.visible (Tree.dropSemicolon more) := by
    have joined : Statement.visible first ++ ';' :: Statement.visible second =
        Statement.visible (Tree.dropSemicolon more) ++ Statement.visible tail := by
      rw [← Statement.visible_append, ← split, all, Statement.visible_append]
      rfl
    rcases ending with rfl | ⟨gap, blank, rfl⟩
    · have none : Statement.visible [] = [] := rfl
      rw [none, List.append_nil] at joined
      exact ⟨Statement.visible second, by rw [← joined, List.append_assoc]; rfl⟩
    · have last : Statement.visible (gap ++ [';']) = [';'] := by
        rw [Statement.visible_append, Statement.visible_of_blank gap blank]
        rfl
      rw [last] at joined
      have cut := congrArg List.dropLast joined
      rw [List.dropLast_concat, List.dropLast_append_of_ne_nil (List.cons_ne_nil _ _),
        List.dropLast_cons_of_ne_nil filled] at cut
      exact ⟨(Statement.visible second).dropLast, by rw [← cut, List.append_assoc]; rfl⟩
  rw [visible_ruled, visible_ruled]
  refine ⟨?_, fun single => ?_⟩
  · have kept : Statement.visible (Tree.dropSemicolon plain) <+: Statement.visible plain :=
      (Tree.prefix_dropSemicolon plain).filter _
    rw [seen] at kept
    exact kept.trans ((List.prefix_append _ _).trans parted)
  · have there : ';' ∈ ruled more := by
      have inside : ';' ∈ Statement.visible (ruled more) :=
        (visible_ruled more).symm ▸ parted.subset (List.mem_append_right _ (List.mem_singleton_self _))
      exact List.mem_of_mem_filter inside
    refine single.not_mem (fun mark => ?_) there
    have other : ∀ c ∈ ruled more, Statement.isHashQuote c = false :=
      (filled_expandFrom 0 _).forall_mem (by decide) fun c member =>
        unquoted c ((Tree.prefix_dropSemicolon more).subset member)
    have quote : Statement.isHashQuote (Rule.nameQuoting d).mark = true := by cases d <;> decide
    exact absurd (quote.symm.trans (other _ mark)) Bool.noConfusion

/-- Only a text with something in it has an action. -/
theorem filled_of_refused {d : Dialect} {text action : String}
    (refused : (read d text).Rejects ⟨.unsupportedAction action, text⟩) :
    ∃ plain, Statement.strip d text.toList = .ok plain ∧ plain ≠ [] := by
  obtain ⟨cause, rejected, same⟩ := (rejects_adapt ..).mp refused
  cases same
  rcases (breaks_bind ..).mp rejected with syntactic | ⟨tree, parsed, _⟩
  · obtain ⟨_, _, other⟩ := (rejects_adapt ..).mp syntactic
    cases other
  · rw [gives_adapt, Tree.read, gives_bind] at parsed
    obtain ⟨plain, stripped, parsed⟩ := parsed
    refine ⟨plain, (gives_lift ..).mp stripped, ?_⟩
    rintro rfl
    simp [Tree.dropSemicolon, Tree.ofPlain] at parsed

theorem visible_ne_nil_of_refused {d : Dialect} {text action : String} (whole : Statement.Uncommented text.toList)
    (refused : (read d text).Rejects ⟨.unsupportedAction action, text⟩) : Statement.visible text.toList ≠ [] := by
  obtain ⟨plain, stripped, filled⟩ := filled_of_refused refused
  rw [← (whole.strip stripped).1]
  obtain ⟨cs, _, rfl⟩ := (map_eq_ok ..).mp stripped
  obtain ⟨c, rest, first⟩ := List.exists_cons_of_ne_nil filled
  have seen : isBlank c = false := isBlank_of_head?_trim _ c (by rw [first]; rfl)
  rw [first, Statement.visible, List.filter_cons_of_pos (by simp [seen])]
  exact List.cons_ne_nil _ _

/-- An index and, behind a semicolon, a statement with an action that is not supported: both together define nothing.
The semicolon must be left when comments are stripped, as it is where nothing is quoted and nothing opens a comment. -/
theorem not_gives_joined (d : Dialect) (first second action : String) (definition : Definition)
    (given : (read d first).Gives definition) (index : definition.action ∈ Tree.indexActions)
    (refused : (read d second).Rejects ⟨.unsupportedAction action, second⟩)
    (left : Parted d first second ∨ Statement.Uncommented (first ++ ";" ++ second).toList) (other : Definition) :
    ¬ (read d (first ++ ";" ++ second)).Gives other := by
  have whole : (first ++ ";" ++ second).toList = first.toList ++ ';' :: second.toList := by simp
  refine not_gives_of_begun d given index (fun plain more stripped longer single => ?_) other
  rcases left with ⟨_, gap, behind, first_stripped, both, blank, filled⟩ | open_
  · cases stripped.symm.trans first_stripped
    cases longer.symm.trans both
    exact begun_of_parted blank filled single
  · rw [whole] at open_ longer
    have second_open : Statement.Uncommented second.toList :=
      open_.part ⟨first.toList ++ [';'], [], by simp⟩
    exact begun_of_uncommented open_ (visible_ne_nil_of_refused second_open refused) stripped longer

theorem refused_drop (d : Dialect) :
    (read d "DROP TABLE t").Rejects ⟨.unsupportedAction Tree.Action.drop, "DROP TABLE t"⟩ := by
  have parsed : (Tree.read d "DROP TABLE t").Gives
      (.schema { action := Tree.Action.drop, table := some { name := "t" } }) := by
    rw [Tree.read_of_untouched (by decide +kernel)]
    cases d <;> decide +kernel
  exact refused_of_action parsed (by decide) (by decide)

/-- A semicolon in a name, and a comment in front of the other one. -/
theorem not_gives_joined_named :
    (read .mysql "ALTER TABLE t ADD INDEX \x60a;b\x60 (c) /* x */").Gives
      (.addIndex "ALTER TABLE t ADD INDEX \x60a;b\x60 (c) /* x */" "t"
        { name := "a;b", type := "", columns := [{ column := "c" }] }) ∧
      ∀ other,
        ¬ (read .mysql ("ALTER TABLE t ADD INDEX \x60a;b\x60 (c) /* x */" ++ ";" ++ "DROP TABLE t")).Gives other := by
  have given : (read .mysql "ALTER TABLE t ADD INDEX \x60a;b\x60 (c) /* x */").Gives
      (.addIndex "ALTER TABLE t ADD INDEX \x60a;b\x60 (c) /* x */" "t"
        { name := "a;b", type := "", columns := [{ column := "c" }] }) := by decide +kernel
  have parted : Parted .mysql "ALTER TABLE t ADD INDEX \x60a;b\x60 (c) /* x */" "DROP TABLE t" :=
    ⟨"ALTER TABLE t ADD INDEX \x60a;b\x60 (c)".toList, "  ".toList, "DROP TABLE t".toList, by decide +kernel,
      by decide +kernel, by decide, by decide⟩
  exact ⟨given, not_gives_joined .mysql _ _ _ _ given (by decide) (refused_drop .mysql) (.inl parted)⟩

/-- What stands behind two dashes is no statement any more. -/
theorem gives_joined_commented :
    (read .postgres "CREATE INDEX i ON t (c) -- x").Gives
        (.createIndex "CREATE INDEX i ON t (c) -- x" "t" { name := "i", type := "", columns := [{ column := "c" }] }) ∧
      (read .postgres "DROP TABLE t").Rejects ⟨.unsupportedAction Tree.Action.drop, "DROP TABLE t"⟩ ∧
      (read .postgres ("CREATE INDEX i ON t (c) -- x" ++ ";" ++ "DROP TABLE t")).Gives
        (.createIndex "CREATE INDEX i ON t (c) -- x;DROP TABLE t" "t"
          { name := "i", type := "", columns := [{ column := "c" }] }) :=
  ⟨by decide +kernel, refused_drop .postgres, by decide +kernel⟩

/-- The options of a table may hold anything. -/
example : (read .mysql "CREATE TABLE t (a int);DROP TABLE t").Gives
    (.createTable "CREATE TABLE t (a int);DROP TABLE t"
      { name := "t", columns := [{ name := "a", typeName := "int" }] }) := by
  decide +kernel

end Definition

end SqlSchema
