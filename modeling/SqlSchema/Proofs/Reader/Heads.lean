import SqlSchema.Proofs.Reader.Begun
import SqlSchema.Proofs.Reader.Shaped

/-! Statements by their heads. Once the words are there that begin a statement about a table or an index, all rules for
other statements fail, whatever follows: what is read is a statement of this kind. -/
namespace SqlSchema.Reader.Rule
open Text SqlSchema.Tree

/-- What tells the kind of a constraint, and what is added with it. -/
def constraintKinds : List (List Sign × String) := [
  ([.word "UNIQUE"], Action.addIndex),
  ([.word "PRIMARY", .word "KEY"], Action.addPrimaryKey)]

def unnamedUnique : List Sign := [.word "CONSTRAINT", .word "UNIQUE"]

/-- What may follow `ADD`, and what is added. -/
def additions : List (List Sign × String) :=
  ["INDEX", "KEY"].map (fun word => ([.word word], Action.addIndex)) ++ constraintKinds ++
    constraintKinds.map (fun kind => (.word "CONSTRAINT" :: kind.1, kind.2)) ++
      constraintKinds.map fun kind => (.word "CONSTRAINT" :: .name :: kind.1, kind.2)

/-- The beginning of an alteration that adds something. -/
def altering (addition : List Sign) : List Sign := [.word "ALTER", .word "TABLE", .name, .word "ADD"] ++ addition

/-- The beginnings of statements that define a table or an index, and what they do. -/
def heads : List (List Sign × String) :=
  [([.word "CREATE", .word "TABLE"], Action.create),
    ([.word "CREATE", .word "TEMPORARY", .word "TABLE"], Action.create),
    ([.word "CREATE", .word "INDEX"], Action.createIndex),
    ([.word "CREATE", .word "UNIQUE", .word "INDEX"], Action.createIndex)] ++
      additions.map fun addition => (altering addition.1, addition.2)

theorem plain_of_heads : ∀ head ∈ heads, ∀ sign ∈ head.1, sign.Plain := by decide

variable {d : Dialect} {signs : List Sign} {cs mid rest : List Char} {action : String}

theorem kind_cases (kind : (signs, action) ∈ constraintKinds) :
    signs = [.word "UNIQUE"] ∧ action = Action.addIndex ∨
      signs = [.word "PRIMARY", .word "KEY"] ∧ action = Action.addPrimaryKey := by
  simpa [constraintKinds] using kind

theorem addition_cases (addition : (signs, action) ∈ additions) :
    (∃ word ∈ ["INDEX", "KEY"], signs = [.word word] ∧ action = Action.addIndex) ∨ (signs, action) ∈ constraintKinds ∨
      (∃ kind, (kind, action) ∈ constraintKinds ∧ signs = .word "CONSTRAINT" :: kind) ∨
        ∃ kind, (kind, action) ∈ constraintKinds ∧ signs = .word "CONSTRAINT" :: .name :: kind := by
  simp only [additions, List.mem_append, List.mem_map, Prod.mk.injEq, or_assoc] at addition
  rcases addition with ⟨word, member, rfl, rfl⟩ | kind | ⟨kind, member, rfl, rfl⟩ | ⟨kind, member, rfl, rfl⟩
  · exact .inl ⟨word, member, rfl, rfl⟩
  · exact .inr (.inl kind)
  · exact .inr (.inr (.inl ⟨kind.1, member, rfl⟩))
  · exact .inr (.inr (.inr ⟨kind.1, member, rfl⟩))

theorem head_cases (head : (signs, action) ∈ heads) :
    (∃ word ∈ ["TABLE", "TEMPORARY"], ∃ more, signs = .word "CREATE" :: .word word :: more ∧ action = Action.create) ∨
      (∃ word ∈ ["INDEX", "UNIQUE"], ∃ more,
        signs = .word "CREATE" :: .word word :: more ∧ action = Action.createIndex) ∨
      ∃ addition, (addition, action) ∈ additions ∧ signs = altering addition := by
  simp only [heads, List.mem_append, List.mem_cons, List.not_mem_nil, or_false, List.mem_map, Prod.mk.injEq] at head
  rcases head with (⟨rfl, rfl⟩ | ⟨rfl, rfl⟩ | ⟨rfl, rfl⟩ | ⟨rfl, rfl⟩) | ⟨addition, member, rfl, rfl⟩
  · exact .inl ⟨_, by simp, _, rfl, rfl⟩
  · exact .inl ⟨_, by simp, _, rfl, rfl⟩
  · exact .inr (.inl ⟨_, by simp, _, rfl, rfl⟩)
  · exact .inr (.inl ⟨_, by simp, _, rfl, rfl⟩)
  · exact .inr (.inr ⟨addition.1, member, rfl⟩)

/-! Alterations. -/

theorem takes_primaryKey (begun : Begins d [.word "PRIMARY", .word "KEY"] cs rest) : primaryKey.Takes cs () rest := by
  obtain ⟨mid, primary, key⟩ := begun.split [.word "PRIMARY"]
  exact Takes.bind (takes_keyword_begun primary (by decide)) (takes_keyword_begun key (by decide))

theorem refuses_primaryKey {sign : Sign} (begun : Begins d (sign :: signs) cs rest) (other : sign.Other "PRIMARY") :
    primaryKey.Refuses cs := (refuses_keyword_begun begun (by decide) other).bind

/-- A kind of constraint is not missed where one is looked for. -/
theorem accepts_kind (name : Shape) (kind : (signs, action) ∈ constraintKinds) (begun : Begins d signs cs rest) :
    (choice name [primaryKey, keyword "UNIQUE"]).Accepts cs := by
  rcases kind_cases kind with ⟨rfl, _⟩ | ⟨rfl, _⟩
  · exact accepts_choice name (by simp) (takes_keyword_begun begun (by decide)).accepts
  · exact accepts_choice name (by simp) (takes_primaryKey begun).accepts

theorem takes_constraintName (begun : Begins d [.word "CONSTRAINT"] cs mid) (kind : (signs, action) ∈ constraintKinds)
    (later : Begins d signs mid rest) : (constraintName d).Takes cs none mid :=
  Takes.bind (takes_keyword_begun begun (by decide)) ((accepts_kind _ kind later).without _).bind.optional

theorem takes_constraintName_named (begun : Begins d [.word "CONSTRAINT", .name] cs rest) :
    ∃ name, (constraintName d).Takes cs (some name) rest := by
  obtain ⟨mid, constraint, named⟩ := begun.split [.word "CONSTRAINT"]
  obtain ⟨name, taken⟩ := takes_identifier_name named
  have kindless : (choice (.named "constraint type") [primaryKey, keyword "UNIQUE"]).Refuses mid := by
    apply refuses_choice
    simp only [List.forall_mem_cons]
    exact ⟨refuses_primaryKey named trivial, refuses_keyword_begun named (by decide) trivial, List.forall_mem_nil _⟩
  exact ⟨name, Takes.bind (takes_keyword_begun constraint (by decide)) (Takes.bind (kindless.without _) taken).optional⟩

/-- What adds an index is no other alteration. -/
theorem refuses_alterOther (addition : (signs, action) ∈ additions) (begun : Begins d (.word "ADD" :: signs) cs rest) :
    (alterOther d).Refuses cs := by
  obtain ⟨mid, add, begun⟩ := begun.split [.word "ADD"]
  refine ((Takes.bind_accepts (takes_keyword_begun add (by decide)) ?_).without _).bind
  rcases addition_cases addition with ⟨word, member, rfl, _⟩ | kind | ⟨kind, member, rfl⟩ | ⟨kind, member, rfl⟩
  · rw [List.mem_cons, List.mem_singleton] at member
    rcases member with rfl | rfl
    · exact accepts_choice _ (by simp) (takes_keyword_begun begun (by decide)).accepts
    · exact accepts_choice _ (by simp) (takes_keyword_begun begun (by decide)).accepts
  · rcases kind_cases kind with ⟨rfl, _⟩ | ⟨rfl, _⟩
    · exact accepts_choice _ (by simp) (takes_keyword_begun begun (by decide)).accepts
    · exact accepts_choice _ (by simp) (takes_primaryKey begun).accepts
  · obtain ⟨last, constraint, later⟩ := begun.split [.word "CONSTRAINT"]
    have taken := takes_constraintName constraint member later
    exact accepts_choice _ (List.mem_of_getLast? rfl) (taken.bind_accepts (accepts_kind _ member later))
  · obtain ⟨last, constraint, later⟩ := begun.split [.word "CONSTRAINT", .name]
    obtain ⟨name, taken⟩ := takes_constraintName_named constraint
    exact accepts_choice _ (List.mem_of_getLast? rfl) (taken.bind_accepts (accepts_kind _ member later))

theorem yields_addPrimaryKey : (addPrimaryKey d).Yields (·.1 = Action.addPrimaryKey) := by
  refine yields_then _ _ fun _ => yields_then _ _ fun _ => yields_then _ _ fun _ => yields_then _ _ fun _ => ?_
  exact yields_then _ _ fun _ => yields_then _ _ fun _ => yields_then _ _ fun _ => yields_pure _ rfl

theorem yields_addUniqueConstraint : (addUniqueConstraint d).Yields (·.1 = Action.addIndex) := by
  refine yields_then _ _ fun _ => yields_then _ _ fun _ => yields_then _ _ fun _ => yields_then _ _ fun _ => ?_
  refine yields_then _ _ fun _ => yields_then _ _ fun _ => yields_then _ _ fun _ => yields_then _ _ fun _ => ?_
  exact yields_then _ _ fun _ => yields_pure _ rfl

theorem yields_addIndex : (addIndex d).Yields (·.1 = Action.addIndex) := by
  refine yields_then _ _ fun _ => yields_then _ _ fun _ => yields_then _ _ fun _ => yields_then _ _ fun _ => ?_
  exact yields_then _ _ fun _ => yields_then _ _ fun _ => yields_then _ _ fun _ => yields_pure _ rfl

/-- A primary key is no unique constraint. -/
theorem refuses_addUniqueConstraint (addition : (signs, Action.addPrimaryKey) ∈ additions)
    (begun : Begins d (.word "ADD" :: signs) cs rest) : (addUniqueConstraint d).Refuses cs := by
  obtain ⟨mid, add, begun⟩ := begun.split [.word "ADD"]
  have add_taken := takes_keyword_begun add (by decide)
  have different : Action.addPrimaryKey ≠ Action.addIndex := by decide
  rcases addition_cases addition with ⟨_, _, _, same⟩ | kind | ⟨kind, member, rfl⟩ | ⟨kind, member, rfl⟩
  · exact absurd same different
  · obtain ⟨rfl, _⟩ := (kind_cases kind).resolve_left fun other => different other.2
    exact add_taken.refuses (refuses_keyword_begun begun (by decide) (by decide)).bind
  · obtain ⟨rfl, _⟩ := (kind_cases member).resolve_left fun other => different other.2
    obtain ⟨_, constraint, begun⟩ := begun.split [.word "CONSTRAINT"]
    obtain ⟨_, primary, key⟩ := begun.split [.word "PRIMARY"]
    -- Without a name of its own, the constraint takes its kind for one.
    obtain ⟨_, _, taken⟩ := takes_identifier_word primary (by decide)
    refine add_taken.refuses ((takes_keyword_begun constraint (by decide)).refuses (taken.refuses ?_))
    exact (refuses_keyword_begun key (by decide) (by decide)).bind
  · obtain ⟨rfl, _⟩ := (kind_cases member).resolve_left fun other => different other.2
    obtain ⟨_, constraint, begun⟩ := begun.split [.word "CONSTRAINT"]
    obtain ⟨_, named, primary⟩ := begun.split [.name]
    obtain ⟨_, taken⟩ := takes_identifier_name named
    refine add_taken.refuses ((takes_keyword_begun constraint (by decide)).refuses (taken.refuses ?_))
    exact (refuses_keyword_begun primary (by decide) (by decide)).bind

theorem refuses_addIndex (addition : (signs, Action.addPrimaryKey) ∈ additions)
    (begun : Begins d (.word "ADD" :: signs) cs rest) : (addIndex d).Refuses cs := by
  obtain ⟨mid, add, begun⟩ := begun.split [.word "ADD"]
  have different : Action.addPrimaryKey ≠ Action.addIndex := by decide
  obtain ⟨sign, more, rfl, unique, key, index⟩ : ∃ sign more, signs = sign :: more ∧ sign.Other "UNIQUE" ∧
      sign.Other "KEY" ∧ sign.Other "INDEX" := by
    rcases addition_cases addition with ⟨_, _, _, same⟩ | kind | ⟨kind, member, rfl⟩ | ⟨kind, member, rfl⟩
    · exact absurd same different
    · obtain ⟨rfl, _⟩ := (kind_cases kind).resolve_left fun other => different other.2
      exact ⟨_, _, rfl, by decide, by decide, by decide⟩
    · exact ⟨_, _, rfl, by decide, by decide, by decide⟩
    · exact ⟨_, _, rfl, by decide, by decide, by decide⟩
  have keyless : keyWord.Refuses mid := by
    apply refuses_choice
    simp only [List.forall_mem_cons]
    exact ⟨(refuses_keyword_begun begun (by decide) key).bind, (refuses_keyword_begun begun (by decide) index).bind,
      List.forall_mem_nil _⟩
  refine (takes_keyword_begun add (by decide)).refuses (Refuses.bind (refuses_choice _ _ ?_))
  simp only [List.forall_mem_cons]
  exact ⟨(refuses_keyword_begun begun (by decide) unique).bind, keyless.bind, List.forall_mem_nil _⟩

/-- The alteration adds a primary key that has the word `UNIQUE` for its name. -/
def Misnamed (a : Alteration) : Prop :=
  a.1 = Action.addPrimaryKey ∧ ∃ spec columns, a.2 = some (spec, columns) ∧ upper spec.name.toList = "UNIQUE".toList

/-- The name of a primary key, which may be a word that tells the kind of another constraint. -/
theorem takes_keyName {name : String} (constraint : Begins d [.word "CONSTRAINT"] cs mid)
    (other : primaryKey.Refuses mid) (taken : (identifier d).Takes mid name rest) :
    (optional do
      keyword "CONSTRAINT"
      without primaryKeyShape primaryKey
      identifier d).Takes cs (some name) rest :=
  (Takes.bind (takes_keyword_begun constraint (by decide)) (Takes.bind (other.without _) taken)).optional

/-- An index is a primary key only where a constraint has taken its kind for its name. -/
theorem yieldsAt_addPrimaryKey (addition : (signs, Action.addIndex) ∈ additions)
    (begun : Begins d (.word "ADD" :: signs) cs rest) :
    (addPrimaryKey d).YieldsAt cs fun a => signs = unnamedUnique ∧ Misnamed a := by
  obtain ⟨mid, add, begun⟩ := begun.split [.word "ADD"]
  have add_taken := takes_keyword_begun add (by decide)
  have different : Action.addIndex ≠ Action.addPrimaryKey := by decide
  have nameless {sign : Sign} {more : List Sign} (begun : Begins d (sign :: more) mid rest)
      (constraint : sign.Other "CONSTRAINT") (primary : sign.Other "PRIMARY") : (addPrimaryKey d).Refuses cs :=
    add_taken.refuses ((refuses_keyword_begun begun (by decide) constraint).bind.optional.refuses
      (refuses_primaryKey begun primary).bind)
  rcases addition_cases addition with ⟨word, member, rfl, _⟩ | kind | ⟨kind, member, rfl⟩ | ⟨kind, member, rfl⟩
  · rw [List.mem_cons, List.mem_singleton] at member
    rcases member with rfl | rfl
    · exact (nameless begun (by decide) (by decide)).yieldsAt _
    · exact (nameless begun (by decide) (by decide)).yieldsAt _
  · obtain ⟨rfl, _⟩ := (kind_cases kind).resolve_right fun other => different other.2
    exact (nameless begun (by decide) (by decide)).yieldsAt _
  · obtain ⟨rfl, _⟩ := (kind_cases member).resolve_right fun other => different other.2
    obtain ⟨_, constraint, unique⟩ := begun.split [.word "CONSTRAINT"]
    obtain ⟨spelled, alike, taken⟩ := takes_identifier_word unique (by decide)
    have named := takes_keyName constraint (refuses_primaryKey unique (by decide)) taken
    have letters : upper spelled = "UNIQUE".toList := upper_of_alike "UNIQUE" (by decide) spelled alike
    have filled : givenName? (some (String.ofList spelled)) = some (String.ofList spelled) := by
      refine Option.filter_eq_some_iff.mpr ⟨rfl, ?_⟩
      cases spelled with
      | nil => cases letters
      | cons c more => simp
    refine add_taken.bind_yieldsAt (named.bind_yieldsAt (Yields.at ?_ _))
    refine yields_then _ _ fun _ => yields_then _ _ fun _ => yields_then _ _ fun columns => ?_
    refine yields_then _ _ fun _ => yields_then _ _ fun _ => yields_pure _ ⟨rfl, rfl, _, columns, rfl, ?_⟩
    rw [filled]
    simpa using letters
  · obtain ⟨rfl, _⟩ := (kind_cases member).resolve_right fun other => different other.2
    obtain ⟨_, constraint, begun⟩ := begun.split [.word "CONSTRAINT"]
    obtain ⟨_, named, unique⟩ := begun.split [.name]
    obtain ⟨_, taken⟩ := takes_identifier_name named
    have named := takes_keyName constraint (refuses_primaryKey named trivial) taken
    exact (add_taken.refuses (named.refuses (refuses_primaryKey unique (by decide)).bind)).yieldsAt _

/-- What is added is what its signs say, or a misnamed primary key. -/
theorem yieldsAt_alteration (addition : (signs, action) ∈ additions)
    (begun : Begins d (.word "ADD" :: signs) cs rest) :
    (alteration d).YieldsAt cs fun a => a.1 = action ∨ signs = unnamedUnique ∧ Misnamed a := by
  have known : action = Action.addIndex ∨ action = Action.addPrimaryKey := by
    rcases addition_cases addition with ⟨_, _, _, same⟩ | kind | ⟨_, kind, _⟩ | ⟨_, kind, _⟩
    · exact .inl same
    all_goals exact (kind_cases kind).imp (·.2) (·.2)
  have other := (refuses_alterOther addition begun).yieldsAt fun a => a.1 = action ∨ signs = unnamedUnique ∧ Misnamed a
  apply yieldsAt_choice
  simp only [List.forall_mem_cons]
  rcases known with rfl | rfl
  · refine ⟨?_, ?_, ?_, other, List.forall_mem_nil _⟩
    · exact fun c a after place found => .inr (yieldsAt_addPrimaryKey addition begun c a after place found)
    · exact fun c a after _ found => .inl (yields_addUniqueConstraint c a after found)
    · exact fun c a after _ found => .inl (yields_addIndex c a after found)
  · refine ⟨?_, ?_, ?_, other, List.forall_mem_nil _⟩
    · exact fun c a after _ found => .inl (yields_addPrimaryKey c a after found)
    · exact (refuses_addUniqueConstraint addition begun).yieldsAt _
    · exact (refuses_addIndex addition begun).yieldsAt _

/-- The statement does what the signs say, or is misnamed as an alteration is. -/
def Fitting (signs : List Sign) (action : String) (s : SchemaStatement) : Prop :=
  s.action = action ∨
    signs = altering unnamedUnique ∧ s.action = Action.addPrimaryKey ∧
      ∃ spec, s.index = some spec ∧ upper spec.name.toList = "UNIQUE".toList

theorem yieldsAt_alterTable (addition : (signs, action) ∈ additions)
    (begun : Begins d (altering signs) cs rest) : (alterTable d).YieldsAt cs (Fitting (altering signs) action) := by
  obtain ⟨_, alter, begun⟩ := begun.split [.word "ALTER"]
  obtain ⟨onward, word, begun⟩ := begun.split [.word "TABLE"]
  obtain ⟨mid, named, begun⟩ := begun.split [.name]
  obtain ⟨name, taken⟩ := takes_identifier_name named
  have qualifier : (do
      let name ← identifier d
      mark '.'
      return name : Rule String).Refuses onward :=
    taken.refuses (refuses_mark_begun begun (by decide) (by decide)).bind
  have table : (table d).Takes onward { name, qualifier := "" } mid :=
    Takes.bind (Takes.bind qualifier.optional (Takes.bind taken (takes_pure _ _))) (takes_pure _ _)
  have only : (keyword "ONLY").Refuses onward := refuses_keyword_begun named (by decide) trivial
  refine (takes_keyword_begun alter (by decide)).bind_yieldsAt ((takes_keyword_begun word (by decide)).bind_yieldsAt ?_)
  refine only.optional.bind_yieldsAt (table.bind_yieldsAt ((yieldsAt_alteration addition begun).bind_yields ?_))
  rintro ⟨action, added⟩ fitting
  refine yields_pure _ (fitting.imp_right fun misnamed => ?_)
  obtain ⟨same, primary, spec, columns, rfl, letters⟩ := misnamed
  exact ⟨congrArg altering same, primary, spec, rfl, letters⟩

/-! Statements. -/

theorem yields_createTable : (createTable d).Yields (·.action = Action.create) := by
  refine yields_then _ _ fun _ => yields_then _ _ fun _ => yields_then _ _ fun _ => yields_then _ _ fun _ => ?_
  exact yields_then _ _ fun _ => yields_then _ _ fun _ => yields_then _ _ fun _ => yields_pure _ rfl

theorem yields_createIndex : (createIndex d).Yields (·.action = Action.createIndex) := by
  refine yields_then _ _ fun _ => yields_then _ _ fun _ => yields_then _ _ fun _ => yields_then _ _ fun _ => ?_
  refine yields_then _ _ fun _ => yields_then _ _ fun _ => yields_then _ _ fun _ => yields_then _ _ fun _ => ?_
  exact yields_then _ _ fun _ => yields_then _ _ fun _ => yields_pure _ rfl

/-- A rule that begins with another word. -/
theorem refuses_of_other {α : Type} {word : String} {sign : Sign} {next : Unit → Rule α}
    (begun : Begins d (sign :: signs) cs rest) (capital : Capital word) (other : sign.Other word) :
    (keyword word >>= next).Refuses cs := (refuses_keyword_begun begun capital other).bind

/-- Neither of two words follows `CREATE`. -/
theorem refuses_created {α : Type} {word optionalWord needed : String} {next : Option Unit → Rule α}
    (begun : Begins d (.word "CREATE" :: .word word :: signs) cs rest) (known : Capital optionalWord ∧ Capital needed)
    (others : (Sign.word word).Other optionalWord ∧ (Sign.word word).Other needed) :
    (do
      keyword "CREATE"
      let found ← optional (keyword optionalWord)
      keyword needed
      next found : Rule α).Refuses cs := by
  obtain ⟨mid, create, begun⟩ := begun.split [.word "CREATE"]
  have absent : (keyword optionalWord).Refuses mid := refuses_keyword_begun begun known.1 others.1
  have missing : (keyword needed).Refuses mid := refuses_keyword_begun begun known.2 others.2
  exact (takes_keyword_begun create (by decide)).refuses (absent.optional.refuses missing.bind)

/-- What other things are created by is told by none of the words that follow `CREATE` in a definition. -/
theorem refuses_createOther {word : String} (member : word ∈ ["TABLE", "TEMPORARY", "UNIQUE", "INDEX"])
    (begun : Begins d (.word "CREATE" :: .word word :: signs) cs rest) : createOther.Refuses cs := by
  obtain ⟨mid, create, begun⟩ := begun.split [.word "CREATE"]
  have plain : ∀ word ∈ ["TABLE", "TEMPORARY", "UNIQUE", "INDEX"], Capital word ∧ (Sign.word word).Other "OR" := by
    decide
  obtain ⟨capital, other⟩ := plain word member
  have replacing : (keywords ["OR", "REPLACE"]).Refuses mid := refuses_of_other begun (by decide) other
  obtain ⟨_, alone, _⟩ := begun.split [.word word]
  have accepted := (takes_keyword_begun alone capital).accepts
  refine (takes_keyword_begun create (by decide)).refuses (replacing.optional.refuses (Refuses.bind ?_))
  exact (accepts_choice createdShape (List.mem_map_of_mem member) accepted).without _

/-- A statement is what it begins like. -/
theorem yieldsAt_statement (head : (signs, action) ∈ heads) (begun : Begins d signs cs rest) :
    (statement d).YieldsAt cs fun s => s.Shaped ∧ Fitting signs action s := by
  have created {word : String} {more : List Sign} (begun : Begins d (.word "CREATE" :: .word word :: more) cs rest)
      {r : Rule SchemaStatement} (member : r ∈ [alterTable d, dropTable d, dropOther, renameTable d, truncateTable d]) :
      r.Refuses cs := by
    simp only [List.mem_cons, List.not_mem_nil, or_false] at member
    rcases member with rfl | rfl | rfl | rfl | rfl
    all_goals exact refuses_of_other begun (by decide) (by decide)
  apply yieldsAt_choice
  intro r member
  rw [List.mem_cons, List.mem_cons, List.mem_cons] at member
  rcases head_cases head with ⟨word, known, more, rfl, rfl⟩ | ⟨word, known, more, rfl, rfl⟩ | ⟨addition, known, rfl⟩
  · have plain : ∀ word ∈ ["TABLE", "TEMPORARY"], (Sign.word word).Other "UNIQUE" ∧ (Sign.word word).Other "INDEX" ∧
        word ∈ ["TABLE", "TEMPORARY", "UNIQUE", "INDEX"] := by decide
    obtain ⟨unique, index, among⟩ := plain word known
    rcases member with rfl | rfl | rfl | others
    · exact fun c s after _ found => ⟨shaped_createTable d c s after found, .inl (yields_createTable c s after found)⟩
    · exact (refuses_created begun (by decide) ⟨unique, index⟩).yieldsAt _
    · exact (refuses_createOther among begun).yieldsAt _
    · exact (created begun others).yieldsAt _
  · have plain : ∀ word ∈ ["INDEX", "UNIQUE"], (Sign.word word).Other "TEMPORARY" ∧ (Sign.word word).Other "TABLE" ∧
        word ∈ ["TABLE", "TEMPORARY", "UNIQUE", "INDEX"] := by decide
    obtain ⟨temporary, table, among⟩ := plain word known
    rcases member with rfl | rfl | rfl | others
    · exact (refuses_created begun (by decide) ⟨temporary, table⟩).yieldsAt _
    · exact fun c s after _ found =>
        ⟨(tableless_createIndex d c s after found).1, .inl (yields_createIndex c s after found)⟩
    · exact (refuses_createOther among begun).yieldsAt _
    · exact (created begun others).yieldsAt _
  · have opening : Begins d (.word "ALTER" :: .word "TABLE" :: .name :: .word "ADD" :: addition) cs rest := begun
    simp only [List.mem_cons, List.not_mem_nil, or_false] at member
    rcases member with rfl | rfl | rfl | rfl | rfl | rfl | rfl | rfl
    · exact (refuses_of_other opening (by decide) (by decide)).yieldsAt _
    · exact (refuses_of_other opening (by decide) (by decide)).yieldsAt _
    · exact (refuses_of_other opening (by decide) (by decide)).yieldsAt _
    · exact fun c s after place found =>
        ⟨(tableless_alterTable d c s after found).1, yieldsAt_alterTable known begun c s after place found⟩
    all_goals exact (refuses_of_other opening (by decide) (by decide)).yieldsAt _

end SqlSchema.Reader.Rule
