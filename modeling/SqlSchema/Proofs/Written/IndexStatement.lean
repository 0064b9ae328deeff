import SqlSchema.Proofs.Written.Table

/-! Statements about indexes as they are written: an index that is created on a table, and three ways to add one. -/
namespace SqlSchema.Written
open Text Reader

/-- A column with its direction. -/
structure Ordered where
  name : Name
  direction : Option Direction := none
deriving DecidableEq

def Ordered.chars (d : Dialect) (o : Ordered) : List Char := o.name.quoted d ++ Direction.chars o.direction

/-- What a statement does about an index. -/
inductive IndexAction where
  | create (unique : Bool) (name : Name)
  | add (unique : Bool) (word : KeyWord) (name : Option Name)
  /-- Adds a constraint that columns are unique. -/
  | constrain (name : Name)
  | addPrimary (constraint : Option Name)
deriving DecidableEq

namespace IndexAction

/-- What is added, in front of the columns. -/
def added (d : Dialect) : IndexAction → List Char
  | .create _ _ => []
  | .add unique word name => flag unique "UNIQUE" ++ (spaced [word.upper] ++ nameChars d name)
  | .constrain name => spaced ["CONSTRAINT"] ++ ' ' :: (name.quoted d ++ spaced ["UNIQUE"])
  | .addPrimary constraint => constraintChars d (constraint.map some) ++ spaced ["PRIMARY", "KEY"]

def chars (d : Dialect) (t : TableName) : IndexAction → List Char
  | .create unique name => "CREATE".toList ++ (flag unique "UNIQUE" ++ (spaced ["INDEX"] ++
      ' ' :: (name.quoted d ++ (spaced ["ON"] ++ ' ' :: t.chars d))))
  | action => "ALTER".toList ++ (spaced ["TABLE"] ++ ' ' :: (t.chars d ++ (spaced ["ADD"] ++ action.added d)))

theorem chars_create (d : Dialect) (t : TableName) (unique : Bool) (name : Name) :
    chars d t (.create unique name) = "CREATE".toList ++ (flag unique "UNIQUE" ++ (spaced ["INDEX"] ++
      ' ' :: (name.quoted d ++ (spaced ["ON"] ++ ' ' :: t.chars d)))) := (rfl)

theorem chars_altered (d : Dialect) (t : TableName) {action : IndexAction}
    (added : ∀ unique name, action ≠ .create unique name) : action.chars d t =
      "ALTER".toList ++ (spaced ["TABLE"] ++ ' ' :: (t.chars d ++ (spaced ["ADD"] ++ action.added d))) := by
  cases action with
  | create unique name => exact absurd rfl (added unique name)
  | _ => exact rfl

/-- The name of the index: a primary key has one in any case. -/
def name : IndexAction → String
  | .create _ name | .constrain name => name.text
  | .add _ _ name => (name.map (·.text)).getD ""
  | .addPrimary constraint => (constraint.map (·.text)).getD "PRIMARY"

def isUnique : IndexAction → Bool
  | .create unique _ | .add unique _ _ => unique
  | .constrain _ | .addPrimary _ => true

def tag : IndexAction → String
  | .create _ _ => Tree.Action.createIndex
  | .add _ _ _ | .constrain _ => Tree.Action.addIndex
  | .addPrimary _ => Tree.Action.addPrimaryKey

/-- The definition that the statement gives. -/
def definition (action : IndexAction) (text table : String) (index : SqlSchema.Index) : SqlSchema.Definition :=
  match action with
  | .create _ _ => .createIndex text table index
  | .add _ _ _ | .constrain _ => .addIndex text table index
  | .addPrimary _ => .addPrimaryKey text table index

end IndexAction

structure IndexStatement where
  action : IndexAction
  table : TableName
  columns : List Ordered
  filled : columns ≠ []
deriving DecidableEq

namespace IndexStatement

def columnChars (d : Dialect) (gap : Nat) (s : IndexStatement) : List Char :=
  ' ' :: '(' :: (joined gap (s.columns.map (Ordered.chars d)) ++ [')'])

/-- The text of the statement, with so many spaces behind each comma. -/
def chars (d : Dialect) (gap : Nat) (s : IndexStatement) : List Char :=
  s.action.chars d s.table ++ s.columnChars d gap

def names (s : IndexStatement) : List String := s.columns.map fun o => o.name.text

def tree (s : IndexStatement) : Tree.SchemaStatement :=
  { action := s.action.tag, table := some s.table.tree
    index := some { name := s.action.name, unique := s.action.isUnique }, indexColumns := s.names }

/-- The index that is defined. -/
def index (s : IndexStatement) : SqlSchema.Index :=
  { name := s.action.name, type := "", columns := s.names.map ({ column := · }), unique := s.action.isUnique }

def definition (s : IndexStatement) (text : String) : SqlSchema.Definition :=
  s.action.definition text s.table.name.text s.index

theorem gives_definition (s : IndexStatement) (text : String) :
    (SqlSchema.Definition.ofTree text s.tree).Gives (s.definition text) := by
  obtain ⟨action, table, columns, filled⟩ := s
  have given : ∀ tag, (SqlSchema.Index.ofSpec tag (some { name := action.name, unique := action.isUnique })
      (names ⟨action, table, columns, filled⟩)).Gives (index ⟨action, table, columns, filled⟩) :=
    fun tag => (Attempt.gives_pure _ _).mpr rfl
  cases action <;> exact (Attempt.gives_bind ..).mpr ⟨_, given _, (Attempt.gives_pure _ _).mpr rfl⟩

end IndexStatement
end SqlSchema.Written

namespace SqlSchema.Reader.Rule
open Text Written

variable {rest : List Char}

theorem takes_columnNames (d : Dialect) (gap : Nat) (s : IndexStatement) :
    (columnNames d).Takes (s.columnChars d gap) s.names [] := by
  have each : ∀ o ∈ s.columns, ∀ rest, Closed rest → (do
      let name ← identifier d
      let _ ← direction
      return name).Takes (o.chars d ++ rest) o.name.text rest := by
    intro o _ rest closed
    obtain ⟨found, direction⟩ := takes_direction o.direction closed
    have name := takes_identifier d o.name (Parted.ne_nameMark (onward_direction o.direction closed).parted d)
    rw [Ordered.chars, List.append_assoc]
    exact name.bind (direction.bind (takes_pure _ _))
  exact (takes_gap ' ' rfl).mpr (takes_parenthesized
    (takes_listOf gap (Ordered.chars d) (fun o => o.name.text) s.columns s.filled each))

theorem named_columns {d : Dialect} (gap : Nat) (s : IndexStatement) : Named d (s.columnChars d gap) :=
  ⟨'(', by simp, _, rfl⟩

/-- A method is neither in front of the columns nor behind them. -/
theorem takes_columns_end (d : Dialect) (gap : Nat) (s : IndexStatement) {α : Type} (make : List String → α) :
    (do
      let _ ← optional usingMethod
      let columns ← columnNames d
      let _ ← optional usingMethod
      endOfText
      return make columns : Rule α).Takes (s.columnChars d gap) (make s.names) [] := by
  have before : usingMethod.Refuses (s.columnChars d gap) := (named_columns gap s).unused (d := d)
  have behind : usingMethod.Refuses [] := (refuses_keyword_nil (by decide)).bind
  exact before.optional.bind ((takes_columnNames d gap s).bind (behind.optional.bind (takes_endOfText.bind
    (takes_pure _ _))))

theorem takes_createIndex (d : Dialect) (gap : Nat) (unique : Bool) (name : Name) (t : Written.TableName)
    (columns : List Ordered) (filled : columns ≠ []) :
    (createIndex d).Takes (IndexStatement.chars d gap ⟨.create unique name, t, columns, filled⟩)
      (IndexStatement.tree ⟨.create unique name, t, columns, filled⟩) [] := by
  generalize written : (⟨.create unique name, t, columns, filled⟩ : IndexStatement) = s
  have split : s.chars d gap = "CREATE".toList ++ (flag unique "UNIQUE" ++ (spaced ["INDEX"] ++
      ' ' :: (name.quoted d ++ (spaced ["ON"] ++ ' ' :: (t.chars d ++ s.columnChars d gap))))) := by
    subst written
    simp [IndexStatement.chars, IndexAction.chars_create]
  have named : Named d (' ' :: (name.quoted d ++ (spaced ["ON"] ++ ' ' :: (t.chars d ++ s.columnChars d gap)))) :=
    ⟨nameMark d, by simp, _, rfl⟩
  have onward : Onward ["INDEX"] (spaced ["INDEX"] ++ ' ' :: (name.quoted d ++ (spaced ["ON"] ++
      ' ' :: (t.chars d ++ s.columnChars d gap)))) := by
    rw [spaced_cons]
    exact .word (by simp) _
  have create : (keyword "CREATE").Takes (s.chars d gap) () (flag unique "UNIQUE" ++ (spaced ["INDEX"] ++
      ' ' :: (name.quoted d ++ (spaced ["ON"] ++ ' ' :: (t.chars d ++ s.columnChars d gap))))) := by
    rw [split]
    exact takes_keyword (by decide) (onward_flag "UNIQUE" unique onward).parted.not_touching
  obtain ⟨found, isUnique, flagged⟩ := takes_flag unique (by decide) onward.parted
    (onward.refuses_keyword "UNIQUE" (by decide) (by decide) (by decide))
  have index : (keyword "INDEX").Takes _ () _ :=
    takes_keywords (List.cons_ne_nil "INDEX" []) (by decide) named.parted.not_touching
  have plain := named.refuses_keyword "CONCURRENTLY" (by decide)
  have always : (keywords ["IF", "NOT", "EXISTS"]).Refuses _ :=
    refuses_keywords _ (named.refuses_keyword "IF" (by decide))
  have own : (indexName d).Takes _ name.text _ :=
    ((named.refuses_keyword "USING" (by decide)).without _).bind
      ((takes_gap ' ' rfl).mpr (takes_identifier d name (Parted.ne_nameMark (parted_cons ' ' _ (by decide)) d)))
  have on : (keyword "ON").Takes (spaced ["ON"] ++ ' ' :: (t.chars d ++ s.columnChars d gap)) () _ :=
    takes_keywords (List.cons_ne_nil "ON" []) (by decide) (touches_of_gap ' ' rfl)
  have table : (Rule.table d).Takes (' ' :: (t.chars d ++ s.columnChars d gap)) t.tree (s.columnChars d gap) :=
    takes_spacedTable d t '(' (by decide) (by decide) _
  have before : usingMethod.Refuses (s.columnChars d gap) := (named_columns gap s).unused (d := d)
  have tree : s.tree = { action := Tree.Action.createIndex, table := some t.tree
                         index := some { name := name.text, unique := found.isSome }, indexColumns := s.names } := by
    subst written
    rw [isUnique]
    rfl
  rw [tree]
  exact create.bind (flagged.bind (index.bind (plain.optional.bind (always.optional.bind (own.bind (on.bind
    (table.bind (before.optional.bind ((takes_columnNames d gap s).bind (takes_pure _ _))))))))))

/-! Alterations. -/

theorem takes_add {cs : List Char} (parted : Parted cs) : (keyword "ADD").Takes (spaced ["ADD"] ++ cs) () cs :=
  takes_keywords (List.cons_ne_nil "ADD" []) (by decide) parted.not_touching

theorem takes_constraintWord (d : Dialect) (n : Name) (rest : List Char) :
    (keyword "CONSTRAINT").Takes (spaced ["CONSTRAINT"] ++ ' ' :: (n.quoted d ++ rest)) ()
      (' ' :: (n.quoted d ++ rest)) :=
  takes_keywords (List.cons_ne_nil "CONSTRAINT" []) (by decide) (touches_of_gap ' ' rfl)

theorem takes_spacedName (d : Dialect) (n : Name) (parted : Parted rest) :
    (identifier d).Takes (' ' :: (n.quoted d ++ rest)) n.text rest :=
  (takes_gap ' ' rfl).mpr (takes_identifier d n (Parted.ne_nameMark parted d))

/-- A constraint with a name, where a primary key may come instead of the name. -/
theorem takes_namedConstraint (d : Dialect) (n : Name) (parted : Parted rest) :
    (do
      keyword "CONSTRAINT"
      without primaryKeyShape primaryKey
      identifier d : Rule String).Takes (spaced ["CONSTRAINT"] ++ ' ' :: (n.quoted d ++ rest)) n.text rest := by
  have named : Named d (' ' :: (n.quoted d ++ rest)) := ⟨nameMark d, by simp, _, rfl⟩
  have keyless : primaryKey.Refuses (' ' :: (n.quoted d ++ rest)) :=
    refuses_keywords _ (named.refuses_keyword "PRIMARY" (by decide))
  exact (takes_constraintWord d n rest).bind ((keyless.without _).bind (takes_spacedName d n parted))

section Alteration
variable (d : Dialect) (gap : Nat) (s : IndexStatement)

theorem takes_addPrimaryKey (constraint : Option Name) :
    (addPrimaryKey d).Takes (spaced ["ADD"] ++ ((IndexAction.addPrimary constraint).added d ++ s.columnChars d gap))
      (Tree.Action.addPrimaryKey,
        some ({ name := (IndexAction.addPrimary constraint).name, unique := true }, s.names)) [] := by
  have parted : Parted (s.columnChars d gap) := (named_columns gap s).parted (d := d)
  have key : primaryKey.Takes (spaced ["PRIMARY", "KEY"] ++ s.columnChars d gap) () (s.columnChars d gap) :=
    takes_keywords (List.cons_ne_nil "PRIMARY" ["KEY"]) (by decide) parted.not_touching
  have before : Parted (spaced ["PRIMARY", "KEY"] ++ s.columnChars d gap) := parted_cons ' ' _ (by decide)
  have columns := takes_columns_end d gap s fun names => (Tree.Action.addPrimaryKey,
    some (({ name := (IndexAction.addPrimary constraint).name, unique := true } : Tree.IndexSpec), names))
  cases constraint with
  | none =>
    have unconstrained : (keyword "CONSTRAINT").Refuses (spaced ["PRIMARY", "KEY"] ++ s.columnChars d gap) := by
      rw [spaced_cons]
      exact refuses_keyword_of_word (by decide) (by decide)
    exact (takes_add before).bind (unconstrained.bind.optional.bind (key.bind columns))
  | some n =>
    have split : (IndexAction.addPrimary (some n)).added d ++ s.columnChars d gap =
        spaced ["CONSTRAINT"] ++ ' ' :: (n.quoted d ++ (spaced ["PRIMARY", "KEY"] ++ s.columnChars d gap)) := by
      simp [IndexAction.added, constraintChars, nameChars]
    have given : givenName? (some n.text) = some n.text := givenName?_text (some n)
    have name : (IndexAction.addPrimary (some n)).name = (givenName? (some n.text)).getD "PRIMARY" := by
      rw [given]
      rfl
    have opened : Parted (spaced ["CONSTRAINT"] ++
        ' ' :: (n.quoted d ++ (spaced ["PRIMARY", "KEY"] ++ s.columnChars d gap))) := parted_cons ' ' _ (by decide)
    rw [name] at columns ⊢
    rw [split]
    exact (takes_add opened).bind ((takes_namedConstraint d n before).optional.bind (key.bind columns))

theorem takes_addUniqueConstraint (n : Name) :
    (addPrimaryKey d).Refuses (spaced ["ADD"] ++ ((IndexAction.constrain n).added d ++ s.columnChars d gap)) ∧
      (addUniqueConstraint d).Takes (spaced ["ADD"] ++ ((IndexAction.constrain n).added d ++ s.columnChars d gap))
        (Tree.Action.addIndex, some ({ name := n.text, unique := true }, s.names)) [] := by
  have named : Named d (s.columnChars d gap) := named_columns gap s
  have split : (IndexAction.constrain n).added d ++ s.columnChars d gap =
      spaced ["CONSTRAINT"] ++ ' ' :: (n.quoted d ++ (spaced ["UNIQUE"] ++ s.columnChars d gap)) := by
    simp [IndexAction.added]
  have opened : Parted (spaced ["CONSTRAINT"] ++
      ' ' :: (n.quoted d ++ (spaced ["UNIQUE"] ++ s.columnChars d gap))) := parted_cons ' ' _ (by decide)
  have behind : Parted (spaced ["UNIQUE"] ++ s.columnChars d gap) := parted_cons ' ' _ (by decide)
  rw [split]
  constructor
  · have other : primaryKey.Refuses (spaced ["UNIQUE"] ++ s.columnChars d gap) := by
      rw [spaced_cons]
      exact refuses_keywords _ (refuses_keyword_of_word (by decide) (by decide))
    exact (takes_add opened).refuses ((takes_namedConstraint d n behind).optional.refuses other.bind)
  · have word : (keyword "UNIQUE").Takes (spaced ["UNIQUE"] ++ s.columnChars d gap) () (s.columnChars d gap) :=
      takes_keywords (List.cons_ne_nil "UNIQUE" []) (by decide) named.parted.not_touching
    have wordless : (optional keyWord).Takes (s.columnChars d gap) none (s.columnChars d gap) :=
      takes_optionalKeyWord none named
    have columns := takes_columns_end d gap s fun names =>
      (Tree.Action.addIndex, some (({ name := n.text, unique := true } : Tree.IndexSpec), names))
    exact (takes_add opened).bind ((takes_constraintWord d n _).bind ((takes_spacedName d n behind).bind (word.bind
      (wordless.bind columns))))

theorem takes_addIndex (unique : Bool) (word : KeyWord) (name : Option Name) :
    (addPrimaryKey d).Refuses (spaced ["ADD"] ++ ((IndexAction.add unique word name).added d ++ s.columnChars d gap)) ∧
      (addUniqueConstraint d).Refuses
        (spaced ["ADD"] ++ ((IndexAction.add unique word name).added d ++ s.columnChars d gap)) ∧
      (addIndex d).Takes (spaced ["ADD"] ++ ((IndexAction.add unique word name).added d ++ s.columnChars d gap))
        (Tree.Action.addIndex, some ({ name := (name.map (·.text)).getD "", unique }, s.names)) [] := by
  have named : Named d (nameChars d name ++ s.columnChars d gap) := (named_columns gap s).name name
  have split : (IndexAction.add unique word name).added d ++ s.columnChars d gap =
      flag unique "UNIQUE" ++ (spaced [word.upper] ++ (nameChars d name ++ s.columnChars d gap)) := by
    simp [IndexAction.added]
  have worded : Onward ["KEY", "INDEX"] (spaced [word.upper] ++ (nameChars d name ++ s.columnChars d gap)) := by
    rw [spaced_cons]
    cases word
    · exact .word (List.mem_cons_self ..) _
    · exact .word (List.mem_cons_of_mem _ (List.mem_cons_self ..)) _
  have onward := onward_flag "UNIQUE" unique worded
  have unconstrained := onward.refuses_keyword "CONSTRAINT" (by decide) (by decide) (by decide)
  have unprimary := onward.refuses_keyword "PRIMARY" (by decide) (by decide) (by decide)
  rw [split]
  refine ⟨?_, ?_, ?_⟩
  · exact (takes_add onward.parted).refuses (unconstrained.bind.optional.refuses (refuses_keywords _ unprimary).bind)
  · exact (takes_add onward.parted).refuses unconstrained.bind
  · have kind : (choice (.named "index") [
        do
          keyword "UNIQUE"
          let _ ← optional keyWord
          return true,
        do
          let _ ← keyWord
          return false]).Takes (flag unique "UNIQUE" ++ (spaced [word.upper] ++ (nameChars d name ++ s.columnChars d gap)))
          unique (nameChars d name ++ s.columnChars d gap) := by
      have plain := takes_keyWord (.choice [.keyword "KEY", .keyword "INDEX"]) word named.parted
      cases unique with
      | true =>
        have first : (keyword "UNIQUE").Takes _ () _ :=
          takes_keywords (List.cons_ne_nil "UNIQUE" []) (by decide) worded.parted.not_touching
        exact Takes.choice _ (first.bind (Takes.bind (Takes.optional plain) (takes_pure _ _)))
      | false =>
        have other := worded.refuses_keyword "UNIQUE" (by decide) (by decide) (by decide)
        exact Refuses.choice other.bind (Takes.choice _ (Takes.bind plain (takes_pure _ _)))
    have own : (optional (indexName d)).Takes (nameChars d name ++ s.columnChars d gap) (name.map (·.text))
        (s.columnChars d gap) := takes_optionalName d name _
    have columns := takes_columns_end d gap s fun names =>
      (Tree.Action.addIndex, some (({ name := (name.map (·.text)).getD "", unique } : Tree.IndexSpec), names))
    exact (takes_add onward.parted).bind (kind.bind (own.bind columns))

theorem takes_alteration (action : IndexAction) (added : ∀ unique name, action ≠ .create unique name) :
    (alteration d).Takes (spaced ["ADD"] ++ (action.added d ++ s.columnChars d gap))
      (action.tag, some ({ name := action.name, unique := action.isUnique }, s.names)) [] := by
  cases action with
  | create unique name => exact absurd rfl (added unique name)
  | add unique word name =>
    obtain ⟨unprimary, unconstrained, taken⟩ := takes_addIndex d gap s unique word name
    exact unprimary.choice (unconstrained.choice (Takes.choice _ taken))
  | constrain n =>
    obtain ⟨unprimary, taken⟩ := takes_addUniqueConstraint d gap s n
    exact unprimary.choice (Takes.choice _ taken)
  | addPrimary constraint => exact Takes.choice _ (takes_addPrimaryKey d gap s constraint)

end Alteration

theorem takes_alterTable (d : Dialect) (gap : Nat) (s : IndexStatement)
    (added : ∀ unique name, s.action ≠ .create unique name) : (alterTable d).Takes (s.chars d gap) s.tree [] := by
  have split : s.chars d gap = "ALTER".toList ++ (spaced ["TABLE"] ++ ' ' :: (s.table.chars d ++
      (spaced ["ADD"] ++ (s.action.added d ++ s.columnChars d gap)))) := by
    rw [IndexStatement.chars, IndexAction.chars_altered d s.table added]
    simp
  have named := named_table d s.table (spaced ["ADD"] ++ (s.action.added d ++ s.columnChars d gap))
  have alter : (keyword "ALTER").Takes (s.chars d gap) () (spaced ["TABLE"] ++ ' ' :: (s.table.chars d ++
      (spaced ["ADD"] ++ (s.action.added d ++ s.columnChars d gap)))) := by
    rw [split]
    exact takes_keyword (by decide) (touches_of_gap ' ' rfl)
  have word : (keyword "TABLE").Takes _ () _ :=
    takes_keywords (List.cons_ne_nil "TABLE" []) (by decide) named.parted.not_touching
  have whole := named.refuses_keyword "ONLY" (by decide)
  have table := takes_spacedTable d s.table 'A' (by decide) (by decide)
    ('D' :: 'D' :: (s.action.added d ++ s.columnChars d gap))
  exact alter.bind (word.bind (whole.optional.bind (table.bind ((takes_alteration d gap s s.action added).bind
    (takes_pure _ _)))))

theorem takes_indexStatement (d : Dialect) (gap : Nat) (s : IndexStatement) :
    (statement d).Takes (s.chars d gap) s.tree [] := by
  unfold statement
  by_cases created : ∃ unique name, s.action = .create unique name
  · obtain ⟨action, t, columns, filled⟩ := s
    obtain ⟨unique, name, same⟩ := created
    dsimp only at same
    subst same
    refine Refuses.choice ?_ (Takes.choice _ (takes_createIndex d gap unique name t columns filled))
    have split : IndexStatement.chars d gap ⟨.create unique name, t, columns, filled⟩ = "CREATE".toList ++
        (flag unique "UNIQUE" ++ (spaced ["INDEX"] ++ (' ' :: (name.quoted d ++ (spaced ["ON"] ++ ' ' :: t.chars d)) ++
          IndexStatement.columnChars d gap ⟨.create unique name, t, columns, filled⟩))) := by
      simp [IndexStatement.chars, IndexAction.chars_create]
    have onward :
        Onward ["INDEX"] (spaced ["INDEX"] ++ (' ' :: (name.quoted d ++ (spaced ["ON"] ++ ' ' :: t.chars d)) ++
        IndexStatement.columnChars d gap ⟨.create unique name, t, columns, filled⟩)) := by
      rw [spaced_cons]
      exact .word (by simp) _
    have flagged := onward_flag "UNIQUE" unique onward
    have permanent := flagged.refuses_keyword "TEMPORARY" (by decide) (by decide) (by decide)
    have tableless := flagged.refuses_keyword "TABLE" (by decide) (by decide) (by decide)
    have create : (keyword "CREATE").Takes _ () _ := takes_keyword (by decide) flagged.parted.not_touching
    rw [split]
    exact create.refuses (permanent.optional.refuses tableless.bind)
  · have added : ∀ unique name, s.action ≠ .create unique name := fun unique name same => created ⟨unique, name, same⟩
    have uncreated : (keyword "CREATE").Refuses (s.chars d gap) := by
      have begins : ∃ more, s.chars d gap = "ALTER".toList ++ more := by
        unfold IndexStatement.chars
        cases found : s.action with
        | create unique name => exact absurd found (added unique name)
        | _ => exact ⟨_, List.append_assoc ..⟩
      obtain ⟨more, split⟩ := begins
      rw [split]
      exact refuses_keyword (by decide) (by decide)
    exact Refuses.choice uncreated.bind (Refuses.choice uncreated.bind (Refuses.choice uncreated.bind
      (Takes.choice _ (takes_alterTable d gap s added))))

end SqlSchema.Reader.Rule
