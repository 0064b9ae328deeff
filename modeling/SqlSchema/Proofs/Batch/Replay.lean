import Mathlib.Data.List.Forall2
import SqlSchema.Proofs.Batch.Step

/-! What a batch holds: the statements of the text up to the first rejected one, each as it is read alone. The texts
of its definitions make a batch of their own, which is complete and holds the same. -/
namespace SqlSchema.Batch
open Attempt

/-- The pieces of a text that hold more than comments. -/
def statements (d : Dialect) (text : String) : List String := (pieces text).filter (!isComment d ·)

/-- The definition is what the statement is read as, and carries the statement's text. -/
def Defines (d : Dialect) (statement : String) (definition : Definition) : Prop :=
  (Definition.read d statement).Gives definition ∧ definition.statement = statement

/-- The error is the one that reading the statement ends with, and carries the statement's text. -/
def Refuses (d : Dialect) (statement : String) (e : StatementError) : Prop :=
  (Definition.read d statement).Rejects e ∧ e.statement = statement

/-- Statements read one after the other up to the first error. -/
inductive Reads (d : Dialect) : List String → Batch → Prop
  | complete : Reads d [] { definitions := [], stoppedBy := none }
  | stopped (statement : String) (rest : List String) (e : StatementError) (refused : Refuses d statement e) :
    Reads d (statement :: rest) { definitions := [], stoppedBy := some e }
  | defined (statement : String) (rest : List String) (definition : Definition) (batch : Batch)
    (first : Defines d statement definition) (more : Reads d rest batch) :
    Reads d (statement :: rest) { definitions := definition :: batch.definitions, stoppedBy := batch.stoppedBy }

theorem reads_of_stepsOf (d : Dialect) (pieces : List String) (run : List Step) (ran : stepsOf d pieces = .ok run) :
    Reads d (pieces.filter (!isComment d ·)) (ofSteps run) := by
  induction pieces generalizing run with
  | nil =>
    cases ran
    exact .complete
  | cons piece rest ih =>
    cases comment : isComment d piece with
    | true =>
      rw [stepsOf_of_comment d piece rest comment] at ran
      obtain ⟨more, found, rfl⟩ := (map_eq_ok _ _ _).mp ran
      rw [List.filter_cons_of_neg (by simp [comment])]
      exact ih more found
    | false =>
      rw [List.filter_cons_of_pos (by simp [comment])]
      obtain ⟨definition, given⟩ | ⟨e | i, broken⟩ := gives_or_breaks (Definition.read d piece)
      · rw [stepsOf_of_gives d piece rest definition comment given] at ran
        obtain ⟨more, found, rfl⟩ := (map_eq_ok _ _ _).mp ran
        exact .defined _ _ _ _ ⟨given, Definition.statement_of_read d piece definition given⟩ (ih more found)
      · rw [stepsOf_of_rejects d piece rest e comment broken] at ran
        cases ran
        exact .stopped _ _ _ ⟨broken, Definition.statement_of_rejected d piece e broken⟩
      · rw [stepsOf_of_stops d piece rest i comment broken] at ran
        cases ran

/-- The statements that a run read are a beginning of all; it ends with them or with the next one refused. -/
theorem Reads.split (d : Dialect) (statements : List String) (batch : Batch) (reads : Reads d statements batch) :
    ∃ read left, statements = read ++ left ∧ List.Forall₂ (Defines d) read batch.definitions ∧
      (left = [] ∧ batch.stoppedBy = none ∨
        ∃ statement more e, left = statement :: more ∧ Refuses d statement e ∧ batch.stoppedBy = some e) := by
  induction reads with
  | complete => exact ⟨[], [], rfl, .nil, .inl ⟨rfl, rfl⟩⟩
  | stopped statement rest e refused =>
    exact ⟨[], statement :: rest, rfl, .nil, .inr ⟨statement, rest, e, rfl, refused, rfl⟩⟩
  | defined statement rest definition batch first more ih =>
    obtain ⟨read, left, rfl, all, ending⟩ := ih
    exact ⟨statement :: read, left, rfl, .cons first all, ending⟩

theorem map_statement (d : Dialect) (statements : List String) (definitions : List Definition)
    (defined : List.Forall₂ (Defines d) statements definitions) : definitions.map (·.statement) = statements := by
  induction defined with
  | nil => rfl
  | cons first _ ih => rw [List.map_cons, ih, first.2]

theorem stepsOf_of_defines (d : Dialect) (statements : List String) (definitions : List Definition)
    (filled : ∀ s ∈ statements, isComment d s = false) (defined : List.Forall₂ (Defines d) statements definitions) :
    stepsOf d statements = .ok (definitions.map .defined) := by
  induction defined with
  | nil => rfl
  | cons first _ ih =>
    rw [stepsOf_of_gives d _ _ _ (filled _ (by simp)) first.1, ih fun s member => filled s (by simp [member])]
    rfl

theorem ofSteps_defined (definitions : List Definition) :
    ofSteps (definitions.map .defined) = { definitions, stoppedBy := none } := by
  simp [ofSteps, Step.definition?, Step.rejection?, Function.comp_def]

theorem mem_statements (d : Dialect) (text s : String) (member : s ∈ statements d text) :
    IsPiece s ∧ isComment d s = false := by
  obtain ⟨piece, filled⟩ := List.mem_filter.mp member
  exact ⟨isPiece_of_mem_pieces text s piece, by simpa using filled⟩

/-- Definitions whose statements come from one text are read back from their own texts. -/
theorem read_intercalate (d : Dialect) (text : String) (read : List String) (definitions : List Definition)
    (origin : read ⊆ statements d text) (defined : List.Forall₂ (Defines d) read definitions) :
    Batch.read d (";".intercalate read) = .ok { definitions, stoppedBy := none } := by
  have sound : ∀ s ∈ read, IsPiece s ∧ isComment d s = false := fun s member =>
    mem_statements d text s (origin member)
  rw [Batch.read, steps, pieces_intercalate read fun s member => (sound s member).1,
    stepsOf_of_defines d read definitions (fun s member => (sound s member).2) defined]
  exact congrArg Except.ok (ofSteps_defined definitions)

/-- A batch holds, in order and one by one, what the first `k` statements of its text define; it is complete if these
are all, and otherwise stopped by what is wrong with the next one. Their texts, joined by semicolons, are read as the
same definitions without an error. -/
theorem read_prefix_replay (d : Dialect) (text : String) (batch : Batch) (returned : read d text = .ok batch) :
    (∃ k ≤ (statements d text).length,
      List.Forall₂ (Defines d) ((statements d text).take k) batch.definitions ∧
        (k = (statements d text).length ∧ batch.stoppedBy = none ∨
          ∃ statement e, (statements d text)[k]? = some statement ∧ Refuses d statement e ∧
            batch.stoppedBy = some e)) ∧
      read d (";".intercalate (batch.definitions.map (·.statement))) =
        .ok { definitions := batch.definitions, stoppedBy := none } := by
  obtain ⟨run, ran, rfl⟩ := (map_eq_ok _ _ _).mp returned
  obtain ⟨begun, left, whole, defined, ending⟩ := (reads_of_stepsOf d _ run ran).split
  change statements d text = begun ++ left at whole
  have origin : begun ⊆ statements d text := whole ▸ List.subset_append_left begun left
  refine ⟨⟨begun.length, by simp [whole], by rwa [whole, List.take_left], ?_⟩, ?_⟩
  · rcases ending with ⟨rfl, complete⟩ | ⟨statement, more, e, rfl, refused, stopped⟩
    · exact .inl ⟨by simp [whole], complete⟩
    · exact .inr ⟨statement, e, by simp [whole], refused, stopped⟩
  · rw [map_statement d begun _ defined]
    exact read_intercalate d text begun _ origin defined

/-- A table that is created and dropped: the first statement is kept, and reading it back gives it again. -/
theorem read_prefix_replay_dropped :
    ∃ batch, read .mysql "CREATE TABLE a (id int); -- gone\n; DROP TABLE a; x" = .ok batch ∧
      batch.definitions.map (·.statement) = ["CREATE TABLE a (id int)"] ∧
      batch.stoppedBy.map (·.statement) = some "DROP TABLE a" ∧
      read .mysql "CREATE TABLE a (id int)" = .ok { definitions := batch.definitions, stoppedBy := none } := by
  have cut : pieces "CREATE TABLE a (id int); -- gone\n; DROP TABLE a; x" =
      ["CREATE TABLE a (id int)", "-- gone", "DROP TABLE a", "x"] := by decide +kernel
  have created := not_isComment_of_untouched .mysql Definition.untouched_created
  have dropped := not_isComment_of_untouched .mysql Definition.untouched_dropped
  have comment : isComment .mysql "-- gone" = true := by decide +kernel
  have found : read .mysql "CREATE TABLE a (id int); -- gone\n; DROP TABLE a; x" = .ok
      { definitions := [.createTable "CREATE TABLE a (id int)" Definition.smallTable]
        stoppedBy := some ⟨.unsupportedAction Tree.Action.drop, "DROP TABLE a"⟩ } := by
    rw [read, steps, cut, stepsOf_of_gives _ _ _ _ created Definition.gives_created, stepsOf_of_comment _ _ _ comment,
      stepsOf_of_rejects _ _ _ _ dropped Definition.refused_dropped]
    rfl
  exact ⟨_, found, rfl, rfl, (read_prefix_replay .mysql _ _ found).2⟩

end SqlSchema.Batch
