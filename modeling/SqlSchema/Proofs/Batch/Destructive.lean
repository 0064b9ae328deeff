import SqlSchema.Proofs.Batch.Replay
import SqlSchema.Proofs.Definition.Destructive

/-! Destructive statements in a batch. A batch that is read to an end stops at the first of them or before it. -/
namespace SqlSchema.Batch
open Attempt Definition

theorem not_isComment_of_destroys (d : Dialect) (piece : String) (destroys : Destroys d piece) :
    isComment d piece = false := by
  obtain ⟨plain, stripped, word⟩ := destroys
  cases comment : isComment d piece with
  | false => rfl
  | true =>
    cases stripped.symm.trans ((isComment_iff d piece).mp comment)
    exact absurd word (by decide)

/-- Where a statement that cannot be read stands among others, a run ends there or earlier. -/
theorem Reads.stops (d : Dialect) (front rest : List String) (piece : String) (batch : Batch)
    (reads : Reads d (front ++ piece :: rest) batch)
    (unread : ∀ definition, ¬ (Definition.read d piece).Gives definition) :
    batch.stoppedBy.isSome = true ∧ batch.definitions.map (·.statement) <+: front := by
  obtain ⟨begun, left, whole, defined, ending⟩ := reads.split
  rw [map_statement d begun _ defined]
  have stopped (some : left ≠ []) : batch.stoppedBy.isSome = true := by
    rcases ending with ⟨none, _⟩ | ⟨_, _, e, _, _, found⟩
    · exact absurd none some
    · rw [found, Option.isSome_some]
  rcases List.append_eq_append_iff.mp whole with ⟨between, rfl, split⟩ | ⟨between, rfl, split⟩
  · cases between with
    | nil =>
      rw [List.nil_append] at split
      exact ⟨stopped (split ▸ List.cons_ne_nil _ _), by simp⟩
    | cons first more =>
      -- The statement would be among those that were read.
      obtain ⟨rfl, _⟩ := List.cons.inj split
      have later := List.forall₂_drop front.length defined
      rw [List.drop_left] at later
      obtain ⟨definition, _, read, _⟩ := List.forall₂_cons_left_iff.mp later
      exact absurd read.1 (unread definition)
  · exact ⟨stopped (by simp [split]), List.prefix_append _ _⟩

/-- A batch with a destructive piece ends with an error, and the statements of its definitions stand in front of that
piece, in the order of the text; no statement of a definition is destructive. -/
theorem read_destructive (d : Dialect) :
    (∀ text batch front piece rest, read d text = .ok batch → pieces text = front ++ piece :: rest →
      Destroys d piece → batch.stoppedBy.isSome = true ∧ (batch.definitions.map (·.statement)).Sublist front) ∧
      ∀ text definition, (Definition.read d text).Gives definition → ¬ Destroys d definition.statement := by
  refine ⟨fun text batch front piece rest returned split destroys => ?_, fun text definition given destroys => ?_⟩
  · obtain ⟨run, ran, rfl⟩ := (map_eq_ok _ _ _).mp returned
    have reads := reads_of_stepsOf d _ run ran
    have filled := not_isComment_of_destroys d piece destroys
    rw [split, List.filter_append, List.filter_cons_of_pos (by simp [filled])] at reads
    obtain ⟨stopped, begun⟩ := reads.stops d _ _ _ _ (not_gives_of_destroys d piece destroys)
    exact ⟨stopped, begun.sublist.trans List.filter_sublist⟩
  · rw [statement_of_read d text definition given] at destroys
    exact not_gives_of_destroys d text destroys definition given

/-- A table, and a small `drop` behind it. -/
theorem read_destructive_drop :
    ∃ batch front rest, read .mysql "CREATE TABLE a (b int);drop a" = .ok batch ∧
      pieces "CREATE TABLE a (b int);drop a" = front ++ "drop a" :: rest ∧ Destroys .mysql "drop a" ∧
      batch.stoppedBy.isSome = true ∧ (batch.definitions.map (·.statement)).Sublist front ∧
      ∃ definition, (Definition.read .mysql "CREATE TABLE a (b int)").Gives definition ∧
        ¬ Destroys .mysql definition.statement := by
  have destroys : Destroys .mysql "drop a" := ⟨"drop a".toList, by decide +kernel, by decide +kernel⟩
  have split : pieces "CREATE TABLE a (b int);drop a" = ["CREATE TABLE a (b int)"] ++ "drop a" :: [] := by
    decide +kernel
  have created : Untouched "CREATE TABLE a (b int)" := by decide +kernel
  have dropped : Untouched "drop a" := by decide +kernel
  have given : (Definition.read .mysql "CREATE TABLE a (b int)").Gives
      (.createTable "CREATE TABLE a (b int)" { name := "a", columns := [{ name := "b", typeName := "int" }] }) := by
    rw [read_of_untouched created]
    decide +kernel
  have parsed : (Tree.read .mysql "drop a").Gives (.schema { action := "drop a" }) := by
    rw [Tree.read_of_untouched dropped]
    decide +kernel
  have refused := refused_of_action parsed (by decide) (by decide)
  have found : Batch.read .mysql "CREATE TABLE a (b int);drop a" = .ok
      { definitions := [.createTable "CREATE TABLE a (b int)"
          { name := "a", columns := [{ name := "b", typeName := "int" }] }]
        stoppedBy := some ⟨.unsupportedAction "drop a", "drop a"⟩ } := by
    rw [Batch.read, steps, split, List.singleton_append,
      stepsOf_of_gives _ _ _ _ (not_isComment_of_untouched _ created) given,
      stepsOf_of_rejects _ _ _ _ (not_isComment_of_destroys _ _ destroys) refused]
    rfl
  obtain ⟨stopped, kept⟩ := (read_destructive .mysql).1 _ _ _ _ _ found split destroys
  exact ⟨_, _, _, found, split, destroys, stopped, kept, _, given, (read_destructive .mysql).2 _ _ given⟩

end SqlSchema.Batch
