import SqlSchema.Proofs.Batch.Replay
import SqlSchema.Proofs.Schema.Document
import SqlSchema.Report

/-! Batches in JSON. What is put out in JSON is read back as the documents of the definitions, so different definitions are
never put out as one text. -/
namespace SqlSchema.Batch
open Attempt

/-- Every definition of a batch was read from a statement. -/
theorem Reads.exists_gives {d : Dialect} {statements : List String} {batch : Batch} (reads : Reads d statements batch) :
    ∀ definition ∈ batch.definitions, ∃ statement, (Definition.read d statement).Gives definition := by
  induction reads with
  | complete => nofun
  | stopped => nofun
  | defined statement _ _ _ first _ ih => exact List.forall_mem_cons.mpr ⟨⟨statement, first.1⟩, ih⟩

theorem finite_document {d : Dialect} {text : String} {batch : Batch} (returned : read d text = .ok batch) :
    batch.document.Finite := by
  obtain ⟨run, ran, rfl⟩ := (map_eq_ok _ _ _).mp returned
  refine Document.finite_map fun definition member => ?_
  obtain ⟨statement, given⟩ := (reads_of_stepsOf d _ run ran).exists_gives definition member
  exact Definition.finite_of_read d statement definition given

/-- The text of a batch is read back as the list of the documents of its definitions, and no other definitions have the
same text. -/
theorem write_json_lossless (d₁ d₂ : Dialect) (text₁ text₂ : String) (batch₁ batch₂ : Batch)
    (first : read d₁ text₁ = .ok batch₁) (second : read d₂ text₂ = .ok batch₂) :
    Document.Json.read? (batch₁.write .json) = some (.list (batch₁.definitions.map Definition.document)) ∧
      (batch₁.write .json = batch₂.write .json → batch₁.definitions = batch₂.definitions) := by
  have back := Document.read?_json (finite_document first)
  refine ⟨back, fun same => ?_⟩
  have other := Document.read?_json (finite_document second)
  have documents := back.symm.trans ((congrArg Document.Json.read? same).trans other)
  exact Definition.documents_injective (Option.some.inj documents)

/-- A negative zero, and a text with a quote, a tab and an emoji, read in both dialects with other white space around the
statement. -/
theorem write_json_lossless_spaced :
    ∃ batch₁ batch₂,
      read .mysql "CREATE TABLE t(a REAL DEFAULT -0.0,b CHAR DEFAULT '\"\t😀')" = .ok batch₁ ∧
      read .postgres "\n CREATE TABLE t(a REAL DEFAULT -0.0,b CHAR DEFAULT '\"\t😀');" = .ok batch₂ ∧
      Document.Json.read? (batch₁.write .json) = some (.list (batch₁.definitions.map Definition.document)) ∧
      batch₁.definitions.length = 1 ∧ batch₁.write .json = batch₂.write .json ∧
      batch₁.definitions = batch₂.definitions := by
  have untouched : Untouched "CREATE TABLE t(a REAL DEFAULT -0.0,b CHAR DEFAULT '\"\t😀')" := by decide +kernel
  have given (d : Dialect) : (Definition.read d "CREATE TABLE t(a REAL DEFAULT -0.0,b CHAR DEFAULT '\"\t😀')").Gives
      (.createTable "CREATE TABLE t(a REAL DEFAULT -0.0,b CHAR DEFAULT '\"\t😀')"
        { name := "t"
          columns := [
            { name := "a", typeName := "real", default := some (.float "-0.0" ⟨true, 0⟩) },
            { name := "b", typeName := "char", default := some (.string "\"    😀") }] }) := by
    rw [Definition.read_of_untouched untouched]
    cases d <;> decide +kernel
  have cut : pieces "CREATE TABLE t(a REAL DEFAULT -0.0,b CHAR DEFAULT '\"\t😀')" =
      ["CREATE TABLE t(a REAL DEFAULT -0.0,b CHAR DEFAULT '\"\t😀')"] := by decide +kernel
  have cut' : pieces "\n CREATE TABLE t(a REAL DEFAULT -0.0,b CHAR DEFAULT '\"\t😀');" =
      ["CREATE TABLE t(a REAL DEFAULT -0.0,b CHAR DEFAULT '\"\t😀')"] := by decide +kernel
  have first := read_of_gives cut (not_isComment_of_untouched .mysql untouched) (given .mysql)
  have second := read_of_gives cut' (not_isComment_of_untouched .postgres untouched) (given .postgres)
  obtain ⟨back, only⟩ := write_json_lossless .mysql .postgres _ _ _ _ first second
  exact ⟨_, _, first, second, back, rfl, rfl, only rfl⟩

end SqlSchema.Batch
