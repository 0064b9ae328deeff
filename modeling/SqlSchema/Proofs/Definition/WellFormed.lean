import SqlSchema.Proofs.Definition.Interruption
import SqlSchema.Proofs.Definition.Untouched
import SqlSchema.Proofs.Reader.WellFormed

/-! Every definition that is read is well formed, in either dialect. -/
namespace SqlSchema
open Attempt

theorem Tree.wellFormed_of_read (d : Dialect) (text : String) (s : SchemaStatement)
    (given : (Tree.read d text).Gives (.schema s)) : s.WellFormed := by
  obtain ⟨plain, _, _, found⟩ := (gives_schema_iff d text s).mp given
  obtain ⟨after, reads, _⟩ := (Reader.Rule.readAll_eq_ok ..).mp found
  exact Reader.Rule.wellFormed_statement d _ s after reads

namespace Definition

/-- Indexes with statements of their own have columns, and a primary key among them has a name. -/
theorem wellFormed_of_ofAction? (text table : String) (s : Tree.SchemaStatement)
    (define : String → String → Index → Definition) (index : Index) (formed : s.WellFormed)
    (filled : s.indexColumns ≠ []) (found : ofAction? s.action = some define)
    (decoded : (Index.ofSpec s.action s.index s.indexColumns).Gives index) : (define text table index).WellFormed := by
  cases given : s.index with
  | none => simp [given, Index.ofSpec] at decoded
  | some spec =>
    rw [given] at decoded
    obtain ⟨separate, name, unique⟩ := Index.separate_of_ofSpec s.action spec s.indexColumns index filled decoded
    unfold ofAction? at found
    split_ifs at found with first second third
    · cases found
      exact separate
    · cases found
      exact separate
    · cases found
      rw [WellFormed, name, unique]
      exact ⟨separate, formed.primary third spec given⟩

/-- Whatever is read is well formed: types have proper names, sizes and values lie in their ranges, flags of indexes
agree with their types, and nothing that needs columns is without them. -/
theorem wellFormed_read (d : Dialect) (text : String) (definition : Definition)
    (given : (read d text).Gives definition) : definition.WellFormed := by
  obtain ⟨s, parsed, given⟩ := (gives_read_iff ..).mp given
  have formed := Tree.wellFormed_of_read d text s parsed
  cases decoded_of_ofTree text s definition given with
  | @table name body table filled decoded =>
    exact Table.wellFormed_of_ofTree name body table (formed.body body filled) decoded
  | @index define table index found decoded =>
    have indexed : s.action ∈ Tree.indexActions := (isSome_ofAction_iff s.action).mp (by rw [found]; rfl)
    by_cases shaped : s.Shaped
    · exact wellFormed_of_ofAction? text table s define index formed (shaped.indexed indexed).2.2 found decoded
    · -- A tree that misses parts has no index either.
      obtain ⟨_, rfl⟩ := (Tree.misshapen_iff d text s).mp ⟨parsed, shaped⟩
      simp [Index.ofSpec] at decoded

/-- A table with a size, a scale, a default value, members, and indexes of two kinds. -/
def mixedTable : Table where
  name := "t"
  columns := [
    { name := "a", typeName := "dec", length := some (.integer "3" 3), scale := some (.integer "1" 1),
      default := some (.bit "1" true) },
    { name := "b", typeName := "enum", members := ["x"] }]
  indexes := [
    { name := "PRIMARY", type := "primary key", columns := [{ column := "a" }], primary := true, unique := true },
    { name := "u", type := "unique", columns := [{ column := "b", length := some (.integer "2" 2) }], unique := true }]

theorem wellFormed_read_mixed :
    ∃ text, (read .mysql text).Gives (.createTable text mixedTable) ∧ mixedTable.WellFormed := by
  have given : (read .mysql
      "CREATE TABLE t (a DEC(3,1) DEFAULT b'1', b ENUM('x'), PRIMARY KEY (a), UNIQUE u (b(2)))").Gives
      (.createTable "CREATE TABLE t (a DEC(3,1) DEFAULT b'1', b ENUM('x'), PRIMARY KEY (a), UNIQUE u (b(2)))"
        mixedTable) := by
    rw [read_of_untouched (by decide +kernel)]
    decide +kernel
  exact ⟨_, given, wellFormed_read .mysql _ _ given⟩

end Definition
end SqlSchema
