import SqlSchema.Proofs.Definition
import SqlSchema.Proofs.Statement.Untouched
import SqlSchema.Proofs.Tree

/-! Statements that stripping leaves as they are. They are read by the rules for statements alone: no token of them
needs to be looked at. -/
namespace SqlSchema
open Text

/-- One bland line from its first character to its last. -/
def Untouched (text : String) : Prop := Statement.Bland text.toList ∧ Framed text.toList

instance (text : String) : Decidable (Untouched text) := inferInstanceAs (Decidable (_ ∧ _))

theorem Untouched.strip {text : String} (untouched : Untouched text) (d : Dialect) :
    Statement.strip d text.toList = .ok text.toList := untouched.1.strip untouched.2 d

theorem Untouched.dropSemicolon {text : String} (untouched : Untouched text) :
    Tree.dropSemicolon text.toList = text.toList := by
  rw [Tree.dropSemicolon, if_neg]
  intro last
  exact (untouched.1.plain ';' (List.mem_of_getLast? last)).2.2 rfl

namespace Tree

theorem read_of_untouched {text : String} (untouched : Untouched text) (d : Dialect) :
    read d text = ofPlain d text.toList := by
  rw [read_of_strip (untouched.strip d), untouched.dropSemicolon]

end Tree

namespace Definition
open Attempt

/-- Reads a statement as it stands. -/
def ofPlain (d : Dialect) (text : String) : Attempt StatementError Definition :=
  ExceptT.adapt (⟨·, text⟩) do
    match ← (Tree.ofPlain d text.toList).adapt .syntaxError with
    | .schema s => ofTree text s
    | .other kind _ => throw (.otherStatement kind)

theorem read_of_untouched {text : String} (untouched : Untouched text) (d : Dialect) :
    read d text = ofPlain d text := by
  rw [read, ofText, Tree.read_of_untouched untouched]
  rfl

/-! A small table, created and dropped. -/

def smallTable : Table where
  name := "a"
  columns := [{ name := "id", typeName := "int" }]

theorem untouched_created : Untouched "CREATE TABLE a (id int)" := by decide +kernel

theorem untouched_dropped : Untouched "DROP TABLE a" := by decide +kernel

theorem gives_created :
    (read .mysql "CREATE TABLE a (id int)").Gives (.createTable "CREATE TABLE a (id int)" smallTable) := by
  rw [read_of_untouched untouched_created]
  decide +kernel

theorem refused_dropped :
    (read .mysql "DROP TABLE a").Rejects ⟨.unsupportedAction Tree.Action.drop, "DROP TABLE a"⟩ := by
  have parsed : (Tree.read .mysql "DROP TABLE a").Gives
      (.schema { action := Tree.Action.drop, table := some { name := "a" } }) := by
    rw [Tree.read_of_untouched untouched_dropped]
    decide +kernel
  exact refused_of_action parsed (by decide) (by decide)

end Definition
end SqlSchema
