import SqlSchema.Proofs.Batch.Step
import SqlSchema.Proofs.Definition.Interruption

/-! What interrupts a batch. Rejected statements only end it; a statement that is interrupted takes the whole run with
it, and all that was defined before is lost. -/
namespace SqlSchema.Batch
open Attempt Definition

/-- The batch goes on behind the piece. -/
def Passes (d : Dialect) (piece : String) : Prop :=
  isComment d piece = true ∨ ∃ definition, (Definition.read d piece).Gives definition

/-- A piece of the text is interrupted, and the batch gets to it. -/
def Interrupts (d : Dialect) (text : String) (i : Interruption) : Prop :=
  ∃ before piece after, pieces text = before ++ piece :: after ∧ (∀ p ∈ before, Passes d p) ∧
    Definition.Interrupts d piece i

end SqlSchema.Batch
