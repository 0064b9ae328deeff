import SqlSchema.Definition
import SqlSchema.Text.Inspect

/-! Batches: texts of many statements with semicolons between them. A batch is read statement by statement up to the
first one that is rejected; what was defined before stays. Interruptions end the whole run. -/
namespace SqlSchema

namespace Batch

/-- The parts of a text between semicolons, wherever these stand; without the white space around them, and empty
ones left out. -/
def pieces (text : String) : List String :=
  (((text.toList.splitOn ';').map Text.trim).filter (!·.isEmpty)).map String.ofList

/-- What becomes of one part of a batch. -/
inductive Step where
  /-- It holds nothing but comments. -/
  | skipped (text : String)
  | defined (d : Definition)
  | rejected (e : StatementError)
deriving Repr

def Step.definition? : Step → Option Definition
  | .defined d => some d
  | .skipped _ | .rejected _ => none

def Step.rejection? : Step → Option StatementError
  | .rejected e => some e
  | .skipped _ | .defined _ => none

def step (d : Dialect) (piece : String) : Except Interruption Step := do
  if (← Statement.strip d piece.toList).isEmpty then return .skipped piece
  else
    match ← (Definition.read d piece).run with
    | .ok definition => return .defined definition
    | .error e => return .rejected e

/-- The steps up to the first rejection, which is the last of them. -/
def stepsOf (d : Dialect) : List String → Except Interruption (List Step)
  | [] => return []
  | piece :: rest => do
    let s ← step d piece
    if s.rejection?.isSome then return [s] else return s :: (← stepsOf d rest)

def steps (d : Dialect) (text : String) : Except Interruption (List Step) := stepsOf d (pieces text)

end Batch

/-- What a batch defines, and the error that stopped it. -/
structure Batch where
  definitions : List Definition := []
  stoppedBy : Option StatementError := none
deriving Repr

namespace Batch

def isComplete (b : Batch) : Bool := b.stoppedBy.isNone

def ofSteps (steps : List Step) : Batch :=
  { definitions := steps.filterMap Step.definition?
    stoppedBy := steps.findSome? Step.rejection? }

def read (d : Dialect) (text : String) : Except Interruption Batch := (steps d text).map ofSteps

end Batch
end SqlSchema
