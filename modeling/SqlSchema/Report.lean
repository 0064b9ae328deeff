import SqlSchema.Batch
import SqlSchema.Log
import SqlSchema.OutputFormat
import SqlSchema.Schema.Document
import SqlSchema.Text.LineEnd

/-! Reports: what is put out and what is logged while files are read. -/
namespace SqlSchema

/-- Logged once the action of a statement is known. -/
def Tree.Action.entry (action : String) : Log.Entry := Log.debug ("parsing " ++ action ++ " statement")

/-- What is logged before a statement is rejected. Numbers stand only in the statements that create tables. -/
def Rejection.entries : Rejection → List Log.Entry
  | .syntaxError _ => []
  | .otherStatement kind => [Log.debug (kind ++ " statement is not a schema statement")]
  | .unsupportedAction action | .missingIndexSpec action => [Tree.Action.entry action]
  | .malformedNumber _ _ => [Tree.Action.entry Tree.Action.create]

namespace Batch

def Step.entries : Step → List Log.Entry
  | .skipped text => [Log.debug ("skipping comment-only segment: " ++ Text.inspect text)]
  | .defined d => [Tree.Action.entry d.action]
  | .rejected e => e.rejection.entries

def counted (b : Batch) : String := toString b.definitions.length ++ " statements"

def entriesOf (steps : List Step) : List Log.Entry :=
  let b := ofSteps steps
  let last := match b.stoppedBy with
    | some e => "stopped after " ++ b.counted ++ ": " ++ e.message
    | none => "parsed " ++ b.counted
  steps.flatMap Step.entries ++ [Log.debug last]

def document (b : Batch) : Document := Definition.documents b.definitions

def write (format : OutputFormat) (b : Batch) : String := format.write b.document

end Batch

structure Report where
  complete : Bool := true
  output : String := ""
  log : List Log.Entry := []
deriving Repr

namespace Report

def append (r s : Report) : Report :=
  { complete := r.complete && s.complete, output := r.output ++ s.output, log := r.log ++ s.log }

def fileEntries (name : String) (listed : Bool) (b : Batch) : List Log.Entry :=
  let about (message : String) := name ++ ": " ++ message
  let statements := if listed then b.definitions.map fun d => Log.debug (about (d.kind ++ ": " ++ d.statement)) else []
  let stopped := b.stoppedBy.toList.map fun (e : StatementError) =>
    (⟨.error, about ("stopped after " ++ b.counted ++ ", " ++ e.rejection.name ++ ": " ++ e.message)⟩ : Log.Entry)
  ⟨.info, about ("parsed " ++ b.counted)⟩ :: statements ++ stopped

/-- The report on a file with the given content. Its output ends with a line feed of its own. -/
def ofFile (d : Dialect) (format : OutputFormat) (listed : Bool) (name content : String) : Except Interruption Report := do
  let steps ← Batch.steps d (String.ofList (Text.unifyLineEnds content.toList))
  let b := Batch.ofSteps steps
  return { complete := b.isComplete
           output := b.write format ++ "\n"
           log := Batch.entriesOf steps ++ fileEntries name listed b }

end Report
end SqlSchema
