import SqlSchema.Document.Json
import SqlSchema.Document.Yaml

/-! The formats in which documents are put out. -/
namespace SqlSchema

inductive OutputFormat where
  | yaml
  | json
deriving DecidableEq, Repr

namespace OutputFormat

def name : OutputFormat → String
  | .yaml => "yaml"
  | .json => "json"

def all : List OutputFormat := [.yaml, .json]

def ofName? (text : String) : Option OutputFormat := all.find? (·.name == text)

theorem ofName?_name (f : OutputFormat) : ofName? f.name = some f := by
  cases f <;> decide

def write : OutputFormat → Document → String
  | .yaml, document => document.yaml
  | .json, document => document.json

end OutputFormat
end SqlSchema
