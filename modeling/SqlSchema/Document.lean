import SqlSchema.Number.Shortest
import SqlSchema.Text.Inspect

/-! Documents: values of data formats, in which mappings keep the order of their entries. -/
namespace SqlSchema

inductive Document where
  | null
  | bool (value : Bool)
  | integer (value : Int)
  | float (value : Binary64)
  | text (value : String)
  | list (items : List Document)
  | mapping (entries : List (String × Document))
deriving Repr, Inhabited

namespace Document

def ofOption {α : Type} (document : α → Document) : Option α → Document
  | some a => document a
  | none => .null

def typeName : Document → String
  | .null => "NoneType"
  | .bool _ => "bool"
  | .integer _ => "int"
  | .float _ => "float"
  | .text _ => "str"
  | .list _ => "list"
  | .mapping _ => "dict"

/-- Whether a document stands for nothing: null, false, zero, or something without content. -/
def isVoid : Document → Bool
  | .null => true
  | .bool value => !value
  | .integer value => value = 0
  | .float value => value.magnitude = 0
  | .text value => value.isEmpty
  | .list items => items.isEmpty
  | .mapping entries => entries.isEmpty

mutual

/-- A document on one line, texts between quotes. -/
def inspect : Document → String
  | .null => "None"
  | .bool value => if value then "True" else "False"
  | .integer value => toString value
  | .float value => value.text
  | .text value => Text.inspect value
  | .list items => "[" ++ ", ".intercalate (inspectItems items) ++ "]"
  | .mapping entries => "\x7b" ++ ", ".intercalate (inspectEntries entries) ++ "\x7d"

def inspectItems : List Document → List String
  | [] => []
  | item :: rest => item.inspect :: inspectItems rest

def inspectEntries : List (String × Document) → List String
  | [] => []
  | (key, value) :: rest => (Text.inspect key ++ ": " ++ value.inspect) :: inspectEntries rest

end

/-- A document as part of a message: a text stands for itself. -/
def display : Document → String
  | .text value => value
  | document => document.inspect

end Document
end SqlSchema
